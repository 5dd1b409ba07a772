/-
# What a filtered sheet is made of

What `filter_stylesheet` returns is text, and a browser reads that text again.  Every piece of it (a
selector list, a media query, a value) was read inside ANOTHER text: what stood before and behind it
there is gone.

Here the sheet is DATA first: the rules that are kept, with the tokens of their pieces, and `print`, which
is what the filter writes (`filterStylesheet_print`).  What is known of a kept rule is what its place in
the first text says, `Sound`: a property is on the list, and a piece has no bracket of the rule in it and
stops where it was read to stop (`keptSheet_sound`).

Nothing is said here of what the printed text reads as.  That is `ReadBack.lean`, which uses the two
results and nothing else of the filter.
-/
import Esmail.Library.CssConcat
import Esmail.Rendering.Stylesheet

namespace Esmail

open RustText Css

/-! ## 1. The sheet that is kept -/

/-- A declaration that is kept: its property, the tokens of its value, and its flag. -/
structure KeptDecl where
  name : List Char
  value : List Token
  important : Bool

structure KeptStyle where
  selectors : List Token
  decls : List KeptDecl

inductive KeptRule
  | style (rule : KeptStyle)
  | media (query : List Token) (rules : List KeptStyle)

def importantText (important : Bool) : List Char :=
  if important then " !important".toList else []

def KeptDecl.print (d : KeptDecl) : List Char :=
  d.name ++ ':' :: consumeText d.value ++ importantText d.important ++ [';']

def KeptStyle.print (r : KeptStyle) : List Char :=
  consumeText r.selectors ++ " \x7b ".toList ++ (r.decls.map KeptDecl.print).flatten ++
    " \x7d\n".toList

def KeptRule.print : KeptRule → List Char
  | .style r => r.print
  | .media query rs =>
    "@media ".toList ++ consumeText query ++ " \x7b\n".toList ++ (rs.map KeptStyle.print).flatten ++
      "\x7d".toList

theorem print_media (query : List Token) (rs : List KeptStyle) :
    (KeptRule.media query rs).print = "@media ".toList ++ (consumeText query ++ ' ' :: '{' :: '\n' ::
      ((rs.map KeptStyle.print).flatten ++ ['}'])) := by
  show "@media ".toList ++ consumeText query ++ [' ', '{', '\n'] ++ (rs.map KeptStyle.print).flatten ++
    ['}'] = _
  simp only [List.append_assoc, List.cons_append, List.nil_append]

def KeptStyle.pieces (r : KeptStyle) : List (List Token) :=
  r.selectors :: r.decls.map KeptDecl.value

def KeptRule.pieces : KeptRule → List (List Token)
  | .style r => r.pieces
  | .media query rs => query :: (rs.map KeptStyle.pieces).flatten

/-! ## 2. Which rules are kept -/

/-- The tokens of a value whose text is kept. -/
def valuePart (ts : List Token) : List Token :=
  if (valueTokens ts).2 = [] then (valueTokens ts).1 else upToLastOuter [] (valueTokens ts).1

variable (allowed : List (List Char))

def keptItem : RawItem → Option KeptDecl
  | .declaration name value =>
    if (parseValue allowed name value).isSome then
      some ⟨lower name, valuePart value, (afterImportant (valueTokens value).2).isSome⟩
    else none
  | _ => none

def keptStyle (prelude : List Token) (block : Option (List Token)) : Option KeptStyle :=
  if (filterStyle allowed prelude block).isSome then
    some ⟨prelude, (items (block.getD [])).filterMap (keptItem allowed)⟩
  else none

def keptMediaItem : RawRule → Option KeptStyle
  | .qualified prelude block => keptStyle allowed prelude block
  | .atRule _ _ _ => none

def keptRule : RawRule → Option KeptRule
  | .qualified prelude block => (keptStyle allowed prelude block).map .style
  | .atRule name prelude block =>
    if (filterRule allowed (.atRule name prelude block)).isSome then
      some (.media prelude ((rules (block.getD [])).filterMap (keptMediaItem allowed)))
    else none

def keptSheet (css : List Char) : List KeptRule :=
  (rules (tokenize css)).filterMap (keptRule allowed)

/-- The pieces that are copied from a sheet, in the order in which they are. -/
def pieces (css : List Char) : List (List Token) := (keptSheet allowed css).flatMap KeptRule.pieces

theorem parseValue_some {allowed : List (List Char)} {name : List Char} {ts : List Token}
    {text : List Char} (h : parseValue allowed name ts = some text) :
    lower name ∈ allowed ∧ isSafeText (consumeText (valuePart ts)) = true ∧
      text = (KeptDecl.mk (lower name) (valuePart ts) (afterImportant (valueTokens ts).2).isSome).print := by
  unfold parseValue at h
  simp only at h
  split at h
  · next hname =>
    split at h
    · exact absurd h (by simp)
    · next hsafe =>
      split at h
      · exact absurd h (by simp)
      · refine ⟨hname, ?_, (Option.some.inj h).symm⟩
        simp only [Bool.or_eq_true, not_or, Bool.not_eq_true] at hsafe
        exact (Bool.not_eq_eq_eq_not.mp hsafe.1.1)
  · exact absurd h (by simp)

theorem filterItem_print (i : RawItem) :
    filterItem allowed i = (keptItem allowed i).map KeptDecl.print := by
  cases i with
  | declaration name value =>
    cases h : parseValue allowed name value with
    | none => simp [filterItem, keptItem, h]
    | some text => simp [filterItem, keptItem, h, (parseValue_some h).2.2]
  | atRule _ | invalid => rfl

/-- The texts that a filter leaves are the prints of what it keeps. -/
theorem filterMap_print {α β : Type} {f : α → Option (List Char)} {g : α → Option β}
    {print : β → List Char} (h : ∀ a, f a = (g a).map print) (as : List α) :
    as.filterMap f = (as.filterMap g).map print := by
  rw [List.map_filterMap]
  exact congrArg (List.filterMap · as) (funext h)

theorem filterStyle_some {allowed : List (List Char)} {prelude : List Token}
    {block : Option (List Token)} {text : List Char} (h : filterStyle allowed prelude block = some text) :
    isSafeText (consumeText prelude) = true ∧
      (items (block.getD [])).filterMap (keptItem allowed) ≠ [] ∧
      text = (KeptStyle.mk prelude ((items (block.getD [])).filterMap (keptItem allowed))).print := by
  unfold filterStyle at h
  simp only at h
  split at h
  · next hsafe =>
    split at h
    · exact absurd h (by simp)
    · next content =>
      rw [filterMap_print (filterItem_print allowed)] at h
      split at h
      · exact absurd h (by simp)
      · next hnil =>
        refine ⟨hsafe, fun hempty => hnil ?_, (Option.some.inj h).symm⟩
        simp only [Option.getD_some] at hempty
        rw [hempty]
        rfl
  · exact absurd h (by simp)

theorem filterStyle_print (prelude : List Token) (block : Option (List Token)) :
    filterStyle allowed prelude block = (keptStyle allowed prelude block).map KeptStyle.print := by
  cases h : filterStyle allowed prelude block with
  | none => simp [keptStyle, h]
  | some text => simp [keptStyle, h, (filterStyle_some h).2.2]

theorem filterMediaItem_print (r : RawRule) :
    filterMediaItem allowed r = (keptMediaItem allowed r).map KeptStyle.print := by
  cases r with
  | qualified prelude block => exact filterStyle_print allowed prelude block
  | atRule _ _ _ => rfl

theorem filterMedia_some {allowed : List (List Char)} {name : List Char} {prelude : List Token}
    {block : Option (List Token)} {text : List Char}
    (h : filterRule allowed (.atRule name prelude block) = some text) :
    isSafeText (consumeText prelude) = true ∧
      (rules (block.getD [])).filterMap (keptMediaItem allowed) ≠ [] ∧
      text = (KeptRule.media prelude
        ((rules (block.getD [])).filterMap (keptMediaItem allowed))).print := by
  unfold filterRule at h
  simp only at h
  split at h
  · split at h
    · next hsafe =>
      split at h
      · exact absurd h (by simp)
      · next content =>
        rw [filterMap_print (filterMediaItem_print allowed)] at h
        split at h
        · exact absurd h (by simp)
        · next hnil =>
          refine ⟨hsafe, fun hempty => hnil ?_, (Option.some.inj h).symm⟩
          simp only [Option.getD_some] at hempty
          rw [hempty]
          rfl
    · exact absurd h (by simp)
  · exact absurd h (by simp)

theorem filterRule_print (r : RawRule) :
    filterRule allowed r = (keptRule allowed r).map KeptRule.print := by
  cases r with
  | qualified prelude block =>
    refine (filterStyle_print allowed prelude block).trans ?_
    rw [keptRule, Option.map_map]
    rfl
  | atRule name prelude block =>
    cases h : filterRule allowed (.atRule name prelude block) with
    | none => simp [keptRule, h]
    | some text => simp [keptRule, h, (filterMedia_some h).2.2]

/-- The filter prints what it keeps. -/
theorem filterStylesheet_print (css : List Char) :
    filterStylesheet allowed css = (keptSheet allowed css).flatMap fun r => r.print ++ ['\n'] := by
  rw [filterStylesheet, filterMap_print (filterRule_print allowed), List.flatMap_map]
  rfl

/-! ## 3. What is known of what is kept -/

/-- A kept declaration: its property is allowed and in lower case, its text has no bracket and no `<`,
and its value goes up to no semicolon. -/
structure KeptDecl.Sound (d : KeptDecl) : Prop where
  name_mem : d.name ∈ allowed
  lower_name : lower d.name = d.name
  safe : isSafeText (consumeText d.value) = true
  passes : Passes (· == .punct ';') [] d.value

structure KeptStyle.Sound (r : KeptStyle) : Prop where
  safe : isSafeText (consumeText r.selectors) = true
  passes : Passes (· == .punct '{') [] r.selectors
  first : ∀ t ∈ r.selectors.head?, isBetweenRules t.kind = false ∧ ∀ name, t.kind ≠ .atKeyword name
  decls_ne_nil : r.decls ≠ []
  decls : ∀ d ∈ r.decls, d.Sound allowed

def KeptRule.Sound : KeptRule → Prop
  | .style r => r.Sound allowed
  | .media query rs =>
    isSafeText (consumeText query) = true ∧ Passes endsAtRulePrelude [] query ∧ rs ≠ [] ∧
      ∀ r ∈ rs, r.Sound allowed

variable {allowed}

theorem lower_lower (s : List Char) : lower (lower s) = lower s := by
  unfold lower
  rw [List.map_map]
  refine List.map_congr_left fun c _ => ?_
  have hsmall : ∀ n, n ≤ 90 → 65 ≤ n → ¬('A' ≤ Char.ofNat (n + 32) ∧ Char.ofNat (n + 32) ≤ 'Z') := by
    decide
  by_cases hc : 'A' ≤ c ∧ c ≤ 'Z'
  · simp only [Function.comp_apply, if_pos hc, if_neg (hsmall c.toNat hc.2 hc.1)]
  · simp only [Function.comp_apply, if_neg hc]

theorem upToLastOuter_start (stack : List Char) (ts : List Token) :
    upToLastOuter stack ts <+: ts := by
  induction ts generalizing stack with
  | nil => exact List.prefix_refl _
  | cons t ts ih =>
    rw [upToLastOuter]
    split
    · exact List.cons_prefix_cons.mpr ⟨rfl, ih _⟩
    · exact List.nil_prefix

theorem valuePart_start (ts : List Token) : valuePart ts <+: ts := by
  have hvalue : (valueTokens ts).1 <+: ts := ⟨_, upTo_join _ _ _⟩
  unfold valuePart
  split
  · exact hvalue
  · exact (upToLastOuter_start _ _).trans hvalue

theorem keptItem_sound {i : RawItem} {d : KeptDecl} {ts : List Token} (hi : i ∈ items ts)
    (hd : keptItem allowed i = some d) : d.Sound allowed := by
  cases i with
  | declaration name value =>
    simp only [keptItem] at hd
    split at hd
    · next hsome =>
      cases hd
      obtain ⟨text, htext⟩ := Option.isSome_iff_exists.mp hsome
      obtain ⟨hname, hsafe, -⟩ := parseValue_some htext
      exact ⟨hname, lower_lower name, hsafe, passes_start (items_passes hi) (valuePart_start value)⟩
    · exact absurd hd (by simp)
  | atRule _ | invalid => exact absurd hd (by simp [keptItem])

theorem keptStyle_sound {prelude : List Token} {block : Option (List Token)} {r : KeptStyle}
    (hshape : (RawRule.qualified prelude block).Shaped) (hr : keptStyle allowed prelude block = some r) :
    r.Sound allowed := by
  unfold keptStyle at hr
  split at hr
  · next hsome =>
    cases hr
    obtain ⟨text, htext⟩ := Option.isSome_iff_exists.mp hsome
    obtain ⟨hsafe, hnil, -⟩ := filterStyle_some htext
    refine ⟨hsafe, hshape.1, hshape.2, hnil, fun d hd => ?_⟩
    obtain ⟨i, hi, hkept⟩ := List.mem_filterMap.mp hd
    exact keptItem_sound hi hkept
  · exact absurd hr (by simp)

theorem keptMediaItem_sound {raw : RawRule} {r : KeptStyle} {ts : List Token} (hraw : raw ∈ rules ts)
    (hr : keptMediaItem allowed raw = some r) : r.Sound allowed := by
  cases raw with
  | qualified prelude block => exact keptStyle_sound (rules_shaped hraw) hr
  | atRule _ _ _ => exact absurd hr (by simp [keptMediaItem])

/-- Every rule that is kept is sound. -/
theorem keptSheet_sound {css : List Char} {r : KeptRule} (hr : r ∈ keptSheet allowed css) :
    r.Sound allowed := by
  obtain ⟨raw, hraw, hkept⟩ := List.mem_filterMap.mp hr
  have hshape := rules_shaped hraw
  cases raw with
  | qualified prelude block =>
    obtain ⟨style, hstyle, rfl⟩ := Option.map_eq_some_iff.mp hkept
    exact keptStyle_sound hshape hstyle
  | atRule name prelude block =>
    simp only [keptRule] at hkept
    split at hkept
    · next hsome =>
      cases hkept
      obtain ⟨text, htext⟩ := Option.isSome_iff_exists.mp hsome
      obtain ⟨hsafe, hnil, -⟩ := filterMedia_some htext
      refine ⟨hsafe, hshape, hnil, fun style hstyle => ?_⟩
      obtain ⟨inner, hinner, hkept⟩ := List.mem_filterMap.mp hstyle
      exact keptMediaItem_sound hinner hkept
    · exact absurd hkept (by simp)

end Esmail
