/-
# Style blocks in sanitized mail

The model of `sanitize` and `filter_style_blocks` in `render.rs`.  The sanitizer proper is a
library that is not part of the repository: it is a parameter here, `clean`, and what is known of
it is that it returns an element tree, which is then written as text (`Html.serialise`).

The second pass takes no tree.  It looks for the literal texts `<style>` and `</style>` and
replaces what is between them.  Two things escape it: a `style` element with an attribute, whose
tag is not the literal text, and a literal text that is not the tag of a `style` element without
one.  A bracket is escaped everywhere but in the text of a `style` element, so that there is one
place for such a literal: the text of a `style` element THAT HAS AN ATTRIBUTE.  `NoStray` says of a
tree that there is none, and `not_infix_serialise` that none is anywhere else.

For a tree without one the pass is a map over the events, `filterEvent`, and the round trip of
`Html.read` makes both main results statements about that map: `all_styles_filtered_iff` is exact,
and `rest_is_kept` has no other condition.  What becomes of a tree with a stray literal is left
open: the search then cuts the element open, and what the rest is read as hangs on where in the
text an end tag happens to be completed by what follows.
-/
import Esmail.Library.Html
import Esmail.Rendering.Stylesheet

namespace Esmail

open RustText Html

/-! ## 1. The second pass -/

/-- `OPEN` in `filter_style_blocks`. -/
def styleOpen : List Char := ['<', 's', 't', 'y', 'l', 'e', '>']

/-- `CLOSE` in `filter_style_blocks`. -/
def styleClose : List Char := ['<', '/', 's', 't', 'y', 'l', 'e', '>']

/-- What is written for a block: nothing where no rule is left, or where the text could close the
element early. -/
def keptBlock (css : List Char) : List Char :=
  let css := filterStylesheet allowedStyleProperties css
  if css ≠ [] ∧ '<' ∉ css then styleOpen ++ css ++ styleClose else []

/-- The loop of `filter_style_blocks`, as far as the fuel goes. -/
def filterBlocksFuel : Nat → List Char → List Char
  | 0, _ => []
  | fuel + 1, rest =>
    match findText styleOpen rest with
    | none => rest
    | some (before, after) =>
      match findText styleClose after with
      -- An unterminated block runs to the end of the document.
      | none => before
      | some (css, rest') => before ++ keptBlock css ++ filterBlocksFuel fuel rest'

/-- `filter_style_blocks`.  Every round takes at least a tag, so its length is fuel enough. -/
def filterStyleBlocks (html : List Char) : List Char := filterBlocksFuel (html.length + 1) html

/-- `sanitize`, for a sanitizer that returns the tree `clean html`. -/
def sanitize (clean : List Char → List Event) (html : List Char) : List Char :=
  filterStyleBlocks (serialise (clean html))

/-- The fuel does not matter, once it is enough. -/
theorem filterBlocksFuel_eq : ∀ {fuel : Nat} {html : List Char}, html.length < fuel →
    filterBlocksFuel fuel html = filterStyleBlocks html := by
  suffices hmono : ∀ (n m : Nat) (html : List Char), html.length < n → html.length < m →
      filterBlocksFuel n html = filterBlocksFuel m html by
    intro fuel html h
    exact hmono fuel (html.length + 1) html h (Nat.lt_succ_self _)
  intro n
  induction n with
  | zero => exact fun m html h => absurd h (Nat.not_lt_zero _)
  | succ n ih =>
    intro m html hn hm
    obtain ⟨m, rfl⟩ := Nat.exists_eq_succ_of_ne_zero (Nat.ne_of_gt (Nat.zero_lt_of_lt hm))
    rw [filterBlocksFuel, filterBlocksFuel]
    cases hopen : findText styleOpen html with
    | none => rfl
    | some found =>
      obtain ⟨before, after⟩ := found
      cases hclose : findText styleClose after with
      | none => simp [hclose]
      | some found =>
        obtain ⟨css, rest⟩ := found
        have hlen := congrArg List.length (findText_split hopen)
        rw [findText_split hclose] at hlen
        simp only [List.length_append, styleOpen, styleClose] at hlen
        simp only [hclose]
        rw [ih m rest (by simp at hlen; omega) (by simp at hlen; omega)]

/-- A round of the loop. -/
theorem filterStyleBlocks_eq (html : List Char) : filterStyleBlocks html =
    match findText styleOpen html with
    | none => html
    | some (before, after) =>
      match findText styleClose after with
      | none => before
      | some (css, rest) => before ++ keptBlock css ++ filterStyleBlocks rest := by
  rw [filterStyleBlocks, filterBlocksFuel]
  cases hopen : findText styleOpen html with
  | none => rfl
  | some found =>
    obtain ⟨before, after⟩ := found
    cases hclose : findText styleClose after with
    | none => simp only [hclose]
    | some found =>
      obtain ⟨css, rest⟩ := found
      have hlen := congrArg List.length (findText_split hopen)
      rw [findText_split hclose] at hlen
      simp only [List.length_append] at hlen
      have hpos : 0 < styleClose.length := by decide
      simp only [hclose]
      rw [filterBlocksFuel_eq (by omega)]

/-! ## 2. Where the search finds what it looks for -/

/-- A `style` element without attributes: the literal text is its tag. -/
def isBlock : Event → Bool
  | .style [] _ => true
  | _ => false

/-- The literal text occurs in the text of no `style` element that has an attribute. -/
def NoStray (evs : List Event) : Prop :=
  ∀ attrs text, Event.style attrs text ∈ evs → attrs ≠ [] → ¬styleOpen <:+: text

/-- What the second pass is to do to the tree. -/
def filterEvent : Event → List Event
  | .style [] text =>
    let css := filterStylesheet allowedStyleProperties text
    if css ≠ [] ∧ '<' ∉ css then [.style [] css] else []
  | e => [e]

theorem eq_style_of_isBlock : ∀ {e : Event}, isBlock e = true → ∃ text, e = .style [] text
  | .style [] text, _ => ⟨text, rfl⟩

theorem filterEvent_of_not_isBlock : ∀ {e : Event}, isBlock e = false → filterEvent e = [e]
  | .char _, _ | .openTag _ _, _ | .closeTag _, _ | .style (_ :: _) _, _ => rfl

/-- The attributes of a tag have no bracket in them: their values are escaped. -/
theorem not_mem_attrs {attrs : List Attr} (h : ∀ a ∈ attrs, PlainName a.name) :
    '<' ∉ attrs.flatMap Attr.serialise := by
  intro hmem
  obtain ⟨a, ha, hin⟩ := List.mem_flatMap.mp hmem
  have hname : '<' ∉ a.name := fun hmem => absurd ((h a ha).2 '<' hmem) (by decide)
  have hvalue : '<' ∉ a.value.flatMap escapeValueChar := fun hmem => by
    obtain ⟨c, -, hin⟩ := List.mem_flatMap.mp hmem
    exact (not_mem_escapeValueChar c).1 hin
  simp [Attr.serialise, hname, hvalue] at hin

/-- What is behind the bracket of an open tag: no other, and where the tag has the name that is looked
for, an attribute. -/
theorem openTagText_tail {name : List Char} {attrs : List Attr} (hname : PlainName name)
    (hattrs : ∀ a ∈ attrs, PlainName a.name) (hother : name ≠ styleName ∨ attrs ≠ []) :
    ∃ tail, openTagText name attrs = '<' :: tail ∧ '<' ∉ tail ∧
      ∀ s, ¬['s', 't', 'y', 'l', 'e', '>'] <+: tail ++ s := by
  have hplain : '<' ∉ name := fun hmem => absurd (hname.2 '<' hmem) (by decide)
  refine ⟨name ++ attrs.flatMap Attr.serialise ++ ['>'], rfl, ?_, fun s hpre => ?_⟩
  · simp [hplain, not_mem_attrs hattrs]
  · -- The name that the literal text has is the longest run of characters of a name.
    have hrun : ∀ t : List Char, (t.head?.any isPlainNameChar) = false →
        (name ++ t).takeWhile isPlainNameChar = name := by
      intro t ht
      rw [List.takeWhile_append_of_pos (fun c hc => hname.2 c hc)]
      cases t with
      | nil => simp
      | cons c t => simp_all
    obtain ⟨w, hw⟩ := hpre
    have hlit : (['s', 't', 'y', 'l', 'e', '>'] ++ w).takeWhile isPlainNameChar = styleName := rfl
    rw [hw, List.append_assoc, List.append_assoc] at hlit
    cases attrs with
    | nil =>
      rw [hrun _ rfl] at hlit
      exact hother.elim (fun h => h hlit) fun h => h rfl
    | cons a attrs =>
      rw [hrun _ rfl] at hlit
      subst hlit
      simp [styleName, Attr.serialise] at hw

/-- In a tree without stray literals, the literal text is in nothing that is written but its own tags. -/
theorem not_infix_serialise {e : Event} (hwf : e.WellFormed) (hblock : isBlock e = false)
    (hstray : NoStray [e]) : ¬styleOpen <:+: e.serialise := by
  intro hin
  cases e with
  | char c => exact not_mem_escapeChar c (hin.subset (by simp [styleOpen]))
  | openTag name attrs =>
    obtain ⟨hname, hstyle, hattrs⟩ := hwf
    obtain ⟨tail, htail, hno, hlit⟩ := openTagText_tail hname hattrs (.inl hstyle)
    rw [Event.serialise, htail, styleOpen, List.infix_cons_iff] at hin
    rcases hin with hpre | hin
    · exact hlit [] (by simpa using hpre)
    · exact hno (hin.subset List.mem_cons_self)
  | closeTag name =>
    have hplain : '<' ∉ name := fun hmem => absurd (hwf.1.2 '<' hmem) (by decide)
    rw [Event.serialise, closeTagText, List.cons_append, styleOpen, List.infix_cons_iff] at hin
    rcases hin with hpre | hin
    · simp at hpre
    · exact absurd (hin.subset List.mem_cons_self) (by simp [hplain])
  | style attrs text =>
    have hattrs : attrs ≠ [] := by
      rintro rfl
      cases hblock
    obtain ⟨tail, htail, hno, hlit⟩ := openTagText_tail plainName_style hwf.1 (.inr hattrs)
    rw [Event.serialise, htail, List.append_assoc, List.cons_append, styleOpen,
      List.infix_cons_iff] at hin
    rcases hin with hpre | hin
    · exact hlit _ (List.cons_prefix_cons.mp hpre).2
    · rcases infix_append_cons (by decide) (infix_of_not_mem hno hin) with htext | hclose
      · exact hstray attrs text (List.mem_singleton_self _) hattrs htext
      · exact absurd hclose (by decide)

/-- What is written for an event ends a tag, or has no tag in it: no occurrence of the literal
text starts in it and ends behind it. -/
theorem no_straddling {t s : List Char} (hshape : '<' ∉ t ∨ ∃ r, t = r ++ ['>'])
    (hstray : ¬styleOpen <:+: t) (u v : List Char) (htext : t = u ++ v) (hv : v ≠ []) :
    ¬styleOpen <+: v ++ s := by
  intro hpre
  rcases List.prefix_or_prefix_of_prefix hpre (List.prefix_append v s) with hin | hlong
  · exact hstray (htext ▸ hin.isInfix.trans (List.suffix_append u v).isInfix)
  · obtain ⟨w, hw⟩ := hlong
    rcases List.eq_nil_or_concat' w with rfl | ⟨w, x, rfl⟩
    · rw [List.append_nil] at hw
      exact hstray ⟨u, [], by rw [List.append_nil, htext, hw]⟩
    · -- What is left of the literal text in `t` starts with `<` and has no `>`.
      rw [← List.append_assoc] at hw
      have hfront : v ++ w = ['<', 's', 't', 'y', 'l', 'e'] := List.append_inj_left' (hw.trans rfl) rfl
      have hsub : ∀ c ∈ v, c ∈ ['<', 's', 't', 'y', 'l', 'e'] :=
        fun c hc => hfront ▸ List.mem_append_left w hc
      rcases hshape with hno | ⟨r, hr⟩
      · obtain ⟨c, v, rfl⟩ := List.exists_cons_of_ne_nil hv
        obtain ⟨rfl, -⟩ := List.cons.inj hfront
        exact hno (by rw [htext]; simp)
      · obtain ⟨v, y, rfl⟩ := (List.eq_nil_or_concat' v).resolve_left hv
        rw [hr, ← List.append_assoc] at htext
        have hlast : '>' = y := List.singleton_inj.mp (List.append_inj_right' htext rfl)
        exact absurd (hsub y (by simp)) (by rw [← hlast]; decide)

theorem serialise_shape : ∀ (e : Event), '<' ∉ e.serialise ∨ ∃ r, e.serialise = r ++ ['>']
  | .char c => .inl (not_mem_escapeChar c)
  | .openTag name attrs => .inr ⟨'<' :: name ++ attrs.flatMap Attr.serialise, rfl⟩
  | .closeTag name => .inr ⟨'<' :: '/' :: name, rfl⟩
  | .style attrs text =>
    .inr ⟨openTagText styleName attrs ++ text ++ ('<' :: '/' :: styleName), by
      simp [Event.serialise, closeTagText]⟩

/-- A text that the search passes over. -/
theorem filterStyleBlocks_skip {t : List Char} (s : List Char)
    (h : ∀ u v, t = u ++ v → v ≠ [] → ¬styleOpen <+: v ++ s) :
    filterStyleBlocks (t ++ s) = t ++ filterStyleBlocks s := by
  rw [filterStyleBlocks_eq, filterStyleBlocks_eq s, findText_append h]
  cases findText styleOpen s with
  | none => rfl
  | some found =>
    obtain ⟨before, after⟩ := found
    simp only [Option.map_some]
    cases findText styleClose after with
    | none => rfl
    | some found => simp only [List.append_assoc]

theorem style_serialise (text : List Char) :
    (Event.style [] text).serialise = styleOpen ++ (text ++ styleClose) :=
  List.append_assoc ..

/-- A text that does not end the element early holds no `</style>`. -/
theorem no_styleClose {text s : List Char} (h : RawText text) (u v : List Char)
    (htext : text = u ++ v) (hv : v ≠ []) : ¬styleClose <+: v ++ (styleClose ++ s) := by
  intro hpre
  have hends := h u v htext hv
  have hlen : 8 ≤ (v ++ closeTagText styleName).length := by simp [closeTagText, styleName]
  rw [← endsRaw_append (s := s) hlen, List.append_assoc] at hends
  obtain ⟨w, hw⟩ := hpre
  rw [show closeTagText styleName = styleClose from rfl, ← hw, endsRaw_append (by decide)] at hends
  exact absurd hends (by decide)

theorem filterStyleBlocks_style {text : List Char} (s : List Char) (h : RawText text) :
    filterStyleBlocks ((Event.style [] text).serialise ++ s) = keptBlock text ++ filterStyleBlocks s := by
  rw [style_serialise, filterStyleBlocks_eq, List.append_assoc,
    findText_here styleOpen _ (by decide)]
  simp only
  rw [List.append_assoc, findText_append (no_styleClose h),
    findText_here styleClose _ (by decide)]
  simp

theorem keptBlock_serialise (text : List Char) :
    keptBlock text = serialise (filterEvent (.style [] text)) := by
  simp only [keptBlock, filterEvent]
  split
  · rw [serialise_singleton, style_serialise, List.append_assoc]
  · rfl

/-- Where no literal text is stray, the second pass does to the written tree what it is to do. -/
theorem filterStyleBlocks_serialise : ∀ {evs : List Event}, WellFormed evs → NoStray evs →
    filterStyleBlocks (serialise evs) = serialise (evs.flatMap filterEvent)
  | [], _, _ => rfl
  | e :: evs, hwf, hstray => by
    have ih := filterStyleBlocks_serialise (fun e' h => hwf e' (List.mem_cons_of_mem _ h))
      fun attrs text h => hstray attrs text (List.mem_cons_of_mem _ h)
    have hone : NoStray [e] := fun attrs text h =>
      hstray attrs text (List.mem_singleton.mp h ▸ List.mem_cons_self)
    rw [serialise, List.flatMap_cons, List.flatMap_cons, ← serialise]
    rw [serialise_append, ← ih]
    cases hblock : isBlock e with
    | true =>
      obtain ⟨text, rfl⟩ := eq_style_of_isBlock hblock
      rw [filterStyleBlocks_style _ (hwf _ List.mem_cons_self).2, keptBlock_serialise]
    | false =>
      rw [filterStyleBlocks_skip _ (no_straddling (serialise_shape e)
        (not_infix_serialise (hwf e List.mem_cons_self) hblock hone)), filterEvent_of_not_isBlock hblock,
        serialise_singleton]

/-! ## 3. What is left of the tree -/

theorem wellFormed_filterEvent {e : Event} (h : e.WellFormed) : WellFormed (filterEvent e) := by
  cases hblock : isBlock e with
  | true =>
    obtain ⟨text, rfl⟩ := eq_style_of_isBlock hblock
    simp only [filterEvent]
    split
    · next hkept =>
      rintro e he
      rw [List.mem_singleton.mp he]
      exact ⟨by simp, rawText_of_no_bracket hkept.2⟩
    · simp [WellFormed]
  | false =>
    rw [filterEvent_of_not_isBlock hblock]
    exact fun e' he => List.mem_singleton.mp he ▸ h

/-- Where no literal text is stray, the result is read as the tree with its blocks filtered. -/
theorem read_sanitize {clean : List Char → List Event} {html : List Char}
    (hwf : WellFormed (clean html)) (hstray : NoStray (clean html)) :
    read (sanitize clean html) = (clean html).flatMap filterEvent := by
  rw [sanitize, filterStyleBlocks_serialise hwf hstray]
  refine read_serialise fun e he => ?_
  obtain ⟨e', he', hmem⟩ := List.mem_flatMap.mp he
  exact wellFormed_filterEvent (hwf e' he') e hmem

/-- The texts of the `style` elements of a tree. -/
def styleTexts (evs : List Event) : List (List Char) :=
  evs.filterMap fun
    | .style _ text => some text
    | _ => none

/-- The tree with its `style` elements taken out. -/
def withoutStyles (evs : List Event) : List Event :=
  evs.filter fun
    | .style _ _ => false
    | _ => true

/-- An output of the CSS filter. -/
def Filtered (text : List Char) : Prop := ∃ css, filterStylesheet allowedStyleProperties css = text

theorem mem_styleTexts {evs : List Event} {text : List Char} :
    text ∈ styleTexts evs ↔ ∃ attrs, Event.style attrs text ∈ evs := by
  unfold styleTexts
  rw [List.mem_filterMap]
  constructor
  · rintro ⟨e, he, h⟩
    split at h
    · next attrs t =>
      cases h
      exact ⟨attrs, he⟩
    · exact absurd h (by simp)
  · rintro ⟨attrs, h⟩
    exact ⟨_, h, rfl⟩

/-- The `style` elements that are left: a block is filtered, any other is as it was. -/
theorem mem_filterEvent_style {e : Event} {attrs : List Attr} {text : List Char}
    (h : Event.style attrs text ∈ filterEvent e) :
    (attrs = [] ∧ Filtered text) ∨ (attrs ≠ [] ∧ e = .style attrs text) := by
  cases hblock : isBlock e with
  | true =>
    obtain ⟨css, rfl⟩ := eq_style_of_isBlock hblock
    simp only [filterEvent] at h
    split at h
    · cases List.mem_singleton.mp h
      exact .inl ⟨rfl, css, rfl⟩
    · exact absurd h (by simp)
  | false =>
    rw [filterEvent_of_not_isBlock hblock] at h
    cases List.mem_singleton.mp h
    refine .inr ⟨?_, rfl⟩
    rintro rfl
    exact absurd hblock (by simp [isBlock])

theorem withoutStyles_filterEvent (e : Event) : withoutStyles (filterEvent e) = withoutStyles [e] := by
  cases hblock : isBlock e with
  | true =>
    obtain ⟨text, rfl⟩ := eq_style_of_isBlock hblock
    simp only [filterEvent]
    split <;> rfl
  | false => rw [filterEvent_of_not_isBlock hblock]

theorem withoutStyles_flatMap_filterEvent : ∀ (evs : List Event),
    withoutStyles (evs.flatMap filterEvent) = withoutStyles evs
  | [] => rfl
  | e :: evs => by
    have ih := withoutStyles_flatMap_filterEvent evs
    have hone := withoutStyles_filterEvent e
    unfold withoutStyles at ih hone ⊢
    rw [List.flatMap_cons, List.filter_append, ih, hone, ← List.filter_append]
    rfl

/-! ## 4. Which style elements are filtered, and what else is changed -/

variable {clean : List Char → List Event}

/-- Of mail without stray literal texts, the result holds only filtered CSS exactly if every
`style` element that HAS AN ATTRIBUTE held only such CSS before: none of those is filtered. -/
theorem all_styles_filtered_iff (hclean : ∀ html, WellFormed (clean html)) (html : List Char)
    (hstray : NoStray (clean html)) :
    (∀ text ∈ styleTexts (read (sanitize clean html)), Filtered text) ↔
      ∀ attrs text, Event.style attrs text ∈ clean html → attrs ≠ [] → Filtered text := by
  rw [read_sanitize (hclean html) hstray]
  constructor
  · intro h attrs text hmem hattrs
    refine h text (mem_styleTexts.mpr ⟨attrs, List.mem_flatMap.mpr ⟨_, hmem, ?_⟩⟩)
    rw [filterEvent_of_not_isBlock (by cases attrs with | nil => exact absurd rfl hattrs | cons a l => rfl)]
    exact List.mem_singleton_self _
  · intro h text htext
    obtain ⟨attrs, hmem⟩ := mem_styleTexts.mp htext
    obtain ⟨e, he, hstyle⟩ := List.mem_flatMap.mp hmem
    rcases mem_filterEvent_style hstyle with ⟨-, hfiltered⟩ | ⟨hattrs, rfl⟩
    · exact hfiltered
    · exact h attrs text he hattrs

/-- A sanitizer, given by what it makes of one message. -/
def cleanOf (mail : List Char) (tree : List Event) : List Char → List Event :=
  fun html => if html = mail then tree else []

theorem wellFormed_cleanOf (mail : List Char) {tree : List Event} (h : WellFormed tree) :
    ∀ html, WellFormed (cleanOf mail tree html) := by
  intro html
  unfold cleanOf
  split
  · exact h
  · exact fun e he => absurd he (by simp)

theorem plainName_class : PlainName "class".toList :=
  .of_all (c := 'c') (s := "lass".toList) (by decide) (by decide) (by decide)

theorem plainName_title : PlainName "title".toList :=
  .of_all (c := 't') (s := "itle".toList) (by decide) (by decide) (by decide)

theorem plainName_p : PlainName "p".toList := .of_all (by decide) (by decide) (by decide)

/-- A newsletter: a block, a `style` element with a class, and a paragraph whose title is the literal
text. -/
def newsletter : List Char :=
  ("<style>p { color: red; position: fixed }</style><style class=\"x\">p { color:red; }\n\n</style>" ++
    "<p title=\"<style>\">x</p>").toList

def newsletterTree : List Event :=
  [.style [] "p { color: red; position: fixed }".toList,
    .style [⟨"class".toList, "x".toList⟩] "p { color:red; }\n\n".toList,
    .openTag "p".toList [⟨"title".toList, "<style>".toList⟩], .char 'x', .closeTag "p".toList]

theorem wellFormed_newsletter : WellFormed newsletterTree := by
  intro e he
  simp only [newsletterTree, List.mem_cons, List.not_mem_nil, or_false] at he
  rcases he with rfl | rfl | rfl | rfl | rfl
  · exact ⟨by simp, rawText_of_no_bracket (by decide)⟩
  · exact ⟨by simpa using plainName_class, rawText_of_no_bracket (by decide)⟩
  · exact ⟨plainName_p, by decide, by simpa using plainName_title⟩
  · exact trivial
  · exact ⟨plainName_p, by decide⟩

/-- The one `style` element of it that has an attribute. -/
theorem attributed_newsletter {attrs : List Attr} {text : List Char}
    (hmem : Event.style attrs text ∈ cleanOf newsletter newsletterTree newsletter) (hattrs : attrs ≠ []) :
    text = "p { color:red; }\n\n".toList := by
  rw [cleanOf, if_pos rfl, newsletterTree] at hmem
  simp only [List.mem_cons, Event.style.injEq, List.not_mem_nil, or_false, reduceCtorEq] at hmem
  exact hmem.elim (fun h => absurd h.1 hattrs) fun h => h.2

theorem noStray_newsletter : NoStray (cleanOf newsletter newsletterTree newsletter) := by
  intro attrs text hmem hattrs hin
  have hbracket : '<' ∈ text := hin.subset (by simp [styleOpen])
  rw [attributed_newsletter hmem hattrs] at hbracket
  exact absurd hbracket (by decide)

/-- Its CSS is what the filter makes of the same rule. -/
theorem all_styles_filtered_newsletter :
    (styleTexts (read (sanitize (cleanOf newsletter newsletterTree) newsletter))).Forall Filtered := by
  have hiff := all_styles_filtered_iff (wellFormed_cleanOf newsletter wellFormed_newsletter) newsletter
    noStray_newsletter
  rw [List.forall_iff_forall_mem]
  refine hiff.mpr fun attrs text hmem hattrs => ?_
  rw [attributed_newsletter hmem hattrs]
  exact ⟨"p{color:red}".toList, by decide⟩

/-- An import, in a `style` element with a class. -/
def attributedMail : List Char := "<style class=\"x\">@import url(//t.example);</style>".toList

def attributedTree : List Event :=
  [.style [⟨"class".toList, "x".toList⟩] "@import url(//t.example);".toList]

theorem wellFormed_attributed : WellFormed attributedTree := by
  intro e he
  rw [List.mem_singleton.mp he]
  exact ⟨by simpa using plainName_class, rawText_of_no_bracket (by decide)⟩

theorem attributed_style_is_not_filtered :
    (∀ html, WellFormed (cleanOf attributedMail attributedTree html)) ∧
      ¬∀ text ∈ styleTexts (read (sanitize (cleanOf attributedMail attributedTree) attributedMail)),
        Filtered text := by
  refine ⟨wellFormed_cleanOf attributedMail wellFormed_attributed, fun h => ?_⟩
  obtain ⟨css, hcss⟩ := h "@import url(//t.example);".toList (by decide)
  -- What the filter leaves over ends in a line break.
  rcases filterStylesheet_end allowedStyleProperties css with hnil | ⟨s, hend⟩
  · exact absurd (hnil.symm.trans hcss) (by decide)
  · rw [hcss] at hend
    have hlast := congrArg List.getLast? hend
    rw [List.getLast?_append, List.getLast?_singleton, Option.some_or] at hlast
    exact absurd hlast (by decide)

/-- Mail without stray literal texts keeps everything but its `style` elements: the events that are read of
the result are those that `ammonia` has left, in their order, but for these. -/
theorem rest_is_kept (hclean : ∀ html, WellFormed (clean html)) (html : List Char)
    (hstray : NoStray (clean html)) :
    withoutStyles (read (sanitize clean html)) = withoutStyles (clean html) := by
  rw [read_sanitize (hclean html) hstray, withoutStyles_flatMap_filterEvent]

theorem newsletter_is_kept :
    withoutStyles (read (sanitize (cleanOf newsletter newsletterTree) newsletter)) =
      withoutStyles (cleanOf newsletter newsletterTree newsletter) :=
  rest_is_kept (wellFormed_cleanOf newsletter wellFormed_newsletter) newsletter noStray_newsletter

/-- The literal text in a `style` element with a class, and the message behind it. -/
def strayMail : List Char :=
  "<style class=\"x\">p{color:red}<style></style><p>Hello</p>".toList

def strayTree : List Event :=
  .style [⟨"class".toList, "x".toList⟩] "p{color:red}<style>".toList ::
    .openTag "p".toList [] :: "Hello".toList.map .char ++ [.closeTag "p".toList]

theorem rawText_stray : RawText "p{color:red}<style>".toList := by
  have hall : ∀ n < 19,
      endsRaw ("p{color:red}<style>".toList.drop n ++ closeTagText styleName) = false := by decide
  intro s t htext ht
  have hdrop : t = "p{color:red}<style>".toList.drop s.length := by
    rw [htext, List.drop_left]
  have hlen := congrArg List.length htext
  have hpos := List.length_pos_of_ne_nil ht
  simp only [List.length_append] at hlen
  rw [hdrop]
  exact hall s.length (by simp at hlen; omega)

theorem wellFormed_stray : WellFormed strayTree := by
  intro e he
  simp only [strayTree, List.cons_append, List.mem_cons, List.mem_append, List.mem_map,
    List.not_mem_nil, or_false] at he
  rcases he with rfl | rfl | ⟨c, -, rfl⟩ | rfl
  · exact ⟨by simpa using plainName_class, rawText_stray⟩
  · exact ⟨plainName_p, by decide, by simp⟩
  · exact trivial
  · exact ⟨plainName_p, by decide⟩

/-- The end tag is cut out, and the message becomes CSS. -/
theorem stray_text_swallows_message :
    (∀ html, WellFormed (cleanOf strayMail strayTree html)) ∧
      withoutStyles (read (sanitize (cleanOf strayMail strayTree) strayMail)) ≠
        withoutStyles (cleanOf strayMail strayTree strayMail) :=
  ⟨wellFormed_cleanOf strayMail wellFormed_stray, by decide⟩

end Esmail
