/-
# CSS Syntax Level 3: reading what was put together

How rules and declarations are read that stand one behind the other.  A piece is passed over when no
token in it ends what is being read (`Passes`); behind it, the brackets it left open decide what the
next token means (`upTo_append`).  A block that the text ends in is a block as well, so the shapes are
stated for a text that may be over (`Closes`).
-/
import Esmail.Library.CssSolid

namespace Css

/-! ## 1. Passing over a piece -/

/-- No token of the piece stops, with these brackets open before it. -/
def Passes (stop : Kind → Bool) (stack : List Char) (ts : List Token) : Prop :=
  (upTo stop stack ts).2 = []

theorem upTo_join (stop : Kind → Bool) (stack : List Char) (ts : List Token) :
    (upTo stop stack ts).1 ++ (upTo stop stack ts).2 = ts := by
  induction ts generalizing stack with
  | nil => rfl
  | cons t ts ih =>
    rw [upTo]
    split
    · rfl
    · exact congrArg (t :: ·) (ih _)

theorem Passes.all {stop : Kind → Bool} {stack : List Char} {ts : List Token}
    (h : Passes stop stack ts) : upTo stop stack ts = (ts, []) := by
  have hjoin := upTo_join stop stack ts
  rw [h, List.append_nil] at hjoin
  exact Prod.ext hjoin h

@[simp] theorem passes_nil (stop : Kind → Bool) (stack : List Char) : Passes stop stack [] := rfl

theorem passes_cons {stop : Kind → Bool} {stack : List Char} {t : Token} {ts : List Token} :
    Passes stop stack (t :: ts) ↔
      ¬(stack = [] ∧ stop t.kind = true) ∧ Passes stop (t.kind.nest stack) ts := by
  unfold Passes
  rw [upTo]
  split
  · next hstop => simp [hstop]
  · next hstop => simp [hstop]

/-- What is behind a piece that is passed over. -/
theorem upTo_append {stop : Kind → Bool} {stack : List Char} {ts : List Token}
    (h : Passes stop stack ts) (us : List Token) :
    upTo stop stack (ts ++ us) =
      (ts ++ (upTo stop (openAfter stack ts) us).1, (upTo stop (openAfter stack ts) us).2) := by
  induction ts generalizing stack with
  | nil => rfl
  | cons t ts ih =>
    obtain ⟨hstop, hrest⟩ := passes_cons.mp h
    rw [List.cons_append, upTo, if_neg hstop, ih hrest]
    rfl

theorem passes_append {stop : Kind → Bool} {stack : List Char} {ts us : List Token} :
    Passes stop stack (ts ++ us) ↔ Passes stop stack ts ∧ Passes stop (openAfter stack ts) us := by
  induction ts generalizing stack with
  | nil => simp [openAfter]
  | cons t ts ih =>
    rw [List.cons_append, passes_cons, passes_cons, ih, and_assoc]
    rfl

theorem passes_start {stop : Kind → Bool} {stack : List Char} {ts us : List Token}
    (h : Passes stop stack us) (hts : ts <+: us) : Passes stop stack ts := by
  obtain ⟨vs, rfl⟩ := hts
  exact (passes_append.mp h).1

theorem openAfter_append (stack : List Char) (ts us : List Token) :
    openAfter stack (ts ++ us) = openAfter (openAfter stack ts) us := List.foldl_append

/-- What was read up to a stop has none in it. -/
theorem passes_upTo (stop : Kind → Bool) (stack : List Char) (ts : List Token) :
    Passes stop stack (upTo stop stack ts).1 := by
  induction ts generalizing stack with
  | nil => rfl
  | cons t ts ih =>
    rw [upTo]
    split
    · rfl
    · next hstop => exact passes_cons.mpr ⟨hstop, ih _⟩

theorem passes_of_not_mem {stop : Kind → Bool} {ts : List Token}
    (h : ∀ t ∈ ts, stop t.kind = false) (stack : List Char) : Passes stop stack ts := by
  induction ts generalizing stack with
  | nil => rfl
  | cons t ts ih =>
    refine passes_cons.mpr ⟨fun hstop => ?_, ih (fun u hu => h u (List.mem_cons_of_mem _ hu)) _⟩
    exact absurd (hstop.2.symm.trans (h t List.mem_cons_self)) (by simp)

/-- Inside a block, its brackets are on top of the block's own. -/
theorem inside_block {ts : List Token} {stack : List Char}
    (h : Passes (· == .punct '}') stack ts) (stop : Kind → Bool) :
    Passes stop (stack ++ ['}']) ts ∧
      openAfter (stack ++ ['}']) ts = openAfter stack ts ++ ['}'] := by
  induction ts generalizing stack with
  | nil => exact ⟨rfl, rfl⟩
  | cons t ts ih =>
    obtain ⟨hstop, hrest⟩ := passes_cons.mp h
    have hnest : t.kind.nest (stack ++ ['}']) = t.kind.nest stack ++ ['}'] := by
      unfold Kind.nest
      cases hcloser : t.kind.closer with
      | some c => rfl
      | none =>
        cases stack with
        | nil =>
          have hnot : t.kind ≠ .punct '}' := fun heq => hstop ⟨rfl, by simp [heq]⟩
          simp [hnot]
        | cons c rest =>
          simp only [List.cons_append]
          split <;> rfl
    obtain ⟨hpasses, hopen⟩ := ih hrest
    refine ⟨passes_cons.mpr ⟨by simp, hnest ▸ hpasses⟩, ?_⟩
    show openAfter (t.kind.nest (stack ++ ['}'])) ts = _
    rw [hnest]
    exact hopen

/-- A kind that opens, closes and ends nothing. -/
def Kind.plain : Kind → Bool
  | .function _ | .punct _ => false
  | _ => true

/-- A kind that opens no bracket, and closes none of `(` and `[`. -/
def Kind.loose (k : Kind) : Bool := k.closer.isNone && k != .punct ')' && k != .punct ']'

theorem loose_of_plain {k : Kind} (h : k.plain = true) : k.loose = true := by
  cases k with
  | function _ | punct _ => exact absurd h (by simp [Kind.plain])
  | _ => rfl

theorem nest_loose {k : Kind} (h : k.loose = true) {stack : List Char}
    (hstack : ∀ c ∈ stack, c = ')' ∨ c = ']') : k.nest stack = stack := by
  simp only [Kind.loose, Bool.and_eq_true, Option.isNone_iff_eq_none, bne_iff_ne] at h
  obtain ⟨⟨hcloser, hround⟩, hsquare⟩ := h
  unfold Kind.nest
  rw [hcloser]
  cases stack with
  | nil => rfl
  | cons c rest =>
    refine if_neg ?_
    rcases hstack c List.mem_cons_self with rfl | rfl
    · exact hround
    · exact hsquare

/-- Behind loose kinds the same brackets are open. -/
theorem openAfter_loose {ks : List Kind} (hks : ∀ k ∈ ks, k.loose = true) {stack : List Char}
    (hstack : ∀ c ∈ stack, c = ')' ∨ c = ']') : openAfter stack (bare ks) = stack := by
  induction ks with
  | nil => rfl
  | cons k ks ih =>
    show openAfter (k.nest stack) (bare ks) = stack
    rw [nest_loose (hks k List.mem_cons_self) hstack]
    exact ih fun l hl => hks l (List.mem_cons_of_mem _ hl)

/-- Inside a bracket that loose kinds do not close, nothing stops. -/
theorem passes_loose {ks : List Kind} (hks : ∀ k ∈ ks, k.loose = true) {stack : List Char}
    (hstack : ∀ c ∈ stack, c = ')' ∨ c = ']') (hopen : stack ≠ []) (stop : Kind → Bool) :
    Passes stop stack (bare ks) := by
  induction ks with
  | nil => rfl
  | cons k ks ih =>
    refine passes_cons.mpr ⟨fun h => hopen h.1, ?_⟩
    rw [nest_loose (hks k List.mem_cons_self) hstack]
    exact ih fun l hl => hks l (List.mem_cons_of_mem _ hl)

/-- A bracket that is open was opened. -/
theorem opened {stack : List Char} {c : Char} {ts : List Token} (hc : c ∈ openAfter stack ts) :
    c ∈ stack ∨ ∃ t ∈ ts, t.kind.closer = some c := by
  induction ts generalizing stack with
  | nil => exact .inl hc
  | cons t ts ih =>
    rcases ih hc with hstack | ⟨u, hu, hcloser⟩
    · have hstack : c ∈ t.kind.nest stack := hstack
      unfold Kind.nest at hstack
      split at hstack
      · next d hd =>
        rcases List.mem_cons.mp hstack with rfl | hmem
        · exact .inr ⟨t, List.mem_cons_self, hd⟩
        · exact .inl hmem
      · cases stack with
        | nil => exact .inl hstack
        | cons d rest =>
          simp only at hstack
          split at hstack
          · exact .inl (List.mem_cons_of_mem _ hstack)
          · exact .inl hstack
    · exact .inr ⟨u, List.mem_cons_of_mem _ hu, hcloser⟩

/-- Without a brace, only the other two brackets are open. -/
theorem opened_round {ks : List Kind} (hbrace : .punct '{' ∉ ks) :
    ∀ c ∈ openAfter [] (bare ks), c = ')' ∨ c = ']' := by
  intro c hc
  rcases opened hc with hnil | ⟨t, ht, hcloser⟩
  · exact absurd hnil (by simp)
  · obtain ⟨k, hk, rfl⟩ := List.mem_map.mp ht
    simp only at hcloser
    unfold Kind.closer at hcloser
    split at hcloser
    · exact .inl (Option.some.inj hcloser).symm
    · split at hcloser
      · exact .inl (Option.some.inj hcloser).symm
      · split at hcloser
        · exact .inr (Option.some.inj hcloser).symm
        · split at hcloser
          · next heq => exact absurd (heq ▸ hk) hbrace
          · exact absurd hcloser (by simp)
    · exact absurd hcloser (by simp)

/-! ## 2. Blocks and rules -/

/-- What follows the contents of a block: its bracket and the rest, or nothing. -/
def Closes (content tail rest : List Token) : Prop :=
  tail = [] ∧ rest = [] ∨ openAfter [] content = [] ∧ ∃ t, t.kind = .punct '}' ∧ tail = t :: rest

theorem block_append {content tail rest : List Token} (h : Passes (· == .punct '}') [] content)
    (hcloses : Closes content tail rest) : block (content ++ tail) = (content, rest) := by
  rw [block, upTo_append h]
  rcases hcloses with ⟨rfl, rfl⟩ | ⟨hopen, t, ht, rfl⟩
  · simp [upTo]
  · rw [hopen, upTo, if_pos ⟨rfl, by simp [ht]⟩, List.append_nil]
    rfl

theorem rules_qualified {t : Token} {ts : List Token} (hfirst : isBetweenRules t.kind = false)
    (hkeyword : ∀ name, t.kind ≠ .atKeyword name) :
    rules (t :: ts) = (qualifiedRule (t :: ts)).1 :: rules (qualifiedRule (t :: ts)).2 := by
  rw [rules_eq (t :: ts), List.dropWhile_cons, if_neg (by simp [hfirst])]
  simp only

theorem rules_atKeyword {t : Token} {name : List Char} {ts : List Token}
    (ht : t.kind = .atKeyword name) :
    rules (t :: ts) = (atRule name ts).1 :: rules (atRule name ts).2 := by
  rw [rules_eq (t :: ts), List.dropWhile_cons, if_neg (by simp [ht, isBetweenRules, isSpace])]
  simp only [ht]

/-- A style rule, and the rules behind it. -/
theorem rules_style {t u : Token} {ts content tail rest : List Token}
    (hfirst : isBetweenRules t.kind = false) (hkeyword : ∀ name, t.kind ≠ .atKeyword name)
    (hpasses : Passes (· == .punct '{') [] (t :: ts)) (hopen : openAfter [] (t :: ts) = [])
    (hu : u.kind = .punct '{') (hcontent : Passes (· == .punct '}') [] content)
    (hcloses : Closes content tail rest) :
    rules (t :: ts ++ u :: (content ++ tail)) =
      .qualified (t :: ts) (some content) :: rules rest := by
  have hupTo : upTo (· == .punct '{') [] (t :: ts ++ u :: (content ++ tail)) =
      (t :: ts, u :: (content ++ tail)) := by
    rw [upTo_append hpasses, hopen, upTo, if_pos ⟨rfl, by simp [hu]⟩, List.append_nil]
  have hrule : qualifiedRule (t :: ts ++ u :: (content ++ tail)) =
      (.qualified (t :: ts) (some content), rest) := by
    rw [qualifiedRule_block (congrArg Prod.snd hupTo), hupTo, block_append hcontent hcloses]
  rw [List.cons_append] at hrule ⊢
  rw [rules_qualified hfirst hkeyword, hrule]

/-- An at-rule with a block, and the rules behind it. -/
theorem rules_atRule {t u : Token} {name : List Char} {ts content tail rest : List Token}
    (ht : t.kind = .atKeyword name) (hpasses : Passes endsAtRulePrelude [] ts)
    (hopen : openAfter [] ts = []) (hu : u.kind = .punct '{')
    (hcontent : Passes (· == .punct '}') [] content) (hcloses : Closes content tail rest) :
    rules (t :: (ts ++ u :: (content ++ tail))) = .atRule name ts (some content) :: rules rest := by
  have hupTo : upTo endsAtRulePrelude [] (ts ++ u :: (content ++ tail)) =
      (ts, u :: (content ++ tail)) := by
    rw [upTo_append hpasses, hopen, upTo, if_pos ⟨rfl, by simp [hu, endsAtRulePrelude]⟩,
      List.append_nil]
  have hrule : atRule name (ts ++ u :: (content ++ tail)) =
      (.atRule name ts (some content), rest) := by
    rw [atRule_block (congrArg Prod.snd hupTo) hu, hupTo, block_append hcontent hcloses]
  rw [rules_atKeyword ht, hrule]

/-! ## 3. Declarations -/

theorem items_ident {t : Token} {name : List Char} {ts : List Token} (ht : t.kind = .ident name) :
    items (t :: ts) = declarationOf name (upTo (· == .punct ';') [] ts).1 ::
      items ((upTo (· == .punct ';') [] ts).2.drop 1) := by
  rw [items_eq (t :: ts), List.dropWhile_cons, if_neg (by simp [ht, isBetweenItems, isSpace])]
  simp only [ht]

theorem declarationOf_colon {u : Token} {name : List Char} {value : List Token}
    (hu : u.kind = .punct ':') : declarationOf name (u :: value) = .declaration name value := by
  simp [declarationOf, skipSpace, hu, isSpace]

/-- A colon is passed over. -/
theorem passes_colon {u : Token} {value : List Token} (hu : u.kind = .punct ':') :
    (Passes (· == .punct ';') [] (u :: value) ↔ Passes (· == .punct ';') [] value) ∧
      openAfter [] (u :: value) = openAfter [] value := by
  have hnest : u.kind.nest [] = [] := by rw [hu]; rfl
  refine ⟨?_, congrArg (openAfter · value) hnest⟩
  rw [passes_cons, hnest, hu]
  simp

/-- A declaration that the text ends in. -/
theorem items_last {t u : Token} {name : List Char} {value : List Token}
    (ht : t.kind = .ident name) (hu : u.kind = .punct ':') (hpasses : Passes (· == .punct ';') [] value) :
    items (t :: u :: value) = [.declaration name value] := by
  rw [items_ident ht, ((passes_colon hu).1.mpr hpasses).all, declarationOf_colon hu]
  rfl

/-- A declaration, and the items behind its semicolon. -/
theorem items_declaration {t u e : Token} {name : List Char} {value rest : List Token}
    (ht : t.kind = .ident name) (hu : u.kind = .punct ':') (hpasses : Passes (· == .punct ';') [] value)
    (hopen : openAfter [] value = []) (he : e.kind = .punct ';') :
    items (t :: u :: (value ++ e :: rest)) = .declaration name value :: items rest := by
  have hupTo : upTo (· == .punct ';') [] (u :: (value ++ e :: rest)) = (u :: value, e :: rest) := by
    rw [← List.cons_append, upTo_append ((passes_colon hu).1.mpr hpasses), (passes_colon hu).2, hopen,
      upTo, if_pos ⟨rfl, by simp [he]⟩, List.append_nil]
  rw [items_ident ht, hupTo, declarationOf_colon hu]
  rfl

/-! ## 4. What is known of everything that is read -/

/-- What a rule is, as far as its prelude says. -/
def RawRule.Shaped : RawRule → Prop
  | .atRule _ prelude _ => Passes endsAtRulePrelude [] prelude
  | .qualified prelude _ => Passes (· == .punct '{') [] prelude ∧
      ∀ t ∈ prelude.head?, isBetweenRules t.kind = false ∧ ∀ name, t.kind ≠ .atKeyword name

theorem atRule_shaped (name : List Char) (ts : List Token) : (atRule name ts).1.Shaped := by
  have hpasses := passes_upTo endsAtRulePrelude [] ts
  cases hrest : (upTo endsAtRulePrelude [] ts).2 with
  | nil =>
    rw [atRule_none hrest]
    exact hpasses
  | cons t rest =>
    by_cases hblock : t.kind = .punct '{'
    · rw [atRule_block hrest hblock]
      exact hpasses
    · rw [atRule_semicolon hrest hblock]
      exact hpasses

theorem qualifiedRule_shaped {t : Token} {ts : List Token} (hfirst : isBetweenRules t.kind = false)
    (hkeyword : ∀ name, t.kind ≠ .atKeyword name) : (qualifiedRule (t :: ts)).1.Shaped := by
  have hpasses := passes_upTo (· == .punct '{') [] (t :: ts)
  have hhead : ∀ u ∈ (upTo (· == .punct '{') [] (t :: ts)).1.head?,
      isBetweenRules u.kind = false ∧ ∀ name, u.kind ≠ .atKeyword name := by
    intro u hu
    rw [upTo] at hu
    split at hu
    · exact absurd hu (by simp)
    · obtain rfl : t = u := by simpa using hu
      exact ⟨hfirst, hkeyword⟩
  cases hrest : (upTo (· == .punct '{') [] (t :: ts)).2 with
  | nil =>
    rw [qualifiedRule_none hrest]
    exact ⟨hpasses, hhead⟩
  | cons u rest =>
    rw [qualifiedRule_block hrest]
    exact ⟨hpasses, hhead⟩

theorem rules_shaped {ts : List Token} {r : RawRule} (hr : r ∈ rules ts) : r.Shaped := by
  induction hn : ts.length using Nat.strongRecOn generalizing ts with
  | ind n ih =>
    have hdrop := dropWhile_length (p := fun t => isBetweenRules t.kind) ts
    rw [rules_eq] at hr
    cases hts : ts.dropWhile fun t => isBetweenRules t.kind with
    | nil =>
      rw [hts] at hr
      exact absurd hr (by simp)
    | cons t rest =>
      have hfirst : isBetweenRules t.kind = false := by
        have hnot := List.head?_dropWhile_not (fun t : Token => isBetweenRules t.kind) ts
        rw [hts] at hnot
        simpa using hnot
      rw [hts, List.length_cons] at hdrop
      rw [hts] at hr
      simp only at hr
      split at hr
      · next name hname =>
        have hlength := atRule_length name rest
        rcases List.mem_cons.mp hr with rfl | hr
        · exact atRule_shaped name rest
        · exact ih _ (by omega) hr rfl
      · next hkeyword =>
        have hlength := qualifiedRule_length t rest
        rcases List.mem_cons.mp hr with rfl | hr
        · exact qualifiedRule_shaped hfirst hkeyword
        · exact ih _ (by omega) hr rfl

/-- Whitespace is passed over. -/
theorem passes_skipSpace {stop : Kind → Bool} {ts : List Token} (h : Passes stop [] ts) :
    Passes stop [] (skipSpace ts) := by
  induction ts with
  | nil => exact h
  | cons t ts ih =>
    rw [skipSpace, List.dropWhile_cons]
    split
    · next hspace => exact ih (nest_space hspace [] ▸ (passes_cons.mp h).2)
    · exact h

/-- A declaration's value ends where the declaration does. -/
theorem declarationOf_passes {name : List Char} {ts value : List Token} {name' : List Char}
    (hts : Passes (· == .punct ';') [] ts) (h : declarationOf name ts = .declaration name' value) :
    Passes (· == .punct ';') [] value := by
  have hskip := passes_skipSpace hts
  unfold declarationOf at h
  split at h
  · exact absurd h (by simp)
  · next t value' hts' =>
    split at h
    · next hcolon =>
      cases h
      rw [hts'] at hskip
      exact (passes_colon hcolon).1.mp hskip
    · exact absurd h (by simp)

theorem items_passes {ts value : List Token} {name : List Char}
    (h : .declaration name value ∈ items ts) : Passes (· == .punct ';') [] value := by
  induction hn : ts.length using Nat.strongRecOn generalizing ts with
  | ind n ih =>
    have hdrop := dropWhile_length (p := fun t => isBetweenItems t.kind) ts
    rw [items_eq] at h
    cases hts : ts.dropWhile fun t => isBetweenItems t.kind with
    | nil =>
      rw [hts] at h
      exact absurd h (by simp)
    | cons t rest =>
      have hfirst := first_item hts
      rw [hts, List.length_cons] at hdrop
      rw [hts] at h
      simp only at h
      split at h
      · next name' hname =>
        have hlength := atRule_length name' rest
        rcases List.mem_cons.mp h with heq | h
        · exact absurd heq (by simp)
        · exact ih _ (by omega) h rfl
      · next name' hname =>
        have hlength := declaration_length (· == .punct ';') rest
        rcases List.mem_cons.mp h with heq | h
        · exact declarationOf_passes (passes_upTo _ [] rest) heq.symm
        · exact ih _ (by omega) h rfl
      · have hlength := invalid_length rest hfirst
        rcases List.mem_cons.mp h with heq | h
        · exact absurd heq (by simp)
        · exact ih _ (by omega) h rfl

end Css
