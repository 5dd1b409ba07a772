/-
# CSS Syntax Level 3: the tokens that count

The grammar skips whitespace and comments wherever they stand, and looks at the KIND of a token only.
So what is read of a list of tokens is read of its `gist`: the kinds of the solid tokens, and nothing
else (`rules_gist`, `items_gist`).
-/
import Esmail.Library.CssSyntax

namespace Css

/-! ## 1. Solid tokens -/

/-- The kinds of the tokens other than whitespace and comments. -/
def solid (ts : List Token) : List Kind := (ts.map Token.kind).filter fun k => !isSpace k

@[simp] theorem solid_nil : solid [] = [] := rfl

@[simp] theorem solid_append (ts us : List Token) : solid (ts ++ us) = solid ts ++ solid us := by
  simp [solid]

theorem solid_cons (t : Token) (ts : List Token) :
    solid (t :: ts) = if isSpace t.kind then solid ts else t.kind :: solid ts := by
  simp only [solid, List.map_cons, List.filter_cons]
  cases isSpace t.kind <;> rfl

theorem solid_space {t : Token} (ts : List Token) (h : isSpace t.kind = true) :
    solid (t :: ts) = solid ts := by
  rw [solid_cons, if_pos h]

theorem solid_solid {t : Token} (ts : List Token) (h : isSpace t.kind = false) :
    solid (t :: ts) = t.kind :: solid ts := by
  rw [solid_cons, if_neg (by simp [h])]

/-- Tokens of these kinds. -/
def bare (ks : List Kind) : List Token := ks.map fun k => ⟨k, [], true⟩

@[simp] theorem bare_nil : bare [] = [] := rfl

@[simp] theorem bare_cons (k : Kind) (ks : List Kind) : bare (k :: ks) = ⟨k, [], true⟩ :: bare ks := rfl

@[simp] theorem bare_append (ks ls : List Kind) : bare (ks ++ ls) = bare ks ++ bare ls :=
  List.map_append

/-- All that is read of a list of tokens. -/
def gist (ts : List Token) : List Token := bare (solid ts)

theorem gist_space {t : Token} (ts : List Token) (h : isSpace t.kind = true) :
    gist (t :: ts) = gist ts := congrArg bare (solid_space ts h)

theorem gist_solid {t : Token} (ts : List Token) (h : isSpace t.kind = false) :
    gist (t :: ts) = ⟨t.kind, [], true⟩ :: gist ts := congrArg bare (solid_solid ts h)

/-! ## 2. Brackets -/

theorem closer_space {k : Kind} (h : isSpace k = true) : k.closer = none := by
  cases k <;> first | rfl | exact absurd h (by simp [isSpace])

theorem nest_space {k : Kind} (h : isSpace k = true) (stack : List Char) : k.nest stack = stack := by
  unfold Kind.nest
  rw [closer_space h]
  cases stack with
  | nil => rfl
  | cons c rest =>
    refine if_neg ?_
    rintro rfl
    exact absurd h (by simp [isSpace])

theorem upTo_gist {stop : Kind → Bool} (hstop : ∀ k, isSpace k = true → stop k = false)
    (stack : List Char) (ts : List Token) :
    upTo stop stack (gist ts) = (gist (upTo stop stack ts).1, gist (upTo stop stack ts).2) := by
  induction ts generalizing stack with
  | nil => rfl
  | cons t ts ih =>
    cases hspace : isSpace t.kind with
    | true =>
      have hnot : ¬(stack = [] ∧ stop t.kind = true) := by simp [hstop _ hspace]
      rw [gist_space ts hspace, ih, upTo, if_neg hnot, nest_space hspace, gist_space _ hspace]
    | false =>
      rw [gist_solid ts hspace, upTo, upTo]
      by_cases hend : stack = [] ∧ stop t.kind = true
      · rw [if_pos hend, if_pos hend, gist_solid ts hspace]
        rfl
      · rw [if_neg hend, if_neg hend, ih, gist_solid _ hspace]

theorem openAfter_gist (stack : List Char) (ts : List Token) :
    openAfter stack (gist ts) = openAfter stack ts := by
  induction ts generalizing stack with
  | nil => rfl
  | cons t ts ih =>
    cases hspace : isSpace t.kind with
    | true =>
      rw [gist_space ts hspace, ih]
      exact congrArg (openAfter · ts) (nest_space hspace stack).symm
    | false =>
      rw [gist_solid ts hspace]
      exact ih _

theorem dropWhile_gist {p : Kind → Bool} (hp : ∀ k, isSpace k = true → p k = true) (ts : List Token) :
    (gist ts).dropWhile (fun t => p t.kind) = gist (ts.dropWhile fun t => p t.kind) := by
  induction ts with
  | nil => rfl
  | cons t ts ih =>
    cases hspace : isSpace t.kind with
    | true => rw [gist_space ts hspace, ih, List.dropWhile_cons, if_pos (hp _ hspace)]
    | false =>
      rw [gist_solid ts hspace, List.dropWhile_cons, List.dropWhile_cons]
      cases hdrop : p t.kind with
      | true => exact ih
      | false => exact (gist_solid ts hspace).symm

/-- What is left starts with the token that stopped. -/
theorem stop_of_upTo {stop : Kind → Bool} {stack : List Char} {ts rest : List Token} {t : Token}
    (h : (upTo stop stack ts).2 = t :: rest) : stop t.kind = true := by
  induction ts generalizing stack with
  | nil => exact absurd h (by simp [upTo])
  | cons u ts ih =>
    unfold upTo at h
    split at h
    · next hstop =>
      cases h
      exact hstop.2
    · exact ih h

/-! ## 3. Rules -/

theorem block_length (ts : List Token) : (block ts).2.length ≤ ts.length := by
  have hlength := upTo_length (· == .punct '}') [] ts
  simp only [block, List.length_drop]
  omega

theorem atRule_length (name : List Char) (ts : List Token) :
    (atRule name ts).2.length ≤ ts.length := by
  have hlength := upTo_length endsAtRulePrelude [] ts
  unfold atRule
  cases hrest : (upTo endsAtRulePrelude [] ts).2 with
  | nil => simp [hrest]
  | cons t rest =>
    rw [hrest, List.length_cons] at hlength
    have hblock := block_length rest
    simp only [hrest]
    split <;> simp only <;> omega

theorem qualifiedRule_length (t : Token) (ts : List Token) :
    (qualifiedRule (t :: ts)).2.length ≤ ts.length := by
  have hlength := upTo_length (· == .punct '{') [] (t :: ts)
  unfold qualifiedRule
  cases hrest : (upTo (· == .punct '{') [] (t :: ts)).2 with
  | nil => simp [hrest]
  | cons u rest =>
    rw [hrest, List.length_cons, List.length_cons] at hlength
    have hblock := block_length rest
    simp only [hrest]
    omega

theorem dropWhile_length {p : Token → Bool} (ts : List Token) :
    (ts.dropWhile p).length ≤ ts.length := (List.dropWhile_suffix p).sublist.length_le

theorem atRule_none {name : List Char} {ts : List Token}
    (h : (upTo endsAtRulePrelude [] ts).2 = []) :
    atRule name ts = (.atRule name (upTo endsAtRulePrelude [] ts).1 none, []) := by
  simp only [atRule, h]

theorem atRule_block {name : List Char} {ts rest : List Token} {t : Token}
    (h : (upTo endsAtRulePrelude [] ts).2 = t :: rest) (ht : t.kind = .punct '{') :
    atRule name ts = (.atRule name (upTo endsAtRulePrelude [] ts).1 (some (block rest).1),
      (block rest).2) := by
  simp only [atRule, h, ht, if_true]

theorem atRule_semicolon {name : List Char} {ts rest : List Token} {t : Token}
    (h : (upTo endsAtRulePrelude [] ts).2 = t :: rest) (ht : t.kind ≠ .punct '{') :
    atRule name ts = (.atRule name (upTo endsAtRulePrelude [] ts).1 none, rest) := by
  simp only [atRule, h, ht, if_false]

theorem qualifiedRule_none {ts : List Token} (h : (upTo (· == .punct '{') [] ts).2 = []) :
    qualifiedRule ts = (.qualified (upTo (· == .punct '{') [] ts).1 none, []) := by
  simp only [qualifiedRule, h]

theorem qualifiedRule_block {ts rest : List Token} {t : Token}
    (h : (upTo (· == .punct '{') [] ts).2 = t :: rest) :
    qualifiedRule ts = (.qualified (upTo (· == .punct '{') [] ts).1 (some (block rest).1),
      (block rest).2) := by
  simp only [qualifiedRule, h]

/-- Any fuel that is enough gives the same rules. -/
theorem rulesFuel_eq {fuel : Nat} {ts : List Token} (h : ts.length < fuel) :
    rulesFuel fuel ts = rules ts := by
  suffices hall : ∀ (n fuel fuel' : Nat) (ts : List Token), ts.length ≤ n → ts.length < fuel →
      ts.length < fuel' → rulesFuel fuel ts = rulesFuel fuel' ts from
    hall _ _ _ _ (Nat.le_refl _) h (Nat.lt_succ_self _)
  intro n
  induction n with
  | zero =>
    intro fuel fuel' ts hn hfuel hfuel'
    obtain rfl := List.length_eq_zero_iff.mp (Nat.le_zero.mp hn)
    obtain ⟨k, rfl⟩ := Nat.exists_eq_succ_of_ne_zero (Nat.ne_of_gt hfuel)
    obtain ⟨k', rfl⟩ := Nat.exists_eq_succ_of_ne_zero (Nat.ne_of_gt hfuel')
    rfl
  | succ n ih =>
    intro fuel fuel' ts hn hfuel hfuel'
    obtain ⟨k, rfl⟩ := Nat.exists_eq_succ_of_ne_zero (Nat.ne_of_gt (Nat.zero_lt_of_lt hfuel))
    obtain ⟨k', rfl⟩ := Nat.exists_eq_succ_of_ne_zero (Nat.ne_of_gt (Nat.zero_lt_of_lt hfuel'))
    have hdrop := dropWhile_length (p := fun t => isBetweenRules t.kind) ts
    simp only [rulesFuel]
    cases hts : ts.dropWhile fun t => isBetweenRules t.kind with
    | nil => rfl
    | cons t rest =>
      rw [hts, List.length_cons] at hdrop
      have hat := fun name => atRule_length name rest
      have hqualified := qualifiedRule_length t rest
      have hsame : ∀ us : List Token, us.length ≤ rest.length →
          rulesFuel k us = rulesFuel k' us := fun us hus =>
        ih k k' us (by omega) (by omega) (by omega)
      simp only [hsame _ (hat _), hsame _ hqualified]

/-- The rules of a list, without fuel. -/
theorem rules_eq (ts : List Token) :
    rules ts =
      match ts.dropWhile fun t => isBetweenRules t.kind with
      | [] => []
      | t :: rest =>
        match t.kind with
        | .atKeyword name => (atRule name rest).1 :: rules (atRule name rest).2
        | _ => (qualifiedRule (t :: rest)).1 :: rules (qualifiedRule (t :: rest)).2 := by
  have hdrop := dropWhile_length (p := fun t => isBetweenRules t.kind) ts
  rw [rules, rulesFuel]
  cases hts : ts.dropWhile fun t => isBetweenRules t.kind with
  | nil => rfl
  | cons t rest =>
    rw [hts, List.length_cons] at hdrop
    have hat := fun name => atRule_length name rest
    have hqualified := qualifiedRule_length t rest
    have hsame : ∀ us : List Token, us.length ≤ rest.length →
        rulesFuel ts.length us = rules us := fun us hus => rulesFuel_eq (by omega)
    dsimp only
    cases t.kind <;> simp only [hsame _ (hat _), hsame _ hqualified]

/-! ## 4. What is read of the gist -/

/-- A rule, less what is not read of it. -/
def RawRule.gist : RawRule → RawRule
  | .atRule name prelude block => .atRule name (Css.gist prelude) (block.map Css.gist)
  | .qualified prelude block => .qualified (Css.gist prelude) (block.map Css.gist)

theorem closes_solid (k : Kind) (h : isSpace k = true) : (k == .punct '}') = false := by
  cases k <;> first | rfl | exact absurd h (by simp [isSpace])

theorem opens_solid (k : Kind) (h : isSpace k = true) : (k == .punct '{') = false := by
  cases k <;> first | rfl | exact absurd h (by simp [isSpace])

theorem ends_solid (k : Kind) (h : isSpace k = true) : (k == .punct ';') = false := by
  cases k <;> first | rfl | exact absurd h (by simp [isSpace])

theorem endsAtRulePrelude_solid (k : Kind) (h : isSpace k = true) : endsAtRulePrelude k = false := by
  simp [endsAtRulePrelude, ends_solid k h, opens_solid k h]

theorem between_space (k : Kind) (h : isSpace k = true) : isBetweenRules k = true := by
  simp [isBetweenRules, h]

/-- The token that stops is a solid one. -/
theorem solid_of_upTo {stop : Kind → Bool} (hstop : ∀ k, isSpace k = true → stop k = false)
    {stack : List Char} {ts rest : List Token} {t : Token}
    (h : (upTo stop stack ts).2 = t :: rest) : isSpace t.kind = false := by
  cases hspace : isSpace t.kind with
  | false => rfl
  | true => exact absurd ((hstop _ hspace).symm.trans (stop_of_upTo h)) (by simp)

/-- What is left behind a list that was read up to a token, without that token. -/
theorem drop_gist {stop : Kind → Bool} (hstop : ∀ k, isSpace k = true → stop k = false)
    (ts : List Token) : (gist (upTo stop [] ts).2).drop 1 = gist ((upTo stop [] ts).2.drop 1) := by
  cases hrest : (upTo stop [] ts).2 with
  | nil => rfl
  | cons t rest =>
    rw [gist_solid rest (solid_of_upTo hstop hrest)]
    rfl

theorem block_gist (ts : List Token) : block (gist ts) = (gist (block ts).1, gist (block ts).2) := by
  rw [block, upTo_gist closes_solid]
  exact congrArg _ (drop_gist closes_solid ts)

theorem atRule_gist (name : List Char) (ts : List Token) :
    atRule name (gist ts) = ((atRule name ts).1.gist, gist (atRule name ts).2) := by
  have hgist := upTo_gist endsAtRulePrelude_solid [] ts
  cases hrest : (upTo endsAtRulePrelude [] ts).2 with
  | nil =>
    rw [atRule_none hrest, atRule_none (by rw [hgist, hrest]; rfl), hgist]
    rfl
  | cons t rest =>
    have hsolid := solid_of_upTo endsAtRulePrelude_solid hrest
    have hrest' : (upTo endsAtRulePrelude [] (gist ts)).2 = ⟨t.kind, [], true⟩ :: gist rest := by
      rw [hgist, hrest, gist_solid rest hsolid]
    by_cases hblock : t.kind = .punct '{'
    · rw [atRule_block hrest hblock, atRule_block hrest' hblock, hgist, block_gist]
      rfl
    · rw [atRule_semicolon hrest hblock, atRule_semicolon hrest' hblock, hgist]
      rfl

theorem qualifiedRule_gist (ts : List Token) :
    qualifiedRule (gist ts) = ((qualifiedRule ts).1.gist, gist (qualifiedRule ts).2) := by
  have hgist := upTo_gist opens_solid [] ts
  cases hrest : (upTo (· == .punct '{') [] ts).2 with
  | nil =>
    rw [qualifiedRule_none hrest, qualifiedRule_none (by rw [hgist, hrest]; rfl), hgist]
    rfl
  | cons t rest =>
    have hsolid := solid_of_upTo opens_solid hrest
    have hrest' : (upTo (· == .punct '{') [] (gist ts)).2 = ⟨t.kind, [], true⟩ :: gist rest := by
      rw [hgist, hrest, gist_solid rest hsolid]
    rw [qualifiedRule_block hrest, qualifiedRule_block hrest', hgist, block_gist]
    rfl

/-- The rules that are read of a list are those of its gist. -/
theorem rules_gist (ts : List Token) : rules (gist ts) = (rules ts).map RawRule.gist := by
  induction hn : ts.length using Nat.strongRecOn generalizing ts with
  | ind n ih =>
    have hdrop := dropWhile_length (p := fun t => isBetweenRules t.kind) ts
    rw [rules_eq, rules_eq ts, dropWhile_gist between_space]
    cases hts : ts.dropWhile fun t => isBetweenRules t.kind with
    | nil => rfl
    | cons t rest =>
      rw [hts, List.length_cons] at hdrop
      have hsolid : isSpace t.kind = false := by
        cases hspace : isSpace t.kind with
        | false => rfl
        | true =>
          have hnot := List.head?_dropWhile_not (fun t : Token => isBetweenRules t.kind) ts
          rw [hts] at hnot
          exact absurd (between_space _ hspace) (by simpa using hnot)
      have hat := fun name => atRule_length name rest
      have hqualified := qualifiedRule_length t rest
      have hsame : ∀ us : List Token, us.length ≤ rest.length →
          rules (gist us) = (rules us).map RawRule.gist := fun us hus =>
        ih us.length (by omega) us rfl
      have hrule : qualifiedRule (⟨t.kind, [], true⟩ :: gist rest) =
          ((qualifiedRule (t :: rest)).1.gist, gist (qualifiedRule (t :: rest)).2) := by
        rw [← gist_solid rest hsolid, qualifiedRule_gist]
      rw [gist_solid rest hsolid]
      simp only [atRule_gist, hrule, hsame _ (hat _), hsame _ hqualified]
      split
      · rfl
      · rfl

/-! ## 5. Items -/

theorem declaration_length (stop : Kind → Bool) (ts : List Token) :
    ((upTo stop [] ts).2.drop 1).length ≤ ts.length := by
  have hlength := upTo_length stop [] ts
  rw [List.length_drop]
  omega

/-- Something else than a declaration takes its first token at least. -/
theorem invalid_length {t : Token} (ts : List Token) (ht : isBetweenItems t.kind = false) :
    ((upTo (· == .punct ';') [] (t :: ts)).2.drop 1).length ≤ ts.length := by
  have hnot : ¬(([] : List Char) = [] ∧ (t.kind == .punct ';') = true) := by
    rintro ⟨-, hend⟩
    simp [isBetweenItems, hend] at ht
  have hlength := upTo_length (· == .punct ';') (t.kind.nest []) ts
  rw [upTo, if_neg hnot, List.length_drop]
  simp only
  omega

/-- The token that the contents of a block are read from next. -/
theorem first_item {ts rest : List Token} {t : Token}
    (h : (ts.dropWhile fun t => isBetweenItems t.kind) = t :: rest) :
    isBetweenItems t.kind = false := by
  have hnot := List.head?_dropWhile_not (fun t : Token => isBetweenItems t.kind) ts
  rw [h] at hnot
  simpa using hnot

/-- Any fuel that is enough gives the same items. -/
theorem itemsFuel_eq {fuel : Nat} {ts : List Token} (h : ts.length < fuel) :
    itemsFuel fuel ts = items ts := by
  suffices hall : ∀ (n fuel fuel' : Nat) (ts : List Token), ts.length ≤ n → ts.length < fuel →
      ts.length < fuel' → itemsFuel fuel ts = itemsFuel fuel' ts from
    hall _ _ _ _ (Nat.le_refl _) h (Nat.lt_succ_self _)
  intro n
  induction n with
  | zero =>
    intro fuel fuel' ts hn hfuel hfuel'
    obtain rfl := List.length_eq_zero_iff.mp (Nat.le_zero.mp hn)
    obtain ⟨k, rfl⟩ := Nat.exists_eq_succ_of_ne_zero (Nat.ne_of_gt hfuel)
    obtain ⟨k', rfl⟩ := Nat.exists_eq_succ_of_ne_zero (Nat.ne_of_gt hfuel')
    rfl
  | succ n ih =>
    intro fuel fuel' ts hn hfuel hfuel'
    obtain ⟨k, rfl⟩ := Nat.exists_eq_succ_of_ne_zero (Nat.ne_of_gt (Nat.zero_lt_of_lt hfuel))
    obtain ⟨k', rfl⟩ := Nat.exists_eq_succ_of_ne_zero (Nat.ne_of_gt (Nat.zero_lt_of_lt hfuel'))
    have hdrop := dropWhile_length (p := fun t => isBetweenItems t.kind) ts
    simp only [itemsFuel]
    cases hts : ts.dropWhile fun t => isBetweenItems t.kind with
    | nil => rfl
    | cons t rest =>
      rw [hts, List.length_cons] at hdrop
      have hat := fun name => atRule_length name rest
      have hdeclaration := declaration_length (· == .punct ';') rest
      have hinvalid := invalid_length rest (first_item hts)
      have hsame : ∀ us : List Token, us.length ≤ rest.length →
          itemsFuel k us = itemsFuel k' us := fun us hus =>
        ih k k' us (by omega) (by omega) (by omega)
      simp only [hsame _ (hat _), hsame _ hdeclaration, hsame _ hinvalid]

/-- The items of a list, without fuel. -/
theorem items_eq (ts : List Token) :
    items ts =
      match ts.dropWhile fun t => isBetweenItems t.kind with
      | [] => []
      | t :: rest =>
        match t.kind with
        | .atKeyword name => .atRule (atRule name rest).1 :: items (atRule name rest).2
        | .ident name =>
          declarationOf name (upTo (· == .punct ';') [] rest).1 ::
            items ((upTo (· == .punct ';') [] rest).2.drop 1)
        | _ => .invalid :: items ((upTo (· == .punct ';') [] (t :: rest)).2.drop 1) := by
  have hdrop := dropWhile_length (p := fun t => isBetweenItems t.kind) ts
  rw [items, itemsFuel]
  cases hts : ts.dropWhile fun t => isBetweenItems t.kind with
  | nil => rfl
  | cons t rest =>
    rw [hts, List.length_cons] at hdrop
    have hat := fun name => atRule_length name rest
    have hdeclaration := declaration_length (· == .punct ';') rest
    have hinvalid := invalid_length rest (first_item hts)
    have hsame : ∀ us : List Token, us.length ≤ rest.length →
        itemsFuel ts.length us = items us := fun us hus => itemsFuel_eq (by omega)
    dsimp only
    cases t.kind <;> simp only [hsame _ (hat _), hsame _ hdeclaration, hsame _ hinvalid]

/-- An item, less what is not read of it. -/
def RawItem.gist : RawItem → RawItem
  | .declaration name value => .declaration name (Css.gist value)
  | .atRule rule => .atRule rule.gist
  | .invalid => .invalid

theorem skipSpace_gist (ts : List Token) : skipSpace (gist ts) = gist (skipSpace ts) :=
  dropWhile_gist (fun _ h => h) ts

theorem declarationOf_gist (name : List Char) (ts : List Token) :
    declarationOf name (gist ts) = (declarationOf name ts).gist := by
  unfold declarationOf
  rw [skipSpace_gist]
  cases hts : skipSpace ts with
  | nil => rfl
  | cons t value =>
    have hsolid : isSpace t.kind = false := by
      have hnot := List.head?_dropWhile_not (fun t : Token => isSpace t.kind) ts
      rw [skipSpace] at hts
      rw [hts] at hnot
      simpa using hnot
    rw [gist_solid value hsolid]
    simp only
    split <;> rfl

theorem betweenItems_space (k : Kind) (h : isSpace k = true) : isBetweenItems k = true := by
  simp [isBetweenItems, h]

/-- The items that are read of a list are those of its gist. -/
theorem items_gist (ts : List Token) : items (gist ts) = (items ts).map RawItem.gist := by
  induction hn : ts.length using Nat.strongRecOn generalizing ts with
  | ind n ih =>
    have hdrop := dropWhile_length (p := fun t => isBetweenItems t.kind) ts
    rw [items_eq, items_eq ts, dropWhile_gist betweenItems_space]
    cases hts : ts.dropWhile fun t => isBetweenItems t.kind with
    | nil => rfl
    | cons t rest =>
      rw [hts, List.length_cons] at hdrop
      have hfirst := first_item hts
      have hsolid : isSpace t.kind = false := by
        cases hspace : isSpace t.kind with
        | false => rfl
        | true => exact absurd ((betweenItems_space _ hspace).symm.trans hfirst) (by simp)
      have hat := fun name => atRule_length name rest
      have hdeclaration := declaration_length (· == .punct ';') rest
      have hinvalid := invalid_length rest hfirst
      have hsame : ∀ us : List Token, us.length ≤ rest.length →
          items (gist us) = (items us).map RawItem.gist := fun us hus =>
        ih us.length (by omega) us rfl
      have hupTo := upTo_gist ends_solid [] rest
      have hupTo' := upTo_gist ends_solid [] (t :: rest)
      rw [gist_solid rest hsolid] at hupTo' ⊢
      simp only [atRule_gist, hupTo, hupTo', drop_gist ends_solid, declarationOf_gist,
        hsame _ (hat _), hsame _ hdeclaration, hsame _ hinvalid]
      split <;> rfl

end Css
