/-
# Cutting texts apart

What the searching and splitting operations of `RustText` find, in terms of the text they are given:
`splitOnce` of a first character, `rsplitAt` and `rfind` of a last one, `trim` of white space,
`split` at a character and the `join` it undoes.
-/
import Esmail.Library.RustText
import Mathlib.Data.List.DropRight
import Mathlib.Data.List.TakeWhile
import Mathlib.Tactic.Common

namespace RustText

/-! ## 1. The first and the last occurrence of a character -/

theorem bne_of_not_mem {c : Char} {s : List Char} (h : c ∉ s) : ∀ x ∈ s, (x != c) = true := by
  intro x hx
  rw [bne_iff_ne]
  rintro rfl
  exact h hx

theorem splitOnce_eq (c : Char) (s : List Char) : splitOnce c s =
    if c ∈ s then some (s.takeWhile (· != c), (s.dropWhile (· != c)).drop 1) else none := by
  unfold splitOnce
  split
  · next hnil =>
    rw [if_neg]
    intro hmem
    exact absurd (List.dropWhile_eq_nil_iff.mp hnil c hmem) (by simp)
  · next d after hcons =>
    rw [if_pos, hcons]
    · rfl
    · by_contra hmem
      rw [List.dropWhile_eq_nil_iff.mpr (bne_of_not_mem hmem)] at hcons
      exact absurd hcons (by simp)

/-- What stands before a character, and behind it. -/
theorem getD_splitOnce (c : Char) (s : List Char) : (splitOnce c s).getD (s, []) =
    (s.takeWhile (· != c), (s.dropWhile (· != c)).drop 1) := by
  rw [splitOnce_eq]
  split
  · rfl
  · next hmem =>
    have hall := bne_of_not_mem hmem
    rw [List.takeWhile_eq_self_iff.mpr hall, List.dropWhile_eq_nil_iff.mpr hall]
    rfl

theorem rsplitAt_append {c : Char} (before : List Char) {after : List Char} (h : c ∉ after) :
    rsplitAt c (before ++ c :: after) = some (before, after) := by
  have hall : ∀ x ∈ after.reverse, (x != c) = true :=
    bne_of_not_mem fun hc => h (List.mem_reverse.mp hc)
  rw [rsplitAt]
  simp only [List.reverse_append, List.reverse_cons, List.append_assoc, List.singleton_append,
    List.dropWhile_append_of_pos hall, List.takeWhile_append_of_pos hall]
  simp

/-- A text without the character, or one cut at its last occurrence. -/
theorem rsplitAt_cases (c : Char) (s : List Char) :
    (c ∉ s ∧ rsplitAt c s = none) ∨
      ∃ before after, c ∉ after ∧ s = before ++ c :: after ∧ rsplitAt c s = some (before, after) := by
  by_cases hmem : c ∈ s
  · obtain ⟨before, after, rfl, hafter⟩ : ∃ before after, s = before ++ c :: after ∧ c ∉ after := by
      obtain ⟨front, back, hrev, hfront⟩ := List.eq_append_cons_of_mem (List.mem_reverse.mpr hmem)
      have hs := congrArg List.reverse hrev
      rw [List.reverse_reverse] at hs
      exact ⟨back.reverse, front.reverse, by simpa using hs, by simpa using hfront⟩
    exact .inr ⟨before, after, hafter, rfl, rsplitAt_append before hafter⟩
  · refine .inl ⟨hmem, ?_⟩
    have hnil : s.reverse.dropWhile (· != c) = [] :=
      List.dropWhile_eq_nil_iff.mpr (bne_of_not_mem fun hc => hmem (List.mem_reverse.mp hc))
    rw [rsplitAt, hnil]

theorem findIdx?_reverse {c : Char} {s : List Char} (h : c ∉ s) :
    s.reverse.findIdx? (· == c) = none := by
  rw [List.findIdx?_eq_none_iff]
  intro x hx
  rw [beq_eq_false_iff_ne]
  rintro rfl
  exact h (List.mem_reverse.mp hx)

theorem rfind_append {c : Char} (before : List Char) {after : List Char} (h : c ∉ after) :
    rfind c (before ++ c :: after) = some before.length := by
  have hrev : (before ++ c :: after).reverse = after.reverse ++ c :: before.reverse := by simp
  rw [rfind, hrev, List.findIdx?_append, findIdx?_reverse h]
  simp [List.findIdx?_cons]

theorem rfind_eq_none {c : Char} {s : List Char} (h : c ∉ s) : rfind c s = none := by
  rw [rfind, findIdx?_reverse h]
  rfl

/-! ## 2. White space at the ends -/

theorem trimEnd_eq (p : Char → Bool) (s : List Char) : trimEnd p s = s.rdropWhile p := rfl

/-- Nothing is trimmed off between two characters that are not white space. -/
theorem trim_eq_self {s : List Char} (hfirst : ∀ c, s.head? = some c → isWhitespace c = false)
    (hlast : ∀ c, s.getLast? = some c → isWhitespace c = false) : trim s = s := by
  have hdrop : s.dropWhile isWhitespace = s := by
    rcases s with - | ⟨c, s⟩
    · rfl
    · simp [hfirst c rfl]
  rw [trim, trimBoth, hdrop, trimEnd_eq, List.rdropWhile_eq_self_iff]
  intro hne
  simp [hlast _ (List.getLast?_eq_some_getLast hne)]

/-- A text is what is trimmed off it, and what is left. -/
theorem trim_split (s : List Char) : ∃ before after, s = before ++ trim s ++ after ∧
    (∀ c ∈ before, isWhitespace c = true) ∧ ∀ c ∈ after, isWhitespace c = true := by
  refine ⟨s.takeWhile isWhitespace, ((s.dropWhile isWhitespace).reverse.takeWhile
    isWhitespace).reverse, ?_, ?_, ?_⟩
  · have hback : trim s ++ ((s.dropWhile isWhitespace).reverse.takeWhile isWhitespace).reverse =
        s.dropWhile isWhitespace := by
      rw [trim, trimBoth, trimEnd, ← List.reverse_append, List.takeWhile_append_dropWhile,
        List.reverse_reverse]
    rw [List.append_assoc, hback, List.takeWhile_append_dropWhile]
  · intro c hc
    exact List.mem_takeWhile_imp hc
  · intro c hc
    exact List.mem_takeWhile_imp (List.mem_reverse.mp hc)

/-- What is left of a text begins with a character that is not white space, -/
theorem head?_trim {s : List Char} {c : Char} (h : (trim s).head? = some c) :
    isWhitespace c = false := by
  have hhead : (s.dropWhile isWhitespace).head? = some c := by
    obtain ⟨rest, hrest⟩ : trim s <+: s.dropWhile isWhitespace := List.rdropWhile_prefix ..
    rw [← hrest, List.head?_append, h]
    rfl
  have hnot := List.head?_dropWhile_not isWhitespace s
  rw [hhead] at hnot
  exact hnot

/-- and ends with one. -/
theorem getLast?_trim {s : List Char} {c : Char} (h : (trim s).getLast? = some c) :
    isWhitespace c = false := by
  have hne : trim s ≠ [] := by
    intro hnil
    rw [hnil] at h
    cases h
  have hnot : ¬ isWhitespace ((trim s).getLast hne) = true := List.rdropWhile_last_not _ _ hne
  rw [List.getLast?_eq_some_getLast hne, Option.some.injEq] at h
  rw [h] at hnot
  simpa using hnot

theorem trim_trim (s : List Char) : trim (trim s) = trim s :=
  trim_eq_self (fun _ => head?_trim) (fun _ => getLast?_trim)

theorem trim_cons {c : Char} (h : isWhitespace c = true) (s : List Char) :
    trim (c :: s) = trim s := by
  rw [trim, trimBoth, List.dropWhile_cons_of_pos h]
  rfl

theorem trim_eq_nil {s : List Char} : trim s = [] ↔ ∀ c ∈ s, isWhitespace c = true := by
  refine ⟨fun h => ?_, fun h => ?_⟩
  · obtain ⟨before, after, hs, hbefore, hafter⟩ := trim_split s
    rw [h, List.append_nil] at hs
    intro c hc
    rw [hs] at hc
    exact (List.mem_append.mp hc).elim (hbefore c) (hafter c)
  · have hdrop : s.dropWhile isWhitespace = [] := List.dropWhile_eq_nil_iff.mpr h
    rw [trim, trimBoth, hdrop]
    rfl

/-- A text that ends in two characters that are not white space keeps all between them. -/
theorem trim_append {s t : List Char} (hne : t ≠ [])
    (hfirst : ∀ c, t.head? = some c → isWhitespace c = false)
    (hlast : ∀ c, t.getLast? = some c → isWhitespace c = false) :
    ∃ s', trim (s ++ t) = s' ++ t ∧ s' <:+ s := by
  have hdrop : (s ++ t).dropWhile isWhitespace = s.dropWhile isWhitespace ++ t := by
    rw [List.dropWhile_append]
    split
    · rename_i hempty
      rw [List.isEmpty_iff.mp hempty, List.nil_append]
      rcases t with - | ⟨c, t⟩
      · rfl
      · simp [hfirst c rfl]
    · rfl
  refine ⟨s.dropWhile isWhitespace, ?_, List.dropWhile_suffix _⟩
  rw [trim, trimBoth, hdrop, trimEnd_eq, List.rdropWhile_eq_self_iff]
  intro hcat
  rw [List.getLast_append_of_ne_nil _ hne]
  simp [hlast _ (List.getLast?_eq_some_getLast hne)]

/-! ## 3. Splitting at a character -/

/-- `str::split` at a character: the pieces between its occurrences, one more than there are. -/
def split (c : Char) : List Char → List (List Char)
  | [] => [[]]
  | x :: s =>
    if x = c then [] :: split c s
    else
      match split c s with
      | [] => [[x]]
      | piece :: pieces => (x :: piece) :: pieces

theorem split_nil (c : Char) : split c [] = [[]] := rfl

theorem split_step (c x : Char) (s : List Char) :
    split c (x :: s) =
      if x = c then [] :: split c s
      else
        match split c s with
        | [] => [[x]]
        | piece :: pieces => (x :: piece) :: pieces := rfl

/-- `[_]::join`. -/
def join (sep : List Char) (pieces : List (List Char)) : List Char := sep.intercalate pieces

theorem split_ne_nil (c : Char) : ∀ s, split c s ≠ []
  | [] => by simp [split_nil]
  | x :: s => by
    rw [split_step]
    split
    · simp
    · split <;> simp

theorem split_self {c : Char} {s : List Char} (h : c ∉ s) : split c s = [s] := by
  induction s with
  | nil => rfl
  | cons x s ih =>
    obtain ⟨hx, hs⟩ := List.ne_and_not_mem_of_not_mem_cons h
    rw [split_step, if_neg (Ne.symm hx), ih hs]

theorem split_append (c : Char) : ∀ (a b : List Char),
    split c (a ++ c :: b) = split c a ++ split c b
  | [], b => by simp [split_nil, split_step]
  | x :: a, b => by
    have ih := split_append c a b
    rw [List.cons_append, split_step, split_step, ih]
    split
    · rfl
    · rcases hsplit : split c a with - | ⟨piece, pieces⟩
      · exact absurd hsplit (split_ne_nil c a)
      · rfl

theorem not_mem_split {c : Char} {s piece : List Char} (h : piece ∈ split c s) : c ∉ piece := by
  induction s generalizing piece with
  | nil =>
    rw [split_nil, List.mem_singleton] at h
    simp [h]
  | cons x s ih =>
    rw [split_step] at h
    split at h
    · rcases List.mem_cons.mp h with rfl | h
      · simp
      · exact ih h
    · rename_i hx
      rcases hsplit : split c s with - | ⟨first, pieces⟩
      · exact absurd hsplit (split_ne_nil c s)
      · rw [hsplit] at h ih
        rcases List.mem_cons.mp h with rfl | h
        · rintro (_ | ⟨_, hmem⟩)
          · exact hx rfl
          · exact ih List.mem_cons_self hmem
        · exact ih (List.mem_cons_of_mem _ h)

/-- Only the character itself is lost. -/
theorem mem_split {c x : Char} (hx : x ≠ c) : ∀ {s : List Char}, x ∈ s → ∃ piece ∈ split c s, x ∈ piece
  | y :: s, hmem => by
    rw [split_step]
    by_cases hy : y = c
    · have hin : x ∈ s := (List.mem_cons.mp hmem).resolve_left fun h => hx (h.trans hy)
      obtain ⟨piece, hpiece, hin⟩ := mem_split hx hin
      exact ⟨piece, by rw [if_pos hy]; exact List.mem_cons_of_mem _ hpiece, hin⟩
    · rw [if_neg hy]
      rcases hsplit : split c s with - | ⟨first, pieces⟩
      · exact absurd hsplit (split_ne_nil c s)
      · rcases List.mem_cons.mp hmem with rfl | hin
        · exact ⟨x :: first, List.mem_cons_self, List.mem_cons_self⟩
        · obtain ⟨piece, hpiece, hin⟩ := mem_split hx hin
          rw [hsplit] at hpiece
          rcases List.mem_cons.mp hpiece with rfl | hpiece
          · exact ⟨y :: piece, List.mem_cons_self, List.mem_cons_of_mem y hin⟩
          · exact ⟨piece, List.mem_cons_of_mem _ hpiece, hin⟩

theorem mem_of_mem_split {c x : Char} : ∀ {s piece : List Char}, piece ∈ split c s → x ∈ piece → x ∈ s
  | [], piece, hpiece, hx => by
    rw [split_nil, List.mem_singleton] at hpiece
    exact absurd hx (by simp [hpiece])
  | y :: s, piece, hpiece, hx => by
    rw [split_step] at hpiece
    split at hpiece
    · rcases List.mem_cons.mp hpiece with rfl | hpiece
      · exact absurd hx (by simp)
      · exact List.mem_cons_of_mem y (mem_of_mem_split hpiece hx)
    · rcases hsplit : split c s with - | ⟨first, pieces⟩
      · exact absurd hsplit (split_ne_nil c s)
      · have hsub : ∀ p ∈ first :: pieces, x ∈ p → x ∈ s := fun p hp =>
          mem_of_mem_split (c := c) (hsplit ▸ hp)
        rw [hsplit] at hpiece
        rcases List.mem_cons.mp hpiece with rfl | hpiece
        · exact (List.mem_cons.mp hx).elim (fun h => h ▸ List.mem_cons_self) fun h =>
            List.mem_cons_of_mem y (hsub first List.mem_cons_self h)
        · exact List.mem_cons_of_mem y (hsub piece (List.mem_cons_of_mem _ hpiece) hx)

/-- The last piece takes what follows without the character. -/
theorem split_append_last {c : Char} : ∀ (s : List Char), ∃ init last, split c s = init ++ [last] ∧
    ∀ t, c ∉ t → split c (s ++ t) = init ++ [last ++ t]
  | [] => ⟨[], [], rfl, fun t ht => by simp [split_self ht]⟩
  | x :: s => by
    obtain ⟨init, last, hsplit, happend⟩ := split_append_last s (c := c)
    by_cases hx : x = c
    · refine ⟨[] :: init, last, by rw [split_step, if_pos hx, hsplit]; rfl, fun t ht => ?_⟩
      rw [List.cons_append, split_step, if_pos hx, happend t ht]
      rfl
    · rcases init with - | ⟨first, init⟩
      · refine ⟨[], x :: last, by rw [split_step, if_neg hx, hsplit]; rfl, fun t ht => ?_⟩
        rw [List.cons_append, split_step, if_neg hx, happend t ht]
        rfl
      · refine ⟨(x :: first) :: init, last, by rw [split_step, if_neg hx, hsplit]; rfl, fun t ht => ?_⟩
        rw [List.cons_append, split_step, if_neg hx, happend t ht]
        rfl

theorem split_cons {c x : Char} (h : x ≠ c) (s : List Char) :
    ∃ first rest, split c s = first :: rest ∧ split c (x :: s) = (x :: first) :: rest := by
  rcases hsplit : split c s with - | ⟨first, rest⟩
  · exact absurd hsplit (split_ne_nil c s)
  · exact ⟨first, rest, rfl, by rw [split_step, if_neg h, hsplit]⟩

/-- The rest of a split, where the first `skip` characters belong to the last separator. -/
def splitTextFrom (sep : List Char) : Nat → List Char → List (List Char)
  | _, [] => [[]]
  | skip + 1, _ :: s => splitTextFrom sep skip s
  | 0, c :: s =>
    if sep.isPrefixOf (c :: s) then [] :: splitTextFrom sep (sep.length - 1) s
    else
      match splitTextFrom sep 0 s with
      | [] => [[c]]
      | piece :: pieces => (c :: piece) :: pieces

/-- `str::split` at a text that is not empty: the pieces between its occurrences from the left that
do not overlap. -/
def splitText (sep s : List Char) : List (List Char) := splitTextFrom sep 0 s

theorem splitText_singleton (c : Char) : ∀ s, splitText [c] s = split c s
  | [] => rfl
  | x :: s => by
    have ih := splitText_singleton c s
    rw [splitText] at ih
    rw [splitText, splitTextFrom, split_step]
    by_cases hx : x = c
    · have hpre : [c].isPrefixOf (x :: s) = true := by simp [hx]
      rw [if_pos hpre, if_pos hx]
      exact congrArg ([] :: ·) ih
    · have hpre : ¬ [c].isPrefixOf (x :: s) = true := by simp [Ne.symm hx]
      rw [if_neg hpre, if_neg hx, ih]

/-! ## 4. Joining -/

theorem join_cons {sep : List Char} {pieces : List (List Char)} (h : pieces ≠ []) (piece : List Char) :
    join sep (piece :: pieces) = piece ++ sep ++ join sep pieces :=
  List.intercalate_cons_of_ne_nil h

theorem join_append {sep : List Char} {a b : List (List Char)} (ha : a ≠ []) (hb : b ≠ []) :
    join sep (a ++ b) = join sep a ++ sep ++ join sep b := by
  induction a with
  | nil => exact absurd rfl ha
  | cons piece a ih =>
    by_cases hnil : a = []
    · subst hnil
      exact (join_cons hb piece).trans (by rw [join, join, List.intercalate_singleton])
    · rw [List.cons_append, join_cons (by simp [hnil]), ih hnil, join_cons hnil]
      simp only [List.append_assoc]

/-- A split text is joined again. -/
theorem join_split (c : Char) (s : List Char) : join [c] (split c s) = s := by
  induction s with
  | nil => rfl
  | cons x s ih =>
    by_cases hx : x = c
    · rw [split_step, if_pos hx, join_cons (split_ne_nil c s), ih, hx]
      rfl
    · obtain ⟨first, rest, hs, hxs⟩ := split_cons hx s
      rw [hs] at ih
      rw [hxs, ← ih]
      exact List.intercalate_cons_cons_left

/-- What is joined is split where it was joined, and where a piece has the character. -/
theorem split_join (c : Char) {pieces : List (List Char)} (h : pieces ≠ []) :
    split c (join [c] pieces) = pieces.flatMap (split c) := by
  induction pieces with
  | nil => exact absurd rfl h
  | cons piece pieces ih =>
    by_cases hnil : pieces = []
    · subst hnil
      rw [join, List.intercalate_singleton, List.flatMap_cons, List.flatMap_nil, List.append_nil]
    · rw [join_cons hnil, List.append_assoc, List.singleton_append, split_append, ih hnil,
        List.flatMap_cons]

/-- Two lists of pieces are joined to the same text where they are the same when split once more. -/
theorem join_eq_iff (c : Char) {a b : List (List Char)} (ha : a ≠ []) (hb : b ≠ []) :
    join [c] a = join [c] b ↔ a.flatMap (split c) = b.flatMap (split c) := by
  constructor
  · intro h
    rw [← split_join c ha, ← split_join c hb, h]
  · intro h
    rw [← join_split c (join [c] a), ← join_split c (join [c] b), split_join c ha, split_join c hb, h]

/-! ## 5. Lines -/

/-- `strip_suffix('\r')`, where there is one. -/
def stripReturn (s : List Char) : List Char := if s.getLast? = some '\r' then s.dropLast else s

/-- `str::lines`: a line feed ends a line, with a return before it; what is after the last one is a
line if there is anything. -/
def lines (s : List Char) : List (List Char) :=
  let pieces := split '\n' s
  pieces.dropLast.map stripReturn ++ pieces.getLast?.toList.filter (· ≠ [])

/-! ## 6. Occurrences -/

/-- `str::contains`. -/
def containsText (s sub : List Char) : Bool := (findText sub s).isSome

theorem containsText_iff {sub : List Char} : ∀ {s : List Char},
    containsText s sub = true ↔ sub <:+: s
  | [] => by
    rw [containsText, findText, List.infix_nil]
    split <;> simp_all
  | c :: s => by
    have ih := @containsText_iff sub s
    rw [containsText] at ih
    rw [containsText, findText, List.infix_cons_iff, ← List.isPrefixOf_iff_prefix, ← ih]
    split <;> simp_all

/-- A text occurs nowhere in what has not got its first character. -/
theorem infix_of_not_mem {c : Char} {sub a b : List Char} (hc : c ∉ a) (h : c :: sub <:+: a ++ b) :
    c :: sub <:+: b := by
  induction a with
  | nil => exact h
  | cons x a ih =>
    rw [List.cons_append, List.infix_cons_iff] at h
    rcases h with hpre | hin
    · obtain ⟨rfl, -⟩ := List.cons_prefix_cons.mp hpre
      exact absurd List.mem_cons_self hc
    · exact ih (fun hmem => hc (List.mem_cons_of_mem x hmem)) hin

/-- A text that has its first character only once does not reach over a place where that stands. -/
theorem infix_append_cons {c : Char} {sub a b : List Char} (hc : c ∉ sub)
    (h : c :: sub <:+: a ++ c :: b) : c :: sub <:+: a ∨ c :: sub <:+: c :: b := by
  induction a with
  | nil => exact .inr h
  | cons x a ih =>
    rw [List.cons_append, List.infix_cons_iff] at h
    rcases h with hpre | hin
    · rcases List.prefix_or_prefix_of_prefix hpre (List.prefix_append (x :: a) (c :: b)) with hshort | hlong
      · exact .inl hshort.isInfix
      · obtain ⟨w, hw⟩ := hlong
        rw [← hw] at hpre
        rcases w with - | ⟨d, w⟩
        · exact .inl ⟨[], [], by rw [← hw]; simp⟩
        · obtain ⟨rfl, -⟩ := List.cons_prefix_cons.mp ((List.prefix_append_right_inj (x :: a)).mp hpre)
          exact absurd ((List.cons.inj hw).2 ▸ by simp) hc
    · exact (ih hin).imp_left fun hin => hin.trans (List.suffix_cons x a).isInfix

end RustText
