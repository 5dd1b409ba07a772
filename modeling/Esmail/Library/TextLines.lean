/-
# The lines of a text, and what a rewriting of its characters does to them

A rewriting that keeps the ends of lines as they are (`KeepsLines`) can be done line by line
(`lines_flatMap`).  What is at either end of a list and does not count is cut off by `inner`.
-/
import Esmail.Library.RustSplit

namespace RustText

/-! ## 1. Lines -/

/-- A line feed at the beginning is an empty line. -/
theorem lines_feed (s : List Char) : lines ('\n' :: s) = [] :: lines s := by
  have hne := split_ne_nil '\n' s
  have hsplit : split '\n' ('\n' :: s) = [] :: split '\n' s := by rw [split, if_pos rfl]
  obtain ⟨last, hlast⟩ := Option.isSome_iff_exists.mp (List.getLast?_isSome.mpr hne)
  rw [lines, lines, hsplit, List.dropLast_cons_of_ne_nil hne, List.getLast?_cons, hlast]
  rfl

/-- A rewriting of characters that keeps the ends of lines, and makes no other. -/
structure KeepsLines (g : Char → List Char) : Prop where
  feed : g '\n' = ['\n']
  carriage : g '\r' = ['\r']
  other : ∀ c, c ≠ '\n' → c ≠ '\r' → g c ≠ [] ∧ '\n' ∉ g c ∧ '\r' ∉ g c

namespace KeepsLines

variable {g : Char → List Char}

theorem ne_nil (hg : KeepsLines g) (c : Char) : g c ≠ [] := by
  by_cases hfeed : c = '\n'
  · rw [hfeed, hg.feed]
    exact List.cons_ne_nil _ _
  · by_cases hreturn : c = '\r'
    · rw [hreturn, hg.carriage]
      exact List.cons_ne_nil _ _
    · exact (hg.other c hfeed hreturn).1

theorem feed_not_mem (hg : KeepsLines g) {c : Char} (hc : c ≠ '\n') : '\n' ∉ g c := by
  by_cases hreturn : c = '\r'
  · rw [hreturn, hg.carriage]
    decide
  · exact (hg.other c hc hreturn).2.1

theorem flatMap_eq_nil (hg : KeepsLines g) (s : List Char) : s.flatMap g = [] ↔ s = [] := by
  rw [List.flatMap_eq_nil_iff]
  refine ⟨fun h => List.eq_nil_iff_forall_not_mem.mpr fun c hc => hg.ne_nil c (h c hc), ?_⟩
  rintro rfl
  exact nofun

end KeepsLines

/-- What comes before the first separator is in the first piece. -/
theorem split_front {c : Char} {p : List Char} (hp : c ∉ p) (s : List Char) :
    ∃ first rest, split c s = first :: rest ∧ split c (p ++ s) = (p ++ first) :: rest := by
  induction p with
  | nil =>
    obtain ⟨first, rest, hsplit⟩ := List.exists_cons_of_ne_nil (split_ne_nil c s)
    exact ⟨first, rest, hsplit, hsplit⟩
  | cons x p ih =>
    obtain ⟨hx, hp⟩ := List.ne_and_not_mem_of_not_mem_cons hp
    obtain ⟨first, rest, hsplit, hsplit'⟩ := ih hp
    obtain ⟨first', rest', hsame, hcons⟩ := split_cons (Ne.symm hx) (p ++ s)
    obtain ⟨rfl, rfl⟩ := List.cons.inj (hsplit'.symm.trans hsame)
    exact ⟨first, rest, hsplit, hcons⟩

/-- Rewriting is done piece by piece. -/
theorem split_flatMap {g : Char → List Char} (hg : KeepsLines g) (s : List Char) :
    split '\n' (s.flatMap g) = (split '\n' s).map (List.flatMap g) := by
  induction s with
  | nil => rfl
  | cons c s ih =>
    rw [List.flatMap_cons]
    by_cases hc : c = '\n'
    · rw [hc, hg.feed, List.singleton_append, split, if_pos rfl, split, if_pos rfl, ih]
      rfl
    · obtain ⟨first, rest, hsplit, hfront⟩ := split_front (hg.feed_not_mem hc) (s.flatMap g)
      obtain ⟨first', rest', hsplit', hcons⟩ := split_cons hc s
      rw [hsplit', hsplit, List.map_cons] at ih
      obtain ⟨rfl, rfl⟩ := List.cons.inj ih
      rw [hfront, hcons, List.map_cons, List.flatMap_cons]

theorem stripReturn_flatMap {g : Char → List Char} (hg : KeepsLines g) {s : List Char}
    (hs : '\n' ∉ s) : stripReturn (s.flatMap g) = (stripReturn s).flatMap g := by
  rcases List.eq_nil_or_concat' s with rfl | ⟨front, last, rfl⟩
  · rfl
  · have hflat : (front ++ [last]).flatMap g = front.flatMap g ++ g last := by simp
    rw [hflat]
    by_cases hlast : last = '\r'
    · rw [hlast, hg.carriage, stripReturn, stripReturn, List.getLast?_concat, List.getLast?_concat,
        if_pos rfl, if_pos rfl, List.dropLast_concat, List.dropLast_concat]
    · have hfeed : last ≠ '\n' := by
        rintro rfl
        exact hs (by simp)
      obtain ⟨hne, -, hnoreturn⟩ := hg.other last hfeed hlast
      have hend : ¬ (front.flatMap g ++ g last).getLast? = some '\r' := by
        intro h
        rw [List.getLast?_append_of_ne_nil _ hne] at h
        exact hnoreturn (List.mem_of_getLast? h)
      have hend' : ¬ (front ++ [last]).getLast? = some '\r' := by
        rw [List.getLast?_concat]
        exact fun h => hlast (Option.some.inj h)
      rw [stripReturn, stripReturn, if_neg hend, if_neg hend', hflat]

/-- Rewriting is done line by line. -/
theorem lines_flatMap {g : Char → List Char} (hg : KeepsLines g) (s : List Char) :
    lines (s.flatMap g) = (lines s).map (List.flatMap g) := by
  have hlast : ∀ last : Option (List Char),
      (last.map (List.flatMap g)).toList.filter (· ≠ []) =
        (last.toList.filter (· ≠ [])).map (List.flatMap g) := by
    rintro (- | last)
    · rfl
    · by_cases hempty : last = []
      · simp [hempty]
      · simp [hempty, hg.flatMap_eq_nil]
  rw [lines, lines, split_flatMap hg, List.map_append, List.getLast?_map, hlast, ← List.map_dropLast,
    List.map_map, List.map_map]
  refine congrArg (· ++ _) (List.map_congr_left fun piece hpiece => ?_)
  exact stripReturn_flatMap hg (not_mem_split (List.dropLast_subset _ hpiece))

theorem mem_stripReturn {c : Char} (hc : c ≠ '\r') {s : List Char} (h : c ∈ s) : c ∈ stripReturn s := by
  rw [stripReturn]
  split
  · next hlast =>
    rcases List.eq_nil_or_concat' s with rfl | ⟨front, last, rfl⟩
    · cases h
    · rw [List.getLast?_concat] at hlast
      rw [List.dropLast_concat]
      refine (List.mem_append.mp h).resolve_right fun hin => hc ?_
      exact (List.mem_singleton.mp hin).trans (Option.some.inj hlast)
  · exact h

/-- Only the ends of lines are lost. -/
theorem exists_line {c : Char} (hfeed : c ≠ '\n') (hreturn : c ≠ '\r') {s : List Char} (h : c ∈ s) :
    ∃ line ∈ lines s, c ∈ line := by
  obtain ⟨piece, hpiece, hin⟩ := mem_split hfeed h
  obtain ⟨init, last, hsplit⟩ : ∃ init last, split '\n' s = init ++ [last] :=
    (List.eq_nil_or_concat' _).resolve_left (split_ne_nil _ _)
  rw [lines, hsplit, List.dropLast_concat, List.getLast?_concat]
  rw [hsplit] at hpiece
  rcases List.mem_append.mp hpiece with hinit | hlast
  · exact ⟨stripReturn piece, List.mem_append_left _ (List.mem_map_of_mem hinit),
      mem_stripReturn hreturn hin⟩
  · obtain rfl := List.mem_singleton.mp hlast
    exact ⟨piece, List.mem_append_right _ (by simp [List.ne_nil_of_mem hin]), hin⟩

theorem feed_not_mem_lines {s line : List Char} (h : line ∈ lines s) : '\n' ∉ line := by
  rw [lines] at h
  rcases List.mem_append.mp h with hended | hlast
  · obtain ⟨piece, hpiece, rfl⟩ := List.mem_map.mp hended
    have hnot := not_mem_split (List.dropLast_subset _ hpiece)
    rw [stripReturn]
    split
    · exact fun hc => hnot (List.dropLast_subset _ hc)
    · exact hnot
  · have hpiece := Option.mem_toList.mp (List.mem_filter.mp hlast).1
    exact not_mem_split (List.mem_of_getLast? hpiece)

/-- Pieces without the separator are split where they were joined. -/
theorem split_join_self {c : Char} {pieces : List (List Char)} (hne : pieces ≠ [])
    (h : ∀ piece ∈ pieces, c ∉ piece) : split c (join [c] pieces) = pieces := by
  have hsingle : pieces.flatMap (split c) = pieces.flatMap fun piece => [piece] :=
    List.flatMap_congr fun piece hpiece => split_self (h piece hpiece)
  rw [split_join c hne, hsingle, List.flatMap_singleton']

/-- A rewriting that loses no character changes nothing only where it changes no character. -/
theorem flatMap_eq_self_iff {α : Type} {g : α → List α} (hg : ∀ x, g x ≠ []) (s : List α) :
    s.flatMap g = s ↔ ∀ x ∈ s, g x = [x] := by
  have hlong : ∀ s : List α, s.length ≤ (s.flatMap g).length := by
    intro s
    induction s with
    | nil => exact Nat.le_refl 0
    | cons x s ih =>
      have hpos := List.length_pos_of_ne_nil (hg x)
      rw [List.flatMap_cons, List.length_append, List.length_cons]
      omega
  induction s with
  | nil => simp
  | cons x s ih =>
    rw [List.flatMap_cons, List.forall_mem_cons]
    constructor
    · intro h
      have hlength := congrArg List.length h
      rw [List.length_append, List.length_cons] at hlength
      have hpos := List.length_pos_of_ne_nil (hg x)
      have hrest := hlong s
      obtain ⟨y, hy⟩ := List.length_eq_one_iff.mp (show (g x).length = 1 by omega)
      rw [hy, List.singleton_append] at h
      obtain ⟨rfl, hs⟩ := List.cons.inj h
      exact ⟨hy, ih.mp hs⟩
    · rintro ⟨hx, hs⟩
      rw [hx, ih.mpr hs]
      rfl

/-! ## 2. What is between -/

section Inner

variable {α β : Type} (blank : α → Bool)

/-- A list without what is blank at either end. -/
def inner (l : List α) : List α := (l.dropWhile blank).rdropWhile blank

theorem inner_append (front l : List α) (h : ∀ x ∈ front, blank x = true) :
    inner blank (front ++ l) = inner blank l := by
  rw [inner, List.dropWhile_append_of_pos h, inner]

theorem inner_map {blank' : β → Bool} {f : α → β} (h : ∀ x, blank' (f x) = blank x) (l : List α) :
    inner blank' (l.map f) = (inner blank l).map f := by
  have hblank : blank' ∘ f = blank := funext h
  rw [inner, inner, List.dropWhile_map, List.rdropWhile, List.rdropWhile, ← List.map_reverse,
    List.dropWhile_map, List.map_reverse, hblank]

theorem mem_inner {x : α} (hx : blank x = false) {l : List α} (h : x ∈ l) : x ∈ inner blank l := by
  have hdrop : ∀ {l : List α}, x ∈ l → x ∈ l.dropWhile blank := by
    intro l h
    rw [← List.takeWhile_append_dropWhile (p := blank) (l := l)] at h
    refine (List.mem_append.mp h).resolve_left fun hfront => ?_
    rw [List.mem_takeWhile_imp hfront] at hx
    cases hx
  rw [inner, List.rdropWhile, List.mem_reverse]
  exact hdrop (List.mem_reverse.mpr (hdrop h))

end Inner

end RustText
