/-
# Places in a stable sort

`List.mergeSort` leaves elements that are as good as each other in the order they had.  Where an element of a
list comes to stand is then a count: those before it that are no later than it, and those behind it that are
earlier (`place`).  What the first `n` of a sorted list are is read off from that.
-/
import Mathlib.Data.List.Basic
import Mathlib.Tactic.Common

namespace StableSort

variable {α : Type} {le : α → α → Bool}

/-- The place of `x` in the sort of `before ++ x :: behind`. -/
def place (le : α → α → Bool) (before : List α) (x : α) (behind : List α) : Nat :=
  before.countP (fun a => le a x) + behind.countP fun a => !le x a

section

variable (trans : ∀ a b c, le a b → le b c → le a c) (total : ∀ a b, le a b || le b a)
include trans total

/-- Where the element stands in front, the elements earlier than it come before it. -/
theorem mergeSort_first (x : α) (behind : List α) : ∃ s t, (x :: behind).mergeSort le = s ++ x :: t ∧
    s.length = behind.countP fun a => !le x a := by
  obtain ⟨s, t, hsort, hrest, hs⟩ := List.mergeSort_cons trans total x behind
  refine ⟨s, t, hsort, ?_⟩
  have hsorted := List.pairwise_mergeSort trans total (x :: behind)
  rw [hsort, List.pairwise_append, List.pairwise_cons] at hsorted
  have ht : t.countP (fun a => !le x a) = 0 := by
    rw [List.countP_eq_zero]
    intro a ha
    simp [hsorted.2.1.1 a ha]
  have hcount : behind.countP (fun a => !le x a) = (s ++ t).countP fun a => !le x a := by
    rw [← hrest]
    exact ((List.mergeSort_perm behind le).countP_eq _).symm
  rw [hcount, List.countP_append, ht, Nat.add_zero, List.countP_eq_length.mpr hs]

/-- An element has its place in the sorted list. -/
theorem mergeSort_place (before : List α) (x : α) (behind : List α) :
    ∃ s t, (before ++ x :: behind).mergeSort le = s ++ x :: t ∧ s.length = place le before x behind := by
  induction before with
  | nil =>
    obtain ⟨s, t, hsort, hlength⟩ := mergeSort_first trans total x behind
    exact ⟨s, t, hsort, by rw [hlength, place, List.countP_nil, Nat.zero_add]⟩
  | cons p before ih =>
    obtain ⟨s, t, hrest, hlength⟩ := ih
    obtain ⟨front, back, hsort, hsplit, hfront⟩ :=
      List.mergeSort_cons trans total p (before ++ x :: behind)
    have hsorted := List.pairwise_mergeSort trans total (p :: (before ++ x :: behind))
    rw [hsort, List.pairwise_append, List.pairwise_cons] at hsorted
    obtain ⟨-, ⟨hback, -⟩, -⟩ := hsorted
    rw [List.cons_append, hsort]
    rw [hrest, List.append_eq_append_iff] at hsplit
    -- `p` comes in before `x` or after it, as it is no later than `x` or is.
    have hearly : x ∈ back → place le (p :: before) x behind = place le before x behind + 1 := by
      intro hx
      rw [place, place, List.countP_cons_of_pos (p := fun a => le a x) (hback x hx)]
      omega
    have hlate : x ∈ front → place le (p :: before) x behind = place le before x behind := by
      intro hx
      rw [place, place, List.countP_cons_of_neg (p := fun a => le a x) (by simpa using hfront x hx)]
    rcases hsplit with ⟨mid, rfl, hmid⟩ | ⟨mid, rfl, rfl⟩
    · rcases mid with - | ⟨y, mid⟩
      · rw [List.nil_append] at hmid
        subst hmid
        refine ⟨s ++ [p], t, by simp, ?_⟩
        rw [hearly List.mem_cons_self, List.length_append, hlength, List.length_singleton]
      · obtain ⟨rfl, rfl⟩ := List.cons.inj hmid
        refine ⟨s, mid ++ p :: back, by simp, ?_⟩
        rw [hlate (by simp), hlength]
    · refine ⟨front ++ p :: mid, t, by simp, ?_⟩
      rw [hearly (by simp), ← hlength]
      simp only [List.length_append, List.length_cons]
      omega

/-- An element with a key of its own is among the first `n` of the sorted list just where its place is. -/
theorem mem_take_iff {β : Type} (key : α → β) {before behind : List α} {x : α}
    (hnodup : ((before ++ x :: behind).map key).Nodup) (n : Nat) :
    key x ∈ (((before ++ x :: behind).mergeSort le).take n).map key ↔ place le before x behind < n := by
  obtain ⟨s, t, hsort, hlength⟩ := mergeSort_place trans total before x behind
  have hsorted : ((s ++ x :: t).map key).Nodup := by
    rw [← hsort]
    exact ((List.mergeSort_perm _ le).map key).nodup_iff.mpr hnodup
  rw [List.map_append, List.map_cons, List.nodup_append] at hsorted
  rw [hsort, ← hlength]
  constructor
  · intro hmem
    by_contra hge
    rw [List.take_append_of_le_length (Nat.not_lt.mp hge)] at hmem
    refine hsorted.2.2 _ ?_ _ List.mem_cons_self rfl
    obtain ⟨a, ha, hkey⟩ := List.mem_map.mp hmem
    exact List.mem_map.mpr ⟨a, List.mem_of_mem_take ha, hkey⟩
  · intro hlt
    refine List.mem_map_of_mem ?_
    obtain ⟨m, rfl⟩ : ∃ m, n = s.length + (m + 1) := ⟨n - s.length - 1, by omega⟩
    rw [List.take_length_add_append, List.take_succ_cons]
    exact List.mem_append_right _ List.mem_cons_self

end

end StableSort
