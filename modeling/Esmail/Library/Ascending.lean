/-
# Ascending lists

A `Vec` that is kept sorted and without repetitions: where `binary_search` finds a key or says that it
goes, what inserting there keeps, and what `sort_unstable` followed by `dedup` leaves of any list.
-/
import Mathlib.Data.List.Destutter
import Mathlib.Data.List.InsertIdx
import Mathlib.Data.List.Sort
import Mathlib.Tactic.Common

namespace Ascending

variable {α : Type} [LinearOrder α] {l : List α} {x y : α} {i : Nat}

/-! ## 1. Searching -/

/-- `slice::binary_search` on an ascending list: where the key is, or else where it goes. -/
def binarySearch (l : List α) (x : α) : Except Nat Nat :=
  let pos := l.countP (· < x)
  if l[pos]? = some x then .ok pos else .error pos

/-- A key of the list stands behind the smaller ones. -/
theorem getElem?_countP : ∀ {l : List α}, l.Pairwise (· < ·) → x ∈ l →
    l[l.countP (· < x)]? = some x
  | [], _, hx => by cases hx
  | a :: l, h, hx => by
    obtain ⟨ha, hl⟩ := List.pairwise_cons.mp h
    rcases List.mem_cons.mp hx with rfl | hx
    · have hnone : l.countP (· < x) = 0 := List.countP_eq_zero.mpr fun b hb => by
        simpa using (ha b hb).le
      simp [hnone]
    · have hlt : a < x := ha x hx
      simp [hlt, getElem?_countP hl hx]

theorem not_mem_of_binarySearch (h : l.Pairwise (· < ·)) (hpos : binarySearch l x = .error i) :
    x ∉ l := by
  intro hx
  simp [binarySearch, getElem?_countP h hx] at hpos

theorem eq_countP_of_binarySearch (hpos : binarySearch l x = .error i) :
    i = l.countP (· < x) := by
  simp only [binarySearch] at hpos
  split at hpos
  · cases hpos
  · exact (Except.error.inj hpos).symm

/-- A new key, inserted behind the smaller ones. -/
theorem pairwise_insertIdx_countP : ∀ {l : List α}, l.Pairwise (· < ·) → x ∉ l →
    (l.insertIdx (l.countP (· < x)) x).Pairwise (· < ·)
  | [], _, _ => by simp
  | a :: l, h, hx => by
    obtain ⟨ha, hl⟩ := List.pairwise_cons.mp h
    obtain ⟨hne, hnot⟩ := not_or.mp (mt List.mem_cons.mpr hx)
    rcases lt_or_gt_of_ne hne with hlt | hgt
    · have hnone : (a :: l).countP (· < x) = 0 := List.countP_eq_zero.mpr fun b hb => by
        rcases List.mem_cons.mp hb with rfl | hb
        · simpa using hlt.le
        · simpa using (hlt.trans (ha b hb)).le
      rw [hnone, List.insertIdx_zero, List.pairwise_cons]
      refine ⟨fun b hb => ?_, h⟩
      rcases List.mem_cons.mp hb with rfl | hb
      · exact hlt
      · exact hlt.trans (ha b hb)
    · have hcount : (a :: l).countP (· < x) = l.countP (· < x) + 1 := by
        simp [hgt]
      rw [hcount, List.insertIdx_succ_cons, List.pairwise_cons]
      refine ⟨fun b hb => ?_, pairwise_insertIdx_countP hl hnot⟩
      rcases List.eq_or_mem_of_mem_insertIdx hb with rfl | hb
      · exact hgt
      · exact ha b hb

/-- Inserting a key where `binary_search` says that it goes. -/
theorem pairwise_insertIdx (h : l.Pairwise (· < ·)) (hpos : binarySearch l x = .error i) :
    (l.insertIdx i x).Pairwise (· < ·) := by
  rw [eq_countP_of_binarySearch hpos]
  exact pairwise_insertIdx_countP h (not_mem_of_binarySearch h hpos)

/-! ## 2. Sorting, and dropping repetitions -/

/-- `sort_unstable`, and then `dedup`. -/
def sortDedup (l : List α) : List α := (l.mergeSort (· ≤ ·)).destutter (· ≠ ·)

theorem mem_of_mem_sortDedup (h : x ∈ sortDedup l) : x ∈ l :=
  List.mem_mergeSort.mp ((List.destutter_sublist _ _).subset h)

/-- Sorted, and no two neighbours alike: no two elements are. -/
theorem pairwise_lt_of_le : ∀ {l : List α}, l.Pairwise (· ≤ ·) → l.IsChain (· ≠ ·) →
    l.Pairwise (· < ·)
  | [], _, _ => List.Pairwise.nil
  | [x], _, _ => List.pairwise_singleton _ x
  | x :: y :: l, hle, hne => by
    obtain ⟨hx, hle⟩ := List.pairwise_cons.mp hle
    obtain ⟨hxy, hne⟩ := List.isChain_cons_cons.mp hne
    have hlt : x < y := lt_of_le_of_ne (hx y List.mem_cons_self) hxy
    have ih := pairwise_lt_of_le hle hne
    refine List.pairwise_cons.mpr ⟨fun z hz => ?_, ih⟩
    rcases List.mem_cons.mp hz with rfl | hz
    · exact hlt
    · exact hlt.trans (List.rel_of_pairwise_cons ih hz)

theorem pairwise_sortDedup (l : List α) : (sortDedup l).Pairwise (· < ·) :=
  pairwise_lt_of_le ((List.pairwise_mergeSort' (· ≤ ·) l).sublist (List.destutter_sublist _ _))
    (List.isChain_destutter _ _)

end Ascending
