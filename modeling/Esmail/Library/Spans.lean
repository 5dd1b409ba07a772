/-
# The span around a place

Two loops that walk from a place in a list, back and on, as long as the elements have a property.  They
look elements up by index, and `none` is an index that is not in the list.  What they enclose is the
largest span around the place of which every element has the property.
-/
import Mathlib.Tactic.Common

namespace Spans

variable {α : Type} {p : α → Bool} {l : List α}

/-- `while first > 0 && p(l[first - 1]) { first -= 1 }`. -/
def scanBack (p : α → Bool) (l : List α) : Nat → Option Nat
  | 0 => some 0
  | i + 1 => (l[i]?).bind fun a => if p a then scanBack p l i else some (i + 1)

/-- `while to < l.len() && p(l[to]) { to += 1 }`. -/
def scanOn (p : α → Bool) (l : List α) (i : Nat) : Option Nat :=
  if h : i < l.length then (l[i]?).bind fun a => if p a then scanOn p l (i + 1) else some i
  else some i
termination_by l.length - i

/-- Every element from `a` on and before `b` is there and has the property. -/
def Throughout (p : α → Bool) (l : List α) (a b : Nat) : Prop :=
  ∀ i, a ≤ i → i < b → (l[i]?).any p = true

theorem throughout_self (p : α → Bool) (l : List α) (i : Nat) : Throughout p l i i :=
  fun _ hle hlt => absurd hlt (Nat.not_lt.mpr hle)

/-- What the loop back does: it ends at the first place, or behind an element without the property. -/
theorem scanBack_spec (p : α → Bool) (l : List α) : ∀ i, i ≤ l.length →
    ∃ a, scanBack p l i = some a ∧ a ≤ i ∧ Throughout p l a i ∧
      (0 < a → (l[a - 1]?).any p = false)
  | 0, _ => ⟨0, rfl, Nat.le_refl 0, throughout_self p l 0, fun h => absurd h (Nat.lt_irrefl 0)⟩
  | i + 1, hi => by
    have hget : l[i]? = some l[i] := List.getElem?_eq_getElem hi
    cases hp : p l[i] with
    | false =>
      exact ⟨i + 1, by simp [scanBack, hget, hp], Nat.le_refl _, throughout_self p l _,
        fun _ => by simp [hget, hp]⟩
    | true =>
      obtain ⟨a, hscan, hle, hall, hend⟩ := scanBack_spec p l i (Nat.le_of_succ_le hi)
      refine ⟨a, by simp [scanBack, hget, hp, hscan], Nat.le_succ_of_le hle, fun j h1 h2 => ?_, hend⟩
      rcases Nat.lt_succ_iff_lt_or_eq.mp h2 with hlt | rfl
      · exact hall j h1 hlt
      · simp [hget, hp]

/-- What the loop on does: it ends at the end, or at an element without the property. -/
theorem scanOn_spec (p : α → Bool) (l : List α) (i : Nat) (hi : i ≤ l.length) :
    ∃ b, scanOn p l i = some b ∧ i ≤ b ∧ b ≤ l.length ∧ Throughout p l i b ∧
      (l[b]?).any p = false := by
  rw [scanOn]
  split
  · next hlt =>
    have hget : l[i]? = some l[i] := List.getElem?_eq_getElem hlt
    cases hp : p l[i] with
    | false =>
      exact ⟨i, by simp [hget, hp], Nat.le_refl i, hi, throughout_self p l i, by simp [hget, hp]⟩
    | true =>
      obtain ⟨b, hscan, hle, hb, hall, hend⟩ := scanOn_spec p l (i + 1) hlt
      refine ⟨b, by simp [hget, hp, hscan], Nat.le_of_succ_le hle, hb, fun j h1 h2 => ?_, hend⟩
      rcases Nat.eq_or_lt_of_le h1 with rfl | hlt'
      · simp [hget, hp]
      · exact hall j hlt' h2
  · next hge =>
    refine ⟨i, rfl, Nat.le_refl i, hi, throughout_self p l i, ?_⟩
    rw [List.getElem?_eq_none (Nat.not_lt.mp hge)]
    rfl
termination_by l.length - i

/-- The largest span around the place `i` of which every element has the property: it is in the list,
and any such span around `i` is in it. -/
structure Around (p : α → Bool) (l : List α) (i a b : Nat) : Prop where
  left : a ≤ i
  right : i < b
  bound : b ≤ l.length
  throughout : Throughout p l a b
  largest : ∀ a' b', a' ≤ i → i < b' → Throughout p l a' b' → a ≤ a' ∧ b' ≤ b

/-- The two loops, from a place whose element has the property. -/
theorem scan_around {i : Nat} (hi : i < l.length) (hp : p l[i] = true) :
    ∃ a b, scanBack p l i = some a ∧ scanOn p l (i + 1) = some b ∧ Around p l i a b := by
  obtain ⟨a, hback, ha, hleft, hbefore⟩ := scanBack_spec p l i (Nat.le_of_lt hi)
  obtain ⟨b, hon, hb, hbound, hright, hafter⟩ := scanOn_spec p l (i + 1) hi
  refine ⟨a, b, hback, hon, ha, hb, hbound, fun j h1 h2 => ?_, fun a' b' ha' hb' hall => ⟨?_, ?_⟩⟩
  · rcases Nat.lt_trichotomy j i with hlt | rfl | hgt
    · exact hleft j h1 hlt
    · simp [hi, hp]
    · exact hright j hgt h2
  · -- one place before `a` would have the property
    by_contra hlt
    have hno := hbefore (by omega)
    rw [hall (a - 1) (by omega) (by omega)] at hno
    cases hno
  · by_contra hlt
    rw [hall b (by omega) (by omega)] at hafter
    cases hafter

end Spans
