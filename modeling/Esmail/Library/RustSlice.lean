/-
# Slices of a text by its bytes

`&s[..n]` of a Rust string counts bytes, and panics where `n` lies beyond the end or inside a
character (`sliceTo`, which is `none` there).  `IsCut n s` says that no character of `s` lies across
byte `n`: what a slice of a text that is long enough needs.
-/
import Mathlib.Algebra.GroupWithZero.Nat
import Mathlib.Tactic.Common

namespace RustText

/-- `str::len`: the bytes of a text. -/
def utf8Len (s : List Char) : Nat := (s.map Char.utf8Size).sum

@[simp] theorem utf8Len_nil : utf8Len [] = 0 := rfl

@[simp] theorem utf8Len_cons (c : Char) (s : List Char) :
    utf8Len (c :: s) = c.utf8Size + utf8Len s := rfl

@[simp] theorem utf8Len_append (s t : List Char) : utf8Len (s ++ t) = utf8Len s + utf8Len t := by
  simp [utf8Len]

/-- `&s[..n]`; `none` is the panic. -/
def sliceTo : List Char → Nat → Option (List Char)
  | [], n => if n = 0 then some [] else none
  | c :: s, n =>
    if n = 0 then some []
    else if c.utf8Size ≤ n then (sliceTo s (n - c.utf8Size)).map (c :: ·)
    else none

/-- No character lies across byte `n`. -/
def IsCut (n : Nat) (s : List Char) : Prop := utf8Len s < n ∨ ∃ pre, pre <+: s ∧ utf8Len pre = n

theorem utf8Len_eq_zero {s : List Char} : utf8Len s = 0 ↔ s = [] := by
  cases s with
  | nil => simp
  | cons c s =>
    have := c.utf8Size_pos
    simp
    omega

theorem prefix_of_no_bytes {s pre : List Char} : [] = pre ↔ pre <+: s ∧ utf8Len pre = 0 := by
  rw [utf8Len_eq_zero]
  exact ⟨fun h => h ▸ ⟨List.nil_prefix, rfl⟩, fun h => h.2.symm⟩

/-- A slice is the beginning of that many bytes. -/
theorem sliceTo_eq_some : ∀ {s : List Char} {n : Nat} {pre : List Char},
    sliceTo s n = some pre ↔ pre <+: s ∧ utf8Len pre = n
  | [], n, pre => by
    rw [sliceTo]
    split
    · rename_i hn
      rw [hn, Option.some.injEq, prefix_of_no_bytes]
    · rename_i hn
      simp only [reduceCtorEq, false_iff, not_and]
      intro hpre hlen
      rw [List.prefix_nil.mp hpre] at hlen
      exact hn hlen.symm
  | c :: s, n, pre => by
    have hpos := c.utf8Size_pos
    rw [sliceTo]
    split
    · rename_i hn
      rw [hn, Option.some.injEq, prefix_of_no_bytes]
    · rename_i hn
      cases pre with
      | nil => split <;> simp [Ne.symm hn]
      | cons d pre =>
        rw [List.cons_prefix_cons]
        split
        · rename_i hle
          simp only [Option.map_eq_some_iff, List.cons.injEq, utf8Len_cons]
          constructor
          · rintro ⟨pre', hs, rfl, rfl⟩
            obtain ⟨hpre, hlen⟩ := sliceTo_eq_some.mp hs
            exact ⟨⟨rfl, hpre⟩, by omega⟩
          · rintro ⟨⟨rfl, hpre⟩, hlen⟩
            exact ⟨pre, sliceTo_eq_some.mpr ⟨hpre, by omega⟩, rfl, rfl⟩
        · rename_i hle
          simp only [reduceCtorEq, utf8Len_cons, false_iff, not_and, and_imp]
          rintro rfl - hlen
          omega

/-- A slice of a text that is long enough panics exactly where a character lies across its end. -/
theorem sliceTo_eq_none {s : List Char} {n : Nat} (hlen : n ≤ utf8Len s) :
    sliceTo s n = none ↔ ¬ IsCut n s := by
  rw [Option.eq_none_iff_forall_ne_some]
  constructor
  · rintro h (hshort | ⟨pre, hpre, hn⟩)
    · omega
    · exact h pre (sliceTo_eq_some.mpr ⟨hpre, hn⟩)
  · intro h pre hs
    exact h (.inr ⟨pre, sliceTo_eq_some.mp hs⟩)

end RustText
