/-
# The text operations of Rust's standard library

`char::is_whitespace` is the Unicode property `White_Space`, NOT the whitespace of the formats
that are parsed here: it holds of NEL, of the no-break space and of the vertical tab.  `trim`
strips by it, so a slice that is trimmed before it is pasted elsewhere can lose a character
that the format counts as part of a token.
-/
import Mathlib.Data.List.Basic

namespace RustText

/-- `char::is_whitespace`: the characters with the Unicode property `White_Space`. -/
def isWhitespace (c : Char) : Bool :=
  (9 ≤ c.toNat && c.toNat ≤ 13) || c.toNat == 0x20 || c.toNat == 0x85 || c.toNat == 0xA0 ||
    c.toNat == 0x1680 || (0x2000 ≤ c.toNat && c.toNat ≤ 0x200A) || c.toNat == 0x2028 ||
    c.toNat == 0x2029 || c.toNat == 0x202F || c.toNat == 0x205F || c.toNat == 0x3000

/-- `trim_end_matches` for a predicate. -/
def trimEnd (p : Char → Bool) (s : List Char) : List Char := (s.reverse.dropWhile p).reverse

/-- `trim_matches` for a predicate. -/
def trimBoth (p : Char → Bool) (s : List Char) : List Char := trimEnd p (s.dropWhile p)

/-- `str::trim`. -/
def trim (s : List Char) : List Char := trimBoth isWhitespace s

/-- `char::to_ascii_lowercase`. -/
def toAsciiLowercase (c : Char) : Char :=
  if 'A' ≤ c ∧ c ≤ 'Z' then Char.ofNat (c.toNat + 32) else c

/-- `str::eq_ignore_ascii_case`. -/
def eqIgnoreAsciiCase (s t : List Char) : Bool := s.map toAsciiLowercase == t.map toAsciiLowercase

/-- `rfind` of a character: what stands before its last occurrence, and what after it. -/
def rsplitAt (c : Char) (s : List Char) : Option (List Char × List Char) :=
  match s.reverse.dropWhile (· != c) with
  | [] => none
  | _ :: before => some (before.reverse, (s.reverse.takeWhile (· != c)).reverse)

/-- `rfind` of a character: the index of its last occurrence. -/
def rfind (c : Char) (s : List Char) : Option Nat :=
  (s.reverse.findIdx? (· == c)).map fun i => s.length - 1 - i

/-- `split_once` at a character. -/
def splitOnce (c : Char) (s : List Char) : Option (List Char × List Char) :=
  match s.dropWhile (· != c) with
  | [] => none
  | _ :: after => some (s.takeWhile (· != c), after)

/-- `find` of a text: what stands before its first occurrence, and what after it. -/
def findText (sub : List Char) : List Char → Option (List Char × List Char)
  | [] => if sub = [] then some ([], []) else none
  | c :: s =>
    if sub.isPrefixOf (c :: s) then some ([], (c :: s).drop sub.length)
    else (findText sub s).map fun r => (c :: r.1, r.2)

/-! ## Searching -/

/-- What is found is a cut of the text. -/
theorem findText_split {sub : List Char} : ∀ {s before after : List Char},
    findText sub s = some (before, after) → s = before ++ sub ++ after
  | [], before, after, h => by
    rw [findText] at h
    split at h
    · next hsub =>
      cases h
      rw [hsub]
      rfl
    · exact absurd h (by simp)
  | c :: s, before, after, h => by
    rw [findText] at h
    split at h
    · next hpre =>
      cases h
      obtain ⟨t, ht⟩ := List.isPrefixOf_iff_prefix.mp hpre
      rw [← ht]
      simp
    · obtain ⟨⟨before', after'⟩, hs, heq⟩ := Option.map_eq_some_iff.mp h
      cases heq
      rw [findText_split hs]
      rfl

/-- Before a text in which no occurrence starts, the search goes on. -/
theorem findText_append {sub s : List Char} : ∀ {t : List Char},
    (∀ u v, t = u ++ v → v ≠ [] → ¬sub <+: v ++ s) →
      findText sub (t ++ s) = (findText sub s).map fun r => (t ++ r.1, r.2)
  | [], _ => by simp
  | c :: t, h => by
    have hc := h [] (c :: t) rfl (by simp)
    rw [List.cons_append] at hc
    rw [List.cons_append, findText, if_neg (by rwa [List.isPrefixOf_iff_prefix]),
      findText_append fun u v ht hv => h (c :: u) v (by rw [ht]; rfl) hv, Option.map_map]
    rfl

theorem findText_here (sub s : List Char) (h : sub ≠ []) :
    findText sub (sub ++ s) = some ([], s) := by
  obtain ⟨c, t, rfl⟩ := List.exists_cons_of_ne_nil h
  rw [List.cons_append, findText, if_pos (by simp)]
  simp

end RustText
