/-
# Fetching remote images

`images::fetch`.  A URL comes as the message has it.  Whether it begins with a scheme is asked by
slicing it at the scheme's length in bytes, so a URL with a character across that byte makes the
function panic (`fetch_panics_iff`).  What the network answers is a parameter.
-/
import Esmail.Library.RustSlice
import Esmail.Library.RustText

namespace Esmail.Images

open RustText

abbrev Bytes := List UInt8

def http : List Char := ['h', 't', 't', 'p', ':', '/', '/']

def https : List Char := ['h', 't', 't', 'p', 's', ':', '/', '/']

/-- The test of one scheme; `none` is the panic of the slice. -/
def schemeMatches (url scheme : List Char) : Option Bool :=
  if utf8Len scheme < utf8Len url then
    (sliceTo url (utf8Len scheme)).map fun start => eqIgnoreAsciiCase start scheme
  else some false

/-- `scheme_ok`: `any` goes on to the second scheme where the first does not match. -/
def schemeOk (url : List Char) : Option Bool :=
  match schemeMatches url http with
  | some false => schemeMatches url https
  | ok => ok

/-- `fetch`, where `get` is the network's answer; `none` is a panic. -/
def fetch (get : String → Option Bytes) (url : String) : Option (Option Bytes) :=
  (schemeOk url.toList).map fun ok => if ok then get url else none

/-- The URL begins with the scheme, in any letter case, and goes on. -/
def HasScheme (url scheme : List Char) : Prop :=
  ∃ start rest, url = start ++ rest ∧ eqIgnoreAsciiCase start scheme = true ∧ rest ≠ []

/-- No character lies across byte 7; and none across byte 8, unless the URL begins with `http://`
and goes on. -/
def Sliceable (url : List Char) : Prop := IsCut 7 url ∧ (HasScheme url http ∨ IsCut 8 url)

/-! ## 1. Letter case does not change a length -/

theorem utf8Size_toAsciiLowercase (c : Char) : (toAsciiLowercase c).utf8Size = c.utf8Size := by
  unfold toAsciiLowercase
  split
  · rename_i h
    have hz : c.toNat ≤ 90 := UInt32.le_iff_toNat_le.mp h.2
    have hvalid : (c.toNat + 32).isValidChar := .inl (by omega)
    have hnat : (Char.ofNat (c.toNat + 32)).toNat = c.toNat + 32 := by
      rw [Char.ofNat, dif_pos hvalid]
      rfl
    have hc : c.utf8Size = 1 :=
      Char.utf8Size_eq_one_iff.mpr (UInt32.le_iff_toNat_le.mpr (Nat.le_trans hz (by decide)))
    have hlow : (Char.ofNat (c.toNat + 32)).val ≤ 127 := by
      refine UInt32.le_iff_toNat_le.mpr ?_
      change (Char.ofNat (c.toNat + 32)).toNat ≤ 127
      omega
    rw [hc, Char.utf8Size_eq_one_iff.mpr hlow]
  · rfl

theorem utf8Len_map_toAsciiLowercase (s : List Char) :
    utf8Len (s.map toAsciiLowercase) = utf8Len s := by
  simp [utf8Len, Function.comp_def, utf8Size_toAsciiLowercase]

theorem utf8Len_eq_of_eqIgnoreAsciiCase {s t : List Char} (h : eqIgnoreAsciiCase s t = true) :
    utf8Len s = utf8Len t := by
  rw [← utf8Len_map_toAsciiLowercase s, ← utf8Len_map_toAsciiLowercase t,
    eq_of_beq (show (s.map toAsciiLowercase == t.map toAsciiLowercase) = true from h)]

/-! ## 2. What `fetch` does -/

theorem schemeMatches_eq_none {url scheme : List Char} :
    schemeMatches url scheme = none ↔ ¬ IsCut (utf8Len scheme) url := by
  unfold schemeMatches
  split
  · rename_i hlen
    rw [Option.map_eq_none_iff, sliceTo_eq_none (Nat.le_of_lt hlen)]
  · rename_i hlen
    have hcut : IsCut (utf8Len scheme) url := by
      rcases Nat.lt_or_ge (utf8Len url) (utf8Len scheme) with hlt | hge
      · exact .inl hlt
      · exact .inr ⟨url, List.prefix_refl _, by omega⟩
    simp [hcut]

theorem schemeMatches_eq_true {url scheme : List Char} :
    schemeMatches url scheme = some true ↔ HasScheme url scheme := by
  unfold schemeMatches
  constructor
  · intro h
    split at h
    · rename_i hlen
      obtain ⟨start, hslice, heq⟩ := Option.map_eq_some_iff.mp h
      obtain ⟨⟨rest, rfl⟩, hstart⟩ := sliceTo_eq_some.mp hslice
      refine ⟨start, rest, rfl, heq, fun hrest => ?_⟩
      rw [hrest, List.append_nil] at hlen
      omega
    · simp at h
  · rintro ⟨start, rest, rfl, heq, hrest⟩
    have hstart : utf8Len start = utf8Len scheme := utf8Len_eq_of_eqIgnoreAsciiCase heq
    have hpos : utf8Len rest ≠ 0 := fun h => hrest (utf8Len_eq_zero.mp h)
    have hslice : sliceTo (start ++ rest) (utf8Len scheme) = some start :=
      sliceTo_eq_some.mpr ⟨List.prefix_append .., hstart⟩
    rw [if_pos (by rw [utf8Len_append]; omega), hslice, Option.map_some, heq]

theorem schemeOk_eq_none {url : List Char} : schemeOk url = none ↔ ¬ Sliceable url := by
  have hhttp : utf8Len http = 7 := rfl
  have hhttps : utf8Len https = 8 := rfl
  unfold schemeOk Sliceable
  rw [← schemeMatches_eq_true, ← hhttp, ← hhttps]
  cases h : schemeMatches url http with
  | none => simp [schemeMatches_eq_none.mp h]
  | some ok =>
    have hcut : IsCut (utf8Len http) url := by
      by_contra hcut
      rw [schemeMatches_eq_none.mpr hcut] at h
      cases h
    cases ok with
    | true => simp [hcut]
    | false => simp [hcut, schemeMatches_eq_none]

theorem schemeOk_eq_true {url : List Char} :
    schemeOk url = some true ↔ HasScheme url http ∨
      schemeMatches url http = some false ∧ HasScheme url https := by
  unfold schemeOk
  rw [← schemeMatches_eq_true, ← schemeMatches_eq_true]
  cases h : schemeMatches url http with
  | none => simp
  | some ok => cases ok <;> simp

/-- The function panics exactly on a URL that cannot be sliced so. -/
theorem fetch_panics_iff (get : String → Option Bytes) (url : String) :
    fetch get url = none ↔ ¬ Sliceable url.toList := by
  rw [fetch, Option.map_eq_none_iff, schemeOk_eq_none]

instance (url : List Char) : Decidable (Sliceable url) :=
  decidable_of_iff (schemeOk url ≠ none) (by rw [Ne, schemeOk_eq_none, not_not])

/-- It brings nothing for any URL but a web address. -/
theorem fetch_nothing {get : String → Option Bytes} {url : String} (h : Sliceable url.toList)
    (hhttp : ¬ HasScheme url.toList http) (hhttps : ¬ HasScheme url.toList https) :
    fetch get url = some none := by
  cases hok : schemeOk url.toList with
  | none => exact absurd h (schemeOk_eq_none.mp hok)
  | some ok =>
    cases ok with
    | false => simp [fetch, hok]
    | true =>
      rcases schemeOk_eq_true.mp hok with h | ⟨-, h⟩
      · exact absurd h hhttp
      · exact absurd h hhttps

end Esmail.Images
