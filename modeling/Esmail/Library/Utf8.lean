/-
# UTF-8, written and decoded

`String::from_utf8_lossy`: every longest piece that could still have begun a character, and every
byte that could not, becomes one U+FFFD.
-/
import Mathlib.Data.List.Basic
import Mathlib.Tactic.Common

namespace RustText

/-- `char::REPLACEMENT_CHARACTER`. -/
def replacementCharacter : Char := Char.ofNat 0xFFFD

/-- A byte in the middle of a character. -/
def isContinuation (b : UInt8) : Bool := 0x80 ≤ b.toNat && b.toNat ≤ 0xBF

/-- Whether the second byte can follow the first, of a character of three or four bytes: no
overlong form, no surrogate, nothing above U+10FFFF. -/
def isSecond (first second : UInt8) : Bool :=
  if first.toNat = 0xE0 then 0xA0 ≤ second.toNat && second.toNat ≤ 0xBF
  else if first.toNat = 0xED then 0x80 ≤ second.toNat && second.toNat ≤ 0x9F
  else if first.toNat = 0xF0 then 0x90 ≤ second.toNat && second.toNat ≤ 0xBF
  else if first.toNat = 0xF4 then 0x80 ≤ second.toNat && second.toNat ≤ 0x8F
  else isContinuation second

/-- The character that begins with `first`, and how many of the bytes after it belong to it. -/
def decodeLossy (first : UInt8) (rest : List UInt8) : Char × Nat :=
  let a := first.toNat
  if a < 0x80 then (Char.ofNat a, 0)
  else if 0xC2 ≤ a ∧ a ≤ 0xDF then
    match rest with
    | b :: _ =>
      if isContinuation b then (Char.ofNat ((a - 0xC0) * 64 + (b.toNat - 0x80)), 1)
      else (replacementCharacter, 0)
    | [] => (replacementCharacter, 0)
  else if 0xE0 ≤ a ∧ a ≤ 0xEF then
    match rest with
    | b :: rest =>
      if isSecond first b then
        match rest with
        | c :: _ =>
          if isContinuation c then
            (Char.ofNat ((a - 0xE0) * 4096 + (b.toNat - 0x80) * 64 + (c.toNat - 0x80)), 2)
          else (replacementCharacter, 1)
        | [] => (replacementCharacter, 1)
      else (replacementCharacter, 0)
    | [] => (replacementCharacter, 0)
  else if 0xF0 ≤ a ∧ a ≤ 0xF4 then
    match rest with
    | b :: rest =>
      if isSecond first b then
        match rest with
        | c :: rest =>
          if isContinuation c then
            match rest with
            | d :: _ =>
              if isContinuation d then
                (Char.ofNat ((a - 0xF0) * 262144 + (b.toNat - 0x80) * 4096 +
                  (c.toNat - 0x80) * 64 + (d.toNat - 0x80)), 3)
              else (replacementCharacter, 2)
            | [] => (replacementCharacter, 2)
          else (replacementCharacter, 1)
        | [] => (replacementCharacter, 1)
      else (replacementCharacter, 0)
    | [] => (replacementCharacter, 0)
  else (replacementCharacter, 0)

/-- The characters of what `fuel` bytes at most begin. -/
def lossyFuel : Nat → List UInt8 → List Char
  | 0, _ => []
  | _, [] => []
  | fuel + 1, first :: rest =>
    let r := decodeLossy first rest
    r.1 :: lossyFuel fuel (rest.drop r.2)

/-- `String::from_utf8_lossy`: every character has a byte, so as much fuel as bytes is enough. -/
def fromUtf8Lossy (bytes : List UInt8) : List Char := lossyFuel bytes.length bytes

/-- Enough fuel is any that is no less than the bytes. -/
theorem lossyFuel_eq : ∀ (fuel fuel' : Nat) (bytes : List UInt8), bytes.length ≤ fuel →
    bytes.length ≤ fuel' → lossyFuel fuel bytes = lossyFuel fuel' bytes
  | 0, 0, _, _, _ => rfl
  | 0, _ + 1, [], _, _ => rfl
  | _ + 1, 0, [], _, _ => rfl
  | _ + 1, _ + 1, [], _, _ => rfl
  | fuel + 1, fuel' + 1, first :: rest, h, h' => by
    have hdrop : (rest.drop (decodeLossy first rest).2).length ≤ rest.length := by simp
    simp only [List.length_cons, Nat.add_le_add_iff_right] at h h'
    rw [lossyFuel, lossyFuel, lossyFuel_eq fuel fuel' _ (Nat.le_trans hdrop h)
      (Nat.le_trans hdrop h')]

/-- Decoding goes character by character, to the end. -/
theorem fromUtf8Lossy_cons (first : UInt8) (rest : List UInt8) :
    fromUtf8Lossy (first :: rest) = (decodeLossy first rest).1 ::
      fromUtf8Lossy (rest.drop (decodeLossy first rest).2) := by
  rw [fromUtf8Lossy, List.length_cons, lossyFuel, fromUtf8Lossy]
  exact congrArg _ (lossyFuel_eq _ _ _ (by simp) (Nat.le_refl _))

theorem toNat_ofNat_char {c : Char} (h : c.toNat < 0x80) : (UInt8.ofNat c.toNat).toNat = c.toNat :=
  UInt8.toNat_ofNat_of_lt' (Nat.lt_trans h (by decide))

/-- What is ASCII is decoded byte by byte. -/
theorem fromUtf8Lossy_ascii : ∀ {s : List Char}, (∀ c ∈ s, c.toNat < 0x80) →
    fromUtf8Lossy (s.map fun c => UInt8.ofNat c.toNat) = s
  | [], _ => rfl
  | c :: s, h => by
    obtain ⟨hc, hs⟩ := List.forall_mem_cons.mp h
    have hdecode : decodeLossy (UInt8.ofNat c.toNat) (s.map fun c => UInt8.ofNat c.toNat) =
        (c, 0) := by
      simp [decodeLossy, toNat_ofNat_char hc, hc]
    rw [List.map_cons, fromUtf8Lossy_cons, hdecode, List.drop_zero, fromUtf8Lossy_ascii hs]

/-- What `isSecond` lets through. -/
theorem isSecond_range {first second : UInt8} (h : isSecond first second) :
    (0x80 ≤ second.toNat ∧ second.toNat ≤ 0xBF) ∧ (first.toNat = 0xE0 → 0xA0 ≤ second.toNat) ∧
      (first.toNat = 0xED → second.toNat ≤ 0x9F) ∧ (first.toNat = 0xF0 → 0x90 ≤ second.toNat) ∧
      (first.toNat = 0xF4 → second.toNat ≤ 0x8F) := by
  unfold isSecond isContinuation at h
  split_ifs at h
  all_goals
    simp only [Bool.and_eq_true, decide_eq_true_eq] at h
    omega

theorem isContinuation_of_isSecond {first second : UInt8} (h : isSecond first second) :
    isContinuation second := by
  simpa [isContinuation] using (isSecond_range h).1

/-- What a character takes of the bytes behind its first are continuation bytes. -/
theorem decodeLossy_skips (first : UInt8) (rest : List UInt8) :
    ∀ b ∈ rest.take (decodeLossy first rest).2, isContinuation b := by
  unfold decodeLossy
  simp only
  split_ifs
  · simp
  · rcases rest with _ | ⟨b, rest⟩
    · simp
    · simp only
      split_ifs <;> simp_all
  · rcases rest with _ | ⟨b, _ | ⟨c, rest⟩⟩
    · simp
    · simp only
      split_ifs with hb
      · simpa using isContinuation_of_isSecond hb
      · simp
    · simp only
      split_ifs with hb hc
      · simpa using ⟨isContinuation_of_isSecond hb, hc⟩
      · simpa using isContinuation_of_isSecond hb
      · simp
  · rcases rest with _ | ⟨b, _ | ⟨c, _ | ⟨d, rest⟩⟩⟩
    · simp
    · simp only
      split_ifs with hb
      · simpa using isContinuation_of_isSecond hb
      · simp
    · simp only
      split_ifs with hb hc
      · simpa using ⟨isContinuation_of_isSecond hb, hc⟩
      · simpa using isContinuation_of_isSecond hb
      · simp
    · simp only
      split_ifs with hb hc hd
      · simpa using ⟨isContinuation_of_isSecond hb, hc, hd⟩
      · simpa using ⟨isContinuation_of_isSecond hb, hc⟩
      · simpa using isContinuation_of_isSecond hb
      · simp
  · simp

theorem toNat_charOfNat {n : Nat} (h : n < 0xD800 ∨ 0xDFFF < n ∧ n < 0x110000) :
    (Char.ofNat n).toNat = n := by
  rw [Char.ofNat, dif_pos h]
  rfl

/-- The characters below U+00C0 that are decoded are those of a single byte and those behind 0xC2. -/
theorem decodeLossy_cases (first : UInt8) (rest : List UInt8) :
    (first.toNat < 0x80 ∧ decodeLossy first rest = (Char.ofNat first.toNat, 0)) ∨
      (∃ b rest', first.toNat = 0xC2 ∧ rest = b :: rest' ∧ isContinuation b ∧
        decodeLossy first rest = (Char.ofNat b.toNat, 1)) ∨
      (0x80 ≤ first.toNat ∧
        (first.toNat = 0xC2 → ∀ b rest', rest = b :: rest' → isContinuation b = false) ∧
        0xC0 ≤ (decodeLossy first rest).1.toNat) := by
  have hreplaced : 0xC0 ≤ replacementCharacter.toNat := by decide
  unfold decodeLossy
  simp only
  split_ifs with hone htwo hthree hfour
  · exact .inl ⟨hone, rfl⟩
  · rcases rest with _ | ⟨b, rest⟩
    · exact .inr (.inr ⟨by omega, by simp, hreplaced⟩)
    · simp only
      split_ifs with hb
      · have hrange := hb
        simp only [isContinuation, Bool.and_eq_true, decide_eq_true_eq] at hrange
        by_cases hfirst : first.toNat = 0xC2
        · have hvalue : (first.toNat - 0xC0) * 64 + (b.toNat - 0x80) = b.toNat := by omega
          exact .inr (.inl ⟨b, rest, hfirst, rfl, hb, by rw [hvalue]⟩)
        · refine .inr (.inr ⟨by omega, fun h => absurd h hfirst, ?_⟩)
          rw [toNat_charOfNat (.inl (by omega))]
          omega
      · exact .inr (.inr ⟨by omega, fun _ d rest' h => by simp_all, hreplaced⟩)
  · refine .inr (.inr ⟨by omega, fun h => by omega, ?_⟩)
    rcases rest with _ | ⟨b, _ | ⟨c, rest⟩⟩
    · exact hreplaced
    · simp only
      split_ifs <;> exact hreplaced
    · simp only
      split_ifs with hb hc
      · have hsecond := isSecond_range hb
        simp only [isContinuation, Bool.and_eq_true, decide_eq_true_eq] at hc
        rw [toNat_charOfNat (by omega)]
        omega
      · exact hreplaced
      · exact hreplaced
  · refine .inr (.inr ⟨by omega, fun h => by omega, ?_⟩)
    rcases rest with _ | ⟨b, _ | ⟨c, _ | ⟨d, rest⟩⟩⟩
    · exact hreplaced
    · simp only
      split_ifs <;> exact hreplaced
    · simp only
      split_ifs <;> exact hreplaced
    · simp only
      split_ifs with hb hc hd
      · have hsecond := isSecond_range hb
        simp only [isContinuation, Bool.and_eq_true, decide_eq_true_eq] at hc hd
        rw [toNat_charOfNat (by omega)]
        omega
      · exact hreplaced
      · exact hreplaced
      · exact hreplaced
  · exact .inr (.inr ⟨by omega, fun h => by omega, hreplaced⟩)

/-! ## Writing -/

/-- `str::as_bytes`. -/
def encodeUtf8 (s : List Char) : List UInt8 := s.flatMap String.utf8EncodeChar

/-- `str::from_utf8`: what is decoded is taken if no byte of it was replaced. -/
def fromUtf8 (bytes : List UInt8) : Option (List Char) :=
  if encodeUtf8 (fromUtf8Lossy bytes) = bytes then some (fromUtf8Lossy bytes) else none

@[simp] theorem encodeUtf8_cons (c : Char) (s : List Char) :
    encodeUtf8 (c :: s) = String.utf8EncodeChar c ++ encodeUtf8 s := rfl

theorem utf8EncodeChar_ascii {c : Char} (h : c.toNat < 0x80) :
    String.utf8EncodeChar c = [UInt8.ofNat c.toNat] := by
  change c.val.toNat < 0x80 at h
  rw [String.utf8EncodeChar, if_pos (by omega)]
  rfl

/-- What is not ASCII is a first byte and continuation bytes.  The first is 0xC2 only below U+00C0, where
the second is the character's number. -/
theorem utf8EncodeChar_cases {c : Char} (h : 0x80 ≤ c.toNat) : ∃ first second rest,
    String.utf8EncodeChar c = first :: second :: rest ∧ 0xC2 ≤ first.toNat ∧
      (∀ b ∈ second :: rest, isContinuation b) ∧
      (first.toNat = 0xC2 → second.toNat = c.toNat ∧ c.toNat < 0xC0) := by
  have hmax : c.toNat < 0x110000 := by
    have := c.valid
    simp only [UInt32.isValidChar, Nat.isValidChar] at this
    change c.val.toNat < 0x110000
    omega
  change 0x80 ≤ c.val.toNat at h
  change c.val.toNat < 0x110000 at hmax
  change ∃ first second rest, _ ∧ _ ∧ _ ∧ (_ → _ = c.val.toNat ∧ c.val.toNat < 0xC0)
  have hbyte : ∀ n, n < 0x100 → (UInt8.ofNat n).toNat = n := fun _ => UInt8.toNat_ofNat_of_lt'
  have hcont : ∀ n, isContinuation (UInt8.ofNat (n % 0x40 + 0x80)) = true := fun n => by
    have := hbyte (n % 0x40 + 0x80) (by omega)
    simp only [isContinuation, Bool.and_eq_true, decide_eq_true_eq, this]
    omega
  unfold String.utf8EncodeChar
  simp only
  generalize c.val.toNat = n at h hmax ⊢
  rw [if_neg (by omega)]
  split_ifs with htwo hthree
  · refine ⟨_, _, _, rfl, ?_, ?_, ?_⟩
    · rw [hbyte _ (by omega)]
      omega
    · exact List.forall_mem_singleton.mpr (hcont n)
    · rw [hbyte _ (by omega), hbyte _ (by omega)]
      omega
  · refine ⟨_, _, _, rfl, ?_, ?_, ?_⟩
    · rw [hbyte _ (by omega)]
      omega
    · exact List.forall_mem_cons.mpr ⟨hcont (n / 64), List.forall_mem_singleton.mpr (hcont n)⟩
    · rw [hbyte _ (by omega)]
      omega
  · refine ⟨_, _, _, rfl, ?_, ?_, ?_⟩
    · rw [hbyte _ (by omega)]
      omega
    · exact List.forall_mem_cons.mpr ⟨hcont (n / 4096), List.forall_mem_cons.mpr
        ⟨hcont (n / 64), List.forall_mem_singleton.mpr (hcont n)⟩⟩
    · rw [hbyte _ (by omega)]
      omega

/-- A character that was written is decoded, whatever is behind it. -/
theorem decodeLossy_encode (c : Char) (rest : List UInt8) : ∃ first more,
    String.utf8EncodeChar c = first :: more ∧
      decodeLossy first (more ++ rest) = (c, more.length) := by
  have hvalid : c.val.toNat < 0xD800 ∨ 0xDFFF < c.val.toNat ∧ c.val.toNat < 0x110000 := c.valid
  have hchar : Char.ofNat c.val.toNat = c := Char.ofNat_toNat c
  have hbyte : ∀ n, n < 0x100 → (UInt8.ofNat n).toNat = n := fun _ => UInt8.toNat_ofNat_of_lt'
  have hlow : ∀ n, (UInt8.ofNat (n % 0x40 + 0x80)).toNat = n % 0x40 + 0x80 := fun n =>
    hbyte _ (by omega)
  have hcont : ∀ n, isContinuation (UInt8.ofNat (n % 0x40 + 0x80)) = true := fun n => by
    simp only [isContinuation, Bool.and_eq_true, decide_eq_true_eq, hlow]
    omega
  unfold String.utf8EncodeChar
  simp only
  generalize c.val.toNat = n at hvalid hchar ⊢
  split_ifs with hone htwo hthree
  · refine ⟨_, _, rfl, ?_⟩
    simp only [decodeLossy, hbyte n (by omega)]
    rw [if_pos (by omega), hchar]
    rfl
  · refine ⟨_, _, rfl, ?_⟩
    have hfirst := hbyte (n / 64 % 0x20 + 0xC0) (by omega)
    have hn : (n / 64 % 0x20 + 0xC0 - 0xC0) * 64 + (n % 0x40 + 0x80 - 0x80) = n := by omega
    simp only [decodeLossy, hfirst, List.cons_append, hcont, hlow]
    rw [if_neg (by omega), if_pos (by omega), if_pos trivial, hn, hchar]
    rfl
  · refine ⟨_, _, rfl, ?_⟩
    have hfirst := hbyte (n / 4096 % 0x10 + 0xE0) (by omega)
    have hn : (n / 4096 % 0x10 + 0xE0 - 0xE0) * 4096 + (n / 64 % 0x40 + 0x80 - 0x80) * 64 +
        (n % 0x40 + 0x80 - 0x80) = n := by omega
    -- no surrogate has been written
    have hsecond : isSecond (UInt8.ofNat (n / 4096 % 0x10 + 0xE0))
        (UInt8.ofNat (n / 64 % 0x40 + 0x80)) = true := by
      simp only [isSecond, hfirst, hlow, hcont]
      split_ifs <;> simp <;> omega
    simp only [decodeLossy, hfirst, List.cons_append, hcont, hlow, hsecond]
    rw [if_neg (by omega), if_neg (by omega), if_pos (by omega), if_pos trivial, if_pos trivial, hn,
      hchar]
    rfl
  · refine ⟨_, _, rfl, ?_⟩
    have hfirst := hbyte (n / 262144 % 0x08 + 0xF0) (by omega)
    have hn : (n / 262144 % 0x08 + 0xF0 - 0xF0) * 262144 + (n / 4096 % 0x40 + 0x80 - 0x80) * 4096 +
        (n / 64 % 0x40 + 0x80 - 0x80) * 64 + (n % 0x40 + 0x80 - 0x80) = n := by omega
    have hsecond : isSecond (UInt8.ofNat (n / 262144 % 0x08 + 0xF0))
        (UInt8.ofNat (n / 4096 % 0x40 + 0x80)) = true := by
      simp only [isSecond, hfirst, hlow, hcont]
      split_ifs <;> simp <;> omega
    simp only [decodeLossy, hfirst, List.cons_append, hcont, hlow, hsecond]
    rw [if_neg (by omega), if_neg (by omega), if_neg (by omega), if_pos (by omega), if_pos trivial,
      if_pos trivial, if_pos trivial, hn, hchar]
    rfl

theorem fromUtf8Lossy_encodeUtf8 : ∀ s : List Char, fromUtf8Lossy (encodeUtf8 s) = s
  | [] => rfl
  | c :: s => by
    obtain ⟨first, more, hencode, hdecode⟩ := decodeLossy_encode c (encodeUtf8 s)
    rw [encodeUtf8_cons, hencode, List.cons_append, fromUtf8Lossy_cons, hdecode, List.drop_left,
      fromUtf8Lossy_encodeUtf8 s]

/-- What was written is read. -/
theorem fromUtf8_encodeUtf8 (s : List Char) : fromUtf8 (encodeUtf8 s) = some s := by
  rw [fromUtf8, fromUtf8Lossy_encodeUtf8, if_pos rfl]

example : fromUtf8Lossy [0x61, 0xC3, 0xA9, 0xE2, 0x82, 0x62, 0xFF] =
    ['a', 'é', replacementCharacter, 'b', replacementCharacter] := by decide

end RustText
