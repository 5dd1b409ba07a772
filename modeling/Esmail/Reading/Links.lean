/-
# What a click on a link does

`core_glue/links.rs`.  A link is refused if it has a control character in it; but a `mailto` link is
DECODED after that, and what it decodes to is not looked at again.  `percent_decode` asks
`u8::from_str_radix` for the byte of an escape, which takes a sign before the digit.

`mail_faithful_iff` is about every link that starts a message: the message gets what RFC 3986 makes of the
address and the subject, and no control character, exactly where nothing in either is smuggled (`Clean`):
no escape of a control character, and no `%+` with a digit.

The loop of `percent_decode` goes over bytes, and RFC 3986 over characters; `decodeEscapes_encode` brings
the first to the second, with the digits that count as a parameter (`octets`), so that the code's reading
and the RFC's differ in that parameter alone.  Which bytes make a control character when they are read as
UTF-8 is section 4; which escapes make such bytes, section 5.

Which parts of a link are decoded is as in the source: what stands before the query, and the first
`subject`.
-/
import Esmail.Library.RustSlice
import Esmail.Library.RustSplit
import Esmail.Library.Utf8
import Esmail.Watching.Notify
import Mathlib.Data.Bool.AllAny

namespace Esmail.Links

open RustText
open Watching (isControl)

/-! ## 1. The links -/

/-- `LinkAction`.  `recipient` is the source's `to`. -/
inductive LinkAction
  | browser (url : String)
  | mail (recipient : String) (subject : Option String)
  | saveAttachment (n : Nat)
  | openAttachment (n : Nat)
  | saveAllAttachments
  | reconnect (account : Nat)
  | refuse (reason : String)
  deriving DecidableEq, Repr

/-- `ATTACHMENT_SCHEME`. -/
def attachmentScheme : String := "esmail-attachment"

/-- `RECONNECT_SCHEME`. -/
def reconnectScheme : String := "esmail-reconnect"

/-- `MAX_LINK_BYTES`. -/
def maxLinkBytes : Nat := 8192

/-- `char::to_digit`, up to base 36. -/
def toDigit (radix : Nat) (c : Char) : Option Nat :=
  Option.filter (· < radix) <|
    if '0' ≤ c ∧ c ≤ '9' then some (c.toNat - 48)
    else if 'a' ≤ c ∧ c ≤ 'z' then some (c.toNat - 87)
    else if 'A' ≤ c ∧ c ≤ 'Z' then some (c.toNat - 55)
    else none

/-- `from_str_radix` of an unsigned type: digits, behind a plus sign at most. -/
def fromStrRadix (radix maxValue : Nat) (s : List Char) : Option Nat :=
  let digits := match s with
    | '+' :: rest => rest
    | _ => s
  if digits = [] then none
  else digits.foldlM (fun n c => do
    let digit ← toDigit radix c
    if n * radix + digit ≤ maxValue then some (n * radix + digit) else none) 0

/-- `str::parse::<usize>`, of 64 bits. -/
def parseUsize (s : List Char) : Option Nat := fromStrRadix 10 (2 ^ 64 - 1) s

/-- The byte of an escape, whose `%` stands before these bytes. -/
def escapedByte : List UInt8 → Option UInt8
  | first :: second :: _ => ((fromUtf8 [first, second]).bind (fromStrRadix 16 0xFF)).map UInt8.ofNat
  | _ => none

/-- The loop of `percent_decode`; `skip` bytes belong to an escape that is decoded. -/
def decodeEscapes : Nat → List UInt8 → List UInt8
  | _, [] => []
  | skip + 1, _ :: bytes => decodeEscapes skip bytes
  | 0, b :: bytes =>
    match if b = 0x25 then escapedByte bytes else none with
    | some byte => byte :: decodeEscapes 2 bytes
    | none => b :: decodeEscapes 0 bytes

/-- `percent_decode`. -/
def percentDecode (text : List Char) : String :=
  String.ofList (fromUtf8Lossy (decodeEscapes 0 (encodeUtf8 text)))

/-- `mail`. -/
def mail (rest : List Char) : LinkAction :=
  let (address, query) := (splitOnce '?' rest).getD (rest, [])
  let recipient := percentDecode address
  if '@' ∉ recipient.toList then .refuse "Blocked a mail link with no address."
  else
    let subject := (split '&' query).findSome? fun pair =>
      (splitOnce '=' pair).filter fun field => eqIgnoreAsciiCase field.1 "subject".toList
    .mail recipient (subject.map fun field => percentDecode field.2)

/-- `attachment`. -/
def attachment (rest : List Char) : LinkAction :=
  let parsed : Option LinkAction := match splitOnce '/' rest with
    | some (verb, n) =>
      if verb = "save".toList then (parseUsize n).map .saveAttachment
      else if verb = "open".toList then (parseUsize n).map .openAttachment
      else none
    | none => if rest = "save-all".toList then some .saveAllAttachments else none
  parsed.getD (.refuse "Blocked a malformed attachment link.")

/-- `classify`. -/
def classify (href : String) : LinkAction :=
  let href := trim href.toList
  if utf8Len href > maxLinkBytes ∨ href.any fun c => isControl c || isWhitespace c then
    .refuse "Blocked a link that is malformed."
  else
    match splitOnce ':' href with
    | none => .refuse "Blocked a link with no scheme."
    | some (scheme, rest) =>
      let scheme := String.ofList (scheme.map toAsciiLowercase)
      if (scheme = "http" ∨ scheme = "https") ∧ "//".toList <+: rest ∧ 2 < utf8Len rest then
        .browser (String.ofList href)
      else if scheme = "mailto" then mail rest
      else if scheme = attachmentScheme then attachment rest
      else if scheme = reconnectScheme then
        ((parseUsize rest).map .reconnect).getD (.refuse "Blocked a malformed reconnect link.")
      else .refuse ("Blocked a link that opens \"" ++ scheme ++
        ":\"; only web and mail links are opened.")

/-! ## 2. What an escape is -/

/-- The two hexadecimal digits of an escape, by RFC 3986. -/
def hexPair (high low : Char) : Option Nat := do
  let high ← toDigit 16 high
  let low ← toDigit 16 low
  return 16 * high + low

/-- What the code takes for them. -/
def codePair (high low : Char) : Option Nat := fromStrRadix 16 0xFF [high, low]

/-- The octets of a text, where `pair` says which two characters behind a `%` are one. -/
def octets (pair : Char → Char → Option Nat) : List Char → List UInt8
  | '%' :: high :: low :: s =>
    match pair high low with
    | some n => UInt8.ofNat n :: octets pair s
    | none => 0x25 :: octets pair (high :: low :: s)
  | c :: s => String.utf8EncodeChar c ++ octets pair s
  | [] => []

/-- The percent-decoding of RFC 3986: a `%` and two hexadecimal digits are an octet, and every other
character is kept. -/
def rfcDecode (part : List Char) : String := String.ofList (fromUtf8Lossy (octets hexPair part))

theorem toDigit_lt {radix n : Nat} {c : Char} (h : toDigit radix c = some n) : n < radix := by
  simpa using (Option.filter_eq_some_iff.mp h).2

/-- A hexadecimal digit is ASCII, and is neither a sign nor a `%`. -/
theorem toDigit_some {n : Nat} {c : Char} (h : toDigit 16 c = some n) :
    c.toNat < 0x80 ∧ c ≠ '+' ∧ c ≠ '%' := by
  have hnone : toDigit 16 '+' = none ∧ toDigit 16 '%' = none := by decide
  refine ⟨?_, ?_, ?_⟩
  · by_contra hge
    have hnot : ∀ high : Char, high.toNat < 0x80 → ¬c ≤ high := fun high hhigh hle => by
      have : c.toNat ≤ high.toNat := hle
      omega
    rw [toDigit, if_neg fun h => hnot '9' (by decide) h.2, if_neg fun h => hnot 'z' (by decide) h.2,
      if_neg fun h => hnot 'Z' (by decide) h.2] at h
    exact absurd h (by simp)
  · rintro rfl
    exact absurd (hnone.1.symm.trans h) (by simp)
  · rintro rfl
    exact absurd (hnone.2.symm.trans h) (by simp)

theorem hexPair_eq_some {high low : Char} {n : Nat} : hexPair high low = some n ↔
    ∃ a b, toDigit 16 high = some a ∧ toDigit 16 low = some b ∧ n = 16 * a + b := by
  simp only [hexPair, Option.bind_eq_bind, Option.bind_eq_some_iff, Option.pure_def, Option.some.injEq]
  constructor
  · rintro ⟨a, ha, b, hb, rfl⟩
    exact ⟨a, b, ha, hb, rfl⟩
  · rintro ⟨a, b, ha, hb, rfl⟩
    exact ⟨a, ha, b, hb, rfl⟩

/-- What the code takes for an escape besides: a plus sign and a digit. -/
theorem codePair_eq_some {high low : Char} {n : Nat} : codePair high low = some n ↔
    hexPair high low = some n ∨ (high = '+' ∧ toDigit 16 low = some n) := by
  rw [hexPair_eq_some]
  by_cases hsign : high = '+'
  · subst hsign
    have hnone : toDigit 16 '+' = none := by decide
    cases hlow : toDigit 16 low with
    | none => simp [codePair, fromStrRadix, hnone, hlow]
    | some b =>
      have hb := toDigit_lt hlow
      simp [codePair, fromStrRadix, hnone, hlow]
      omega
  · have hdigits : codePair high low = [high, low].foldlM (fun n c => do
        let digit ← toDigit 16 c
        if n * 16 + digit ≤ 0xFF then some (n * 16 + digit) else none) 0 := by
      unfold codePair fromStrRadix
      split
      · next heq => exact absurd (List.cons.inj heq).1 hsign
      · rfl
    rw [hdigits]
    cases hhigh : toDigit 16 high with
    | none => simp [hhigh, hsign]
    | some a =>
      cases hlow : toDigit 16 low with
      | none => simp [hhigh, hlow, hsign]
      | some b =>
        have ha := toDigit_lt hhigh
        have hb := toDigit_lt hlow
        have hfirst : a ≤ 255 := by omega
        have hboth : a * 16 + b ≤ 255 := by omega
        simp [hhigh, hlow, hsign, hfirst, hboth]
        omega

/-- What is an escape to the code is two ASCII characters, none of them a `%`. -/
theorem codePair_some {high low : Char} {n : Nat} (h : codePair high low = some n) :
    (high.toNat < 0x80 ∧ high ≠ '%') ∧ (low.toNat < 0x80 ∧ low ≠ '%') ∧ n < 0x100 := by
  rcases codePair_eq_some.mp h with hpair | ⟨rfl, hb⟩
  · obtain ⟨a, b, ha, hb, rfl⟩ := hexPair_eq_some.mp hpair
    obtain ⟨hhigh, -, hhigh'⟩ := toDigit_some ha
    obtain ⟨hlow, -, hlow'⟩ := toDigit_some hb
    have := toDigit_lt ha
    have := toDigit_lt hb
    exact ⟨⟨hhigh, hhigh'⟩, ⟨hlow, hlow'⟩, by omega⟩
  · obtain ⟨hlow, -, hlow'⟩ := toDigit_some hb
    have := toDigit_lt hb
    exact ⟨by decide, ⟨hlow, hlow'⟩, by omega⟩

/-! ## 3. The loop decodes the escapes -/

/-- Two bytes that are read as a number are two ASCII characters. -/
theorem ascii_of_pair {x y : UInt8} {n : Nat}
    (h : (fromUtf8 [x, y]).bind (fromStrRadix 16 0xFF) = some n) : x.toNat < 0x80 ∧ y.toNat < 0x80 := by
  obtain ⟨t, ht, hnum⟩ := Option.bind_eq_some_iff.mp h
  have hbytes : encodeUtf8 t = [x, y] := by
    unfold fromUtf8 at ht
    split at ht
    · next heq => rwa [← Option.some.inj ht]
    · exact absurd ht (by simp)
  rcases t with _ | ⟨c, t⟩
  · exact absurd hbytes (by simp [encodeUtf8])
  rw [encodeUtf8_cons] at hbytes
  by_cases hc : c.toNat < 0x80
  · rw [utf8EncodeChar_ascii hc, List.singleton_append] at hbytes
    obtain ⟨hx, hrest⟩ := List.cons.inj hbytes
    rcases t with _ | ⟨d, t⟩
    · exact absurd hrest (by simp [encodeUtf8])
    rw [encodeUtf8_cons] at hrest
    by_cases hd : d.toNat < 0x80
    · rw [utf8EncodeChar_ascii hd, List.singleton_append] at hrest
      obtain ⟨hy, -⟩ := List.cons.inj hrest
      rw [← hx, ← hy, toNat_ofNat_char hc, toNat_ofNat_char hd]
      exact ⟨hc, hd⟩
    · obtain ⟨first, second, rest, heq, -⟩ := utf8EncodeChar_cases (Nat.le_of_not_lt hd)
      rw [heq] at hrest
      exact absurd hrest (by simp)
  · -- a single character of two bytes is no digit
    obtain ⟨first, second, rest, heq, -⟩ := utf8EncodeChar_cases (Nat.le_of_not_lt hc)
    rw [heq] at hbytes
    have htail : rest ++ encodeUtf8 t = [] := by simpa using congrArg (List.drop 2) hbytes
    rcases t with _ | ⟨d, t⟩
    · have hnone : toDigit 16 c = none := by
        cases hdigit : toDigit 16 c with
        | none => rfl
        | some m => exact absurd (toDigit_some hdigit).1 hc
      have hsign : c ≠ '+' := by
        rintro rfl
        exact hc (by decide)
      unfold fromStrRadix at hnum
      split at hnum
      · next heq => exact absurd (List.cons.inj heq).1 hsign
      · simp [hnone] at hnum
    · rw [encodeUtf8_cons] at htail
      have := String.utf8EncodeChar_ne_nil (c := d)
      simp [this] at htail

/-- The bytes behind a `%` are an escape as the characters are. -/
theorem escapedByte_encode (s : List Char) : escapedByte (encodeUtf8 s) =
    match s with
    | high :: low :: _ => (codePair high low).map UInt8.ofNat
    | _ => none := by
  have hnone : ∀ {x y : UInt8} {bytes : List UInt8}, ¬(x.toNat < 0x80 ∧ y.toNat < 0x80) →
      escapedByte (x :: y :: bytes) = none := by
    intro x y bytes hnot
    rw [escapedByte, Option.map_eq_none_iff]
    cases h : (fromUtf8 [x, y]).bind (fromStrRadix 16 0xFF) with
    | none => rfl
    | some n => exact absurd (ascii_of_pair h) hnot
  have hwide : ∀ {c : Char} {t : List Char}, ¬c.toNat < 0x80 →
      escapedByte (encodeUtf8 (c :: t)) = none := by
    intro c t hc
    obtain ⟨first, second, rest, heq, hfirst, -⟩ := utf8EncodeChar_cases (Nat.le_of_not_lt hc)
    rw [encodeUtf8_cons, heq]
    exact hnone (by omega)
  have hpair : ∀ high low, ¬(high.toNat < 0x80 ∧ low.toNat < 0x80) → codePair high low = none := by
    intro high low hnot
    cases h : codePair high low with
    | none => rfl
    | some n => exact absurd ⟨(codePair_some h).1.1, (codePair_some h).2.1.1⟩ hnot
  rcases s with _ | ⟨high, _ | ⟨low, s⟩⟩
  · rfl
  · by_cases hhigh : high.toNat < 0x80
    · rw [encodeUtf8_cons, utf8EncodeChar_ascii hhigh]
      rfl
    · exact hwide hhigh
  · by_cases hhigh : high.toNat < 0x80
    · by_cases hlow : low.toNat < 0x80
      · have hascii : fromUtf8 [UInt8.ofNat high.toNat, UInt8.ofNat low.toNat] = some [high, low] := by
          have hdecode := fromUtf8Lossy_ascii (s := [high, low]) (by simp [hhigh, hlow])
          simp only [List.map_cons, List.map_nil] at hdecode
          rw [fromUtf8, hdecode, if_pos]
          simp [encodeUtf8, utf8EncodeChar_ascii hhigh, utf8EncodeChar_ascii hlow]
        rw [encodeUtf8_cons, encodeUtf8_cons, utf8EncodeChar_ascii hhigh, utf8EncodeChar_ascii hlow]
        simp only [List.cons_append, List.nil_append, escapedByte, hascii, Option.bind_some]
        rfl
      · obtain ⟨first, second, rest, heq, hfirst, -⟩ := utf8EncodeChar_cases (Nat.le_of_not_lt hlow)
        rw [encodeUtf8_cons, encodeUtf8_cons, utf8EncodeChar_ascii hhigh, heq]
        simp only [hpair high low (by omega)]
        exact hnone (by omega)
    · simp only [hpair high low (by omega)]
      exact hwide hhigh

/-- Bytes among which there is no `%` are kept. -/
theorem decodeEscapes_append {bytes : List UInt8} (h : ∀ b ∈ bytes, b ≠ 0x25) (rest : List UInt8) :
    decodeEscapes 0 (bytes ++ rest) = bytes ++ decodeEscapes 0 rest := by
  induction bytes with
  | nil => rfl
  | cons b bytes ih =>
    have hb : b ≠ 0x25 := h b List.mem_cons_self
    rw [List.cons_append, decodeEscapes, if_neg hb, ih fun d hd => h d (List.mem_cons_of_mem b hd)]
    rfl

theorem ne_percent_of_encode {c : Char} (hc : c ≠ '%') : ∀ b ∈ String.utf8EncodeChar c, b ≠ 0x25 := by
  intro b hb heq
  subst heq
  by_cases hascii : c.toNat < 0x80
  · rw [utf8EncodeChar_ascii hascii, List.mem_singleton] at hb
    have := congrArg UInt8.toNat hb
    rw [toNat_ofNat_char hascii] at this
    exact hc (Char.toNat_inj.mp this.symm)
  · obtain ⟨first, second, rest, heq, hfirst, hrest, -⟩ := utf8EncodeChar_cases (Nat.le_of_not_lt hascii)
    rw [heq] at hb
    rcases List.mem_cons.mp hb with rfl | hb
    · exact absurd hfirst (by decide)
    · exact absurd (hrest _ hb) (by decide)

/-- The loop, on characters. -/
theorem decodeEscapes_encode (s : List Char) :
    decodeEscapes 0 (encodeUtf8 s) = octets codePair s := by
  have hpercent : String.utf8EncodeChar '%' = [0x25] := by decide
  fun_induction octets codePair s with
  | case1 high low s n hpair ih =>
    obtain ⟨⟨hhigh, -⟩, ⟨hlow, -⟩, -⟩ := codePair_some hpair
    have hesc := escapedByte_encode (high :: low :: s)
    simp only [hpair] at hesc
    rw [encodeUtf8_cons, hpercent, List.singleton_append, decodeEscapes, if_pos rfl, hesc]
    rw [encodeUtf8_cons, encodeUtf8_cons, utf8EncodeChar_ascii hhigh, utf8EncodeChar_ascii hlow, ← ih]
    rfl
  | case2 high low s hpair ih =>
    have hesc := escapedByte_encode (high :: low :: s)
    simp only [hpair] at hesc
    rw [encodeUtf8_cons, hpercent, List.singleton_append, decodeEscapes, if_pos rfl, hesc]
    exact congrArg _ ih
  | case3 c s hnot ih =>
    by_cases hc : c = '%'
    · subst hc
      have hesc := escapedByte_encode s
      rcases s with _ | ⟨high, _ | ⟨low, s⟩⟩
      · rfl
      · rw [encodeUtf8_cons, hpercent, List.singleton_append, decodeEscapes, if_pos rfl, hesc]
        exact congrArg _ ih
      · exact absurd rfl (hnot high low s rfl)
    · rw [encodeUtf8_cons, decodeEscapes_append (ne_percent_of_encode hc), ih]
  | case4 => rfl

/-! ## 4. Bytes that make a control character -/

def HasControl (s : List Char) : Prop := ∃ c ∈ s, isControl c

/-- A control character of one byte. -/
def isControlByte (n : Nat) : Bool := n < 0x20 || n == 0x7F

/-- The second byte of a control character, behind 0xC2. -/
def isControlTail (n : Nat) : Bool := 0x80 ≤ n && n ≤ 0x9F

/-- A control character begins with the first byte. -/
def beginsControl : List UInt8 → Bool
  | [] => false
  | [b] => isControlByte b.toNat
  | b :: d :: _ => isControlByte b.toNat || (b.toNat == 0xC2 && isControlTail d.toNat)

def makesControl : List UInt8 → Bool
  | [] => false
  | b :: bytes => beginsControl (b :: bytes) || makesControl bytes

theorem beginsControl_continuation {b : UInt8} (h : isContinuation b) (bytes : List UInt8) :
    beginsControl (b :: bytes) = false := by
  simp only [isContinuation, Bool.and_eq_true, decide_eq_true_eq] at h
  cases bytes with
  | nil =>
    simp only [beginsControl, isControlByte, Bool.or_eq_false_iff, decide_eq_false_iff_not,
      beq_eq_false_iff_ne]
    omega
  | cons d bytes =>
    simp only [beginsControl, isControlByte, Bool.or_eq_false_iff, Bool.and_eq_false_iff,
      decide_eq_false_iff_not, beq_eq_false_iff_ne]
    omega

theorem makesControl_continuation {bytes : List UInt8} (h : ∀ b ∈ bytes, isContinuation b)
    (rest : List UInt8) : makesControl (bytes ++ rest) = makesControl rest := by
  induction bytes with
  | nil => rfl
  | cons b bytes ih =>
    have hb : isContinuation b := h b List.mem_cons_self
    rw [List.cons_append, makesControl, beginsControl_continuation hb, Bool.false_or,
      ih fun d hd => h d (List.mem_cons_of_mem b hd)]

/-- The character that is decoded first is a control character if the first bytes say so. -/
theorem isControl_decodeLossy (first : UInt8) (rest : List UInt8) :
    isControl (decodeLossy first rest).1 = beginsControl (first :: rest) := by
  rcases decodeLossy_cases first rest with ⟨hfirst, heq⟩ | ⟨b, rest, hfirst, rfl, hb, heq⟩ |
    ⟨hfirst, hnot, hlow⟩
  · have hvalue : (Char.ofNat first.toNat).toNat = first.toNat := toNat_charOfNat (.inl (by omega))
    rw [heq, isControl, hvalue]
    rw [Bool.eq_iff_iff]
    cases rest with
    | nil => simp [beginsControl, isControlByte]; omega
    | cons d rest => simp [beginsControl, isControlByte]; omega
  · simp only [isContinuation, Bool.and_eq_true, decide_eq_true_eq] at hb
    have hvalue : (Char.ofNat b.toNat).toNat = b.toNat := toNat_charOfNat (.inl (by omega))
    rw [heq, isControl, hvalue, Bool.eq_iff_iff]
    simp [beginsControl, isControlByte, isControlTail, hfirst]
    omega
  · have hnone : isControl (decodeLossy first rest).1 = false := by
      simp only [isControl, Bool.or_eq_false_iff, Bool.and_eq_false_iff, decide_eq_false_iff_not]
      omega
    rw [hnone]
    symm
    cases rest with
    | nil => simp [beginsControl, isControlByte]; omega
    | cons d rest =>
      by_cases hlead : first.toNat = 0xC2
      · have hd := hnot hlead d rest rfl
        simp only [isContinuation, Bool.and_eq_false_iff, decide_eq_false_iff_not] at hd
        simp [beginsControl, isControlByte, isControlTail, hlead]
        omega
      · simp [beginsControl, isControlByte, hlead]
        omega

/-- What is decoded has a control character if some of the bytes make one. -/
theorem hasControl_iff : ∀ (n : Nat) (bytes : List UInt8), bytes.length ≤ n →
    (HasControl (fromUtf8Lossy bytes) ↔ makesControl bytes)
  | _, [], _ => by simp [HasControl, fromUtf8Lossy, lossyFuel, makesControl]
  | n + 1, first :: rest, hn => by
    have hlen : (rest.drop (decodeLossy first rest).2).length ≤ n := by
      simp only [List.length_cons, List.length_drop] at hn ⊢
      omega
    have ih := hasControl_iff n _ hlen
    have hskip : makesControl rest = makesControl (rest.drop (decodeLossy first rest).2) := by
      conv_lhs => rw [← List.take_append_drop (decodeLossy first rest).2 rest]
      exact makesControl_continuation (decodeLossy_skips first rest) _
    rw [fromUtf8Lossy_cons, makesControl, hskip, Bool.or_eq_true, ← ih, ← isControl_decodeLossy]
    simp [HasControl]

/-! ## 5. Escapes that make a control character -/

/-- A text that begins with the escapes of a control character, or with what only the code takes for an
escape. -/
inductive Smuggles : List Char → Prop
  /-- A plus sign and a digit: a number below 16. -/
  | sign {low : Char} {s : List Char} {n : Nat} (hlow : toDigit 16 low = some n) :
    Smuggles ('%' :: '+' :: low :: s)
  | byte {high low : Char} {s : List Char} {n : Nat} (hpair : hexPair high low = some n)
    (hn : isControlByte n) : Smuggles ('%' :: high :: low :: s)
  | twoBytes {high low high' low' : Char} {s : List Char} {n : Nat}
    (hfirst : hexPair high low = some 0xC2) (hsecond : hexPair high' low' = some n)
    (hn : isControlTail n) : Smuggles ('%' :: high :: low :: '%' :: high' :: low' :: s)

/-- Nowhere in this part of a link do such escapes begin. -/
def Clean (part : List Char) : Prop := ∀ s, s <:+ part → ¬Smuggles s

theorem clean_cons {c : Char} {s : List Char} : Clean (c :: s) ↔ ¬Smuggles (c :: s) ∧ Clean s := by
  constructor
  · exact fun h => ⟨h _ (List.suffix_refl _), fun t ht => h t (ht.trans (List.suffix_cons c s))⟩
  · rintro ⟨hc, hs⟩ t ht
    rcases List.suffix_cons_iff.mp ht with rfl | ht
    · exact hc
    · exact hs t ht

theorem not_smuggles_of_ne {c : Char} (hc : c ≠ '%') (s : List Char) : ¬Smuggles (c :: s) := by
  intro h
  cases h <;> exact hc rfl

/-- The second byte of a control character is that of an escape: no character begins with one. -/
theorem head_octets {s : List Char} {b : UInt8} {bytes : List UInt8} (h : octets codePair s = b :: bytes)
    (hb : isControlTail b.toNat) : ∃ high low s' n, s = '%' :: high :: low :: s' ∧
      hexPair high low = some n ∧ n = b.toNat := by
  simp only [isControlTail, Bool.and_eq_true, decide_eq_true_eq] at hb
  revert h
  fun_cases octets codePair s with
  | case1 high low s n hpair =>
    intro h
    have hn := (codePair_some hpair).2.2
    have heq : n = b.toNat := by
      rw [← (List.cons.inj h).1, UInt8.toNat_ofNat_of_lt' hn]
    refine ⟨high, low, s, n, rfl, ?_, heq⟩
    refine (codePair_eq_some.mp hpair).resolve_right fun ⟨_, hlow⟩ => ?_
    have := toDigit_lt hlow
    omega
  | case2 high low s hpair =>
    intro h
    rw [← (List.cons.inj h).1] at hb
    exact absurd hb.1 (by decide)
  | case3 c s hnot =>
    intro h
    by_cases hascii : c.toNat < 0x80
    · rw [utf8EncodeChar_ascii hascii, List.singleton_append] at h
      have hc := toNat_ofNat_char hascii
      rw [(List.cons.inj h).1] at hc
      omega
    · obtain ⟨first, second, rest, heq, hfirst, -⟩ :=
        utf8EncodeChar_cases (Nat.le_of_not_lt hascii)
      rw [heq, List.cons_append] at h
      rw [(List.cons.inj h).1] at hfirst
      omega
  | case4 =>
    intro h
    exact absurd h (by simp)

/-- A character that is no control makes none. -/
theorem makesControl_char {c : Char} (hc : isControl c = false) (bytes : List UInt8) :
    makesControl (String.utf8EncodeChar c ++ bytes) = makesControl bytes := by
  simp only [isControl, Bool.or_eq_false_iff, Bool.and_eq_false_iff, decide_eq_false_iff_not] at hc
  by_cases hascii : c.toNat < 0x80
  · have hbyte := toNat_ofNat_char hascii
    rw [utf8EncodeChar_ascii hascii, List.singleton_append, makesControl]
    have hnone : beginsControl (UInt8.ofNat c.toNat :: bytes) = false := by
      cases bytes with
      | nil => simp [beginsControl, isControlByte, hbyte]; omega
      | cons d bytes => simp [beginsControl, isControlByte, hbyte]; omega
    rw [hnone, Bool.false_or]
  · obtain ⟨first, second, rest, heq, hfirst, hrest, hvalue⟩ :=
      utf8EncodeChar_cases (Nat.le_of_not_lt hascii)
    have hnone : beginsControl (first :: (second :: rest ++ bytes)) = false := by
      by_cases hlead : first.toNat = 0xC2
      · obtain ⟨hsecond, -⟩ := hvalue hlead
        simp [beginsControl, isControlByte, isControlTail, hlead, hsecond]
        omega
      · simp [beginsControl, isControlByte, hlead]
        omega
    rw [heq, List.cons_append, makesControl, hnone, Bool.false_or, makesControl_continuation hrest]

/-- What an escape begins a control character with. -/
theorem beginsControl_escape {high low : Char} {n : Nat} (hpair : codePair high low = some n)
    (s : List Char) : beginsControl (UInt8.ofNat n :: octets codePair s) ↔
      Smuggles ('%' :: high :: low :: s) := by
  have hvalue := UInt8.toNat_ofNat_of_lt' (codePair_some hpair).2.2
  constructor
  · intro hbegins
    have hcases : isControlByte n ∨ (n = 0xC2 ∧ ∃ b bytes, octets codePair s = b :: bytes ∧
        isControlTail b.toNat) := by
      cases hrest : octets codePair s with
      | nil =>
        rw [hrest, beginsControl, hvalue] at hbegins
        exact .inl hbegins
      | cons b bytes =>
        rw [hrest, beginsControl, hvalue, Bool.or_eq_true, Bool.and_eq_true, beq_iff_eq] at hbegins
        exact hbegins.imp_right fun ⟨hn, hb⟩ => ⟨hn, b, bytes, rfl, hb⟩
    rcases codePair_eq_some.mp hpair with hhex | ⟨rfl, hdigit⟩
    · rcases hcases with hn | ⟨rfl, b, bytes, hrest, hb⟩
      · exact .byte hhex hn
      · obtain ⟨high', low', s', m, rfl, hhex', rfl⟩ := head_octets hrest hb
        exact .twoBytes hhex hhex' hb
    · exact .sign hdigit
  · intro hs
    have hsame : ∀ {m}, hexPair high low = some m → n = m := fun hhex =>
      Option.some.inj (hpair.symm.trans (codePair_eq_some.mpr (.inl hhex)))
    have hbyte : isControlByte n → beginsControl (UInt8.ofNat n :: octets codePair s) := by
      intro hn
      cases octets codePair s <;> simp [beginsControl, hvalue, hn]
    cases hs with
    | sign hdigit =>
      have hsome := hpair.symm.trans (codePair_eq_some.mpr (.inr ⟨rfl, hdigit⟩))
      have hlt := toDigit_lt hdigit
      rw [Option.some.inj hsome] at hbyte ⊢
      refine hbyte ?_
      simp only [isControlByte, Bool.or_eq_true, decide_eq_true_eq]
      omega
    | byte hhex hn => exact hbyte (hsame hhex ▸ hn)
    | twoBytes hhex hhex' hn =>
      have hpair' := codePair_eq_some.mpr (.inl hhex')
      have hvalue' := UInt8.toNat_ofNat_of_lt' (codePair_some hpair').2.2
      obtain rfl := hsame hhex
      simp only [octets, hpair', beginsControl, hvalue, hvalue', hn, beq_self_eq_true, Bool.and_self,
        Bool.or_true]

/-- The octets of a part make a control character unless the part is clean. -/
theorem makesControl_octets {s : List Char} (h : ∀ c ∈ s, isControl c = false) :
    makesControl (octets codePair s) ↔ ¬Clean s := by
  fun_induction octets codePair s with
  | case1 high low s n hpair ih =>
    obtain ⟨⟨-, hhigh⟩, ⟨-, hlow⟩, -⟩ := codePair_some hpair
    rw [makesControl, Bool.or_eq_true, beginsControl_escape hpair,
      ih fun d hd => h d (by simp [hd]), clean_cons, clean_cons (c := high), clean_cons (c := low)]
    simp only [not_smuggles_of_ne hhigh, not_smuggles_of_ne hlow, not_false_eq_true, true_and]
    tauto
  | case2 high low s hpair ih =>
    have hsmuggles : ¬Smuggles ('%' :: high :: low :: s) := by
      have hnone : ∀ n, codePair high low ≠ some n := fun n => by simp [hpair]
      intro hs
      cases hs with
      | sign hdigit => exact hnone _ (codePair_eq_some.mpr (.inr ⟨rfl, hdigit⟩))
      | byte hhex _ => exact hnone _ (codePair_eq_some.mpr (.inl hhex))
      | twoBytes hhex _ _ => exact hnone _ (codePair_eq_some.mpr (.inl hhex))
    have hpercent : beginsControl (0x25 :: octets codePair (high :: low :: s)) = false := by
      cases octets codePair (high :: low :: s) <;> rfl
    rw [makesControl, hpercent, Bool.false_or, clean_cons,
      ih fun d hd => h d (List.mem_cons_of_mem _ hd)]
    simp [hsmuggles]
  | case3 c s hnot ih =>
    have hsmuggles : ¬Smuggles (c :: s) := by
      intro hs
      cases hs <;> exact hnot _ _ _ rfl rfl
    rw [makesControl_char (h c List.mem_cons_self), clean_cons,
      ih fun d hd => h d (List.mem_cons_of_mem c hd)]
    simp [hsmuggles]
  | case4 =>
    have hclean : Clean [] := fun t ht hs => by
      rw [List.suffix_nil.mp ht] at hs
      cases hs
    simp [makesControl, hclean]

/-- On a clean part the code decodes what RFC 3986 does. -/
theorem octets_of_clean {s : List Char} (h : Clean s) : octets codePair s = octets hexPair s := by
  fun_induction octets codePair s with
  | case1 high low s n hpair ih =>
    have hhex : hexPair high low = some n := (codePair_eq_some.mp hpair).resolve_right <| by
      rintro ⟨rfl, hdigit⟩
      exact h _ (List.suffix_refl _) (.sign hdigit)
    have hrest : Clean s := (clean_cons.mp (clean_cons.mp (clean_cons.mp h).2).2).2
    rw [ih hrest]
    simp only [octets, hhex]
  | case2 high low s hpair ih =>
    have hhex : hexPair high low = none := by
      cases hhex : hexPair high low with
      | none => rfl
      | some n =>
        rw [codePair_eq_some.mpr (.inl hhex)] at hpair
        exact absurd hpair (by simp)
    rw [ih (clean_cons.mp h).2]
    conv_rhs => rw [octets]
    simp only [hhex]
  | case3 c s hnot ih =>
    rw [ih (clean_cons.mp h).2, octets]
    exact hnot
  | case4 => rfl

/-! ## 6. The parts of a mail link -/

/-- What follows the scheme. -/
def mailtoRest (href : String) : List Char := ((splitOnce ':' (trim href.toList)).map (·.2)).getD []

/-- What stands before the query. -/
def mailtoAddress (href : String) : List Char := (mailtoRest href).takeWhile (· != '?')

/-- The value of a field of the query. -/
def fieldValue (field : List Char) : List Char := (field.dropWhile (· != '=')).drop 1

/-- The first field of the query that is named `subject`, in any letter case, and has a value. -/
def mailtoSubject (href : String) : Option (List Char) :=
  ((split '&' (((mailtoRest href).dropWhile (· != '?')).drop 1)).find? fun field =>
    '=' ∈ field && eqIgnoreAsciiCase (field.takeWhile (· != '=')) "subject".toList).map fieldValue

theorem findSome?_field (p : List Char → Bool) (fields : List (List Char)) :
    (fields.findSome? fun pair => (splitOnce '=' pair).filter fun field => p field.1) =
      (fields.find? fun field => '=' ∈ field && p (field.takeWhile (· != '='))).map fun field =>
        (field.takeWhile (· != '='), fieldValue field) := by
  induction fields with
  | nil => rfl
  | cons field fields ih =>
    rw [List.findSome?_cons, List.find?_cons, ih, splitOnce_eq]
    by_cases hmem : '=' ∈ field
    · cases hname : p (field.takeWhile (· != '=')) with
      | true => simp [hmem, hname, Option.filter, fieldValue]
      | false => simp [hmem, hname, Option.filter]
    · simp [hmem]

theorem mail_eq_mail {rest : List Char} {recipient : String} {subject : Option String}
    (h : mail rest = .mail recipient subject) : recipient = percentDecode (rest.takeWhile (· != '?')) ∧
      subject = (((split '&' ((rest.dropWhile (· != '?')).drop 1)).find? fun field =>
        '=' ∈ field && eqIgnoreAsciiCase (field.takeWhile (· != '=')) "subject".toList).map
          fieldValue).map percentDecode := by
  unfold mail at h
  rw [getD_splitOnce] at h
  simp only at h
  split at h
  · exact absurd h (by simp)
  · rw [findSome?_field fun name => eqIgnoreAsciiCase name "subject".toList] at h
    obtain ⟨hto, hsubject⟩ := LinkAction.mail.inj h
    refine ⟨hto.symm, hsubject.symm.trans ?_⟩
    rw [Option.map_map, Option.map_map]
    rfl

theorem attachment_ne_mail (rest : List Char) (recipient : String) (subject : Option String) :
    attachment rest ≠ .mail recipient subject := by
  unfold attachment
  split
  · next verb n _ =>
    cases parseUsize n with
    | none => split_ifs <;> simp
    | some number => split_ifs <;> simp
  · split_ifs <;> simp

/-- A mail link has no control character in it, and its parts are decoded. -/
theorem classify_mail {href recipient : String} {subject : Option String}
    (h : classify href = .mail recipient subject) :
    (∀ c ∈ mailtoRest href, isControl c = false) ∧ recipient = percentDecode (mailtoAddress href) ∧
      subject = (mailtoSubject href).map percentDecode := by
  simp only [classify] at h
  split at h
  · exact absurd h (by simp)
  · next hplain =>
    split at h
    · exact absurd h (by simp)
    · next scheme rest hsplit =>
      have hrest : mailtoRest href = rest := by
        rw [mailtoRest, hsplit]
        rfl
      have hmem : ∀ c ∈ rest, c ∈ trim href.toList := by
        rw [splitOnce_eq] at hsplit
        split at hsplit
        · obtain ⟨-, hafter⟩ := Prod.mk.inj (Option.some.inj hsplit)
          rw [← hafter]
          exact fun c hc => (List.dropWhile_suffix _).subset (List.mem_of_mem_drop hc)
        · exact absurd hsplit (by simp)
      have hmail : mail rest = .mail recipient subject := by
        split_ifs at h with hweb hmailto hattachment hreconnect
        · exact h
        · exact absurd h (attachment_ne_mail rest recipient subject)
        · cases hparse : parseUsize rest with
          | none => exact absurd h (by simp [hparse])
          | some account => exact absurd h (by simp [hparse])
      obtain ⟨hto, hsubject⟩ := mail_eq_mail hmail
      refine ⟨fun c hc => ?_, ?_, ?_⟩
      · rw [hrest] at hc
        simp only [not_or, List.any_eq_true, not_exists, not_and, Bool.or_eq_true] at hplain
        simpa using (hplain.2 c (hmem c hc)).1
      · rw [mailtoAddress, hrest, hto]
      · rw [mailtoSubject, hrest, hsubject]

/-- What a mail link should give: no control characters, and its parts as RFC 3986 decodes them. -/
structure Faithful (href recipient : String) (subject : Option String) : Prop where
  recipient_plain : ¬HasControl recipient.toList
  subject_plain : ∀ s ∈ subject, ¬HasControl s.toList
  recipient_eq : recipient = rfcDecode (mailtoAddress href)
  subject_eq : subject = (mailtoSubject href).map rfcDecode

/-- A part that is decoded has a control character in it unless it is clean. -/
theorem hasControl_percentDecode {part : List Char} (h : ∀ c ∈ part, isControl c = false) :
    HasControl (percentDecode part).toList ↔ ¬Clean part := by
  rw [percentDecode, String.toList_ofList, hasControl_iff _ _ (Nat.le_refl _), decodeEscapes_encode,
    makesControl_octets h]

theorem percentDecode_of_clean {part : List Char} (h : Clean part) :
    percentDecode part = rfcDecode part := by
  rw [percentDecode, rfcDecode, decodeEscapes_encode, octets_of_clean h]

/-- The parts of a link are of its characters. -/
theorem mem_mailtoSubject {href : String} {value : List Char} (h : mailtoSubject href = some value) :
    ∀ c ∈ value, c ∈ mailtoRest href := by
  obtain ⟨field, hfind, rfl⟩ := Option.map_eq_some_iff.mp h
  have hfield := List.mem_of_find?_eq_some hfind
  intro c hc
  have hin : c ∈ field := (List.dropWhile_suffix _).subset (List.mem_of_mem_drop hc)
  exact (List.dropWhile_suffix _).subset (List.mem_of_mem_drop (mem_of_mem_split hfield hin))

/-- A link that starts a message gives it what RFC 3986 makes of the link, and no control character,
exactly if nothing in it is smuggled.

Part by part: on a clean part the code's decoding is the RFC's (`octets_of_clean`), and on any other it
makes a control character, or takes a sign for a digit. -/
theorem mail_faithful_iff {href recipient : String} {subject : Option String}
    (h : classify href = .mail recipient subject) : Faithful href recipient subject ↔
      Clean (mailtoAddress href) ∧ ∀ value ∈ mailtoSubject href, Clean value := by
  obtain ⟨hplain, rfl, rfl⟩ := classify_mail h
  have haddress : ∀ c ∈ mailtoAddress href, isControl c = false := fun c hc =>
    hplain c ((List.takeWhile_prefix _).subset hc)
  have hsubject : ∀ value ∈ mailtoSubject href, ∀ c ∈ value, isControl c = false :=
    fun value hvalue c hc => hplain c (mem_mailtoSubject hvalue c hc)
  constructor
  · intro hfaithful
    constructor
    · by_contra hclean
      exact hfaithful.recipient_plain ((hasControl_percentDecode haddress).mpr hclean)
    · intro value hvalue
      by_contra hclean
      refine hfaithful.subject_plain (percentDecode value) (Option.mem_map_of_mem _ hvalue) ?_
      exact (hasControl_percentDecode (hsubject value hvalue)).mpr hclean
  · rintro ⟨hclean, hvalues⟩
    refine ⟨?_, ?_, percentDecode_of_clean hclean, ?_⟩
    · exact fun hcontrol => (hasControl_percentDecode haddress).mp hcontrol hclean
    · intro s hs hcontrol
      obtain ⟨value, hvalue, rfl⟩ := Option.map_eq_some_iff.mp hs
      exact (hasControl_percentDecode (hsubject value hvalue)).mp hcontrol (hvalues value hvalue)
    · cases hvalue : mailtoSubject href with
      | none => rfl
      | some value =>
        rw [Option.map_some, Option.map_some, percentDecode_of_clean (hvalues value hvalue)]

theorem clean_of_octets {s : List Char} (hplain : s.all fun c => isControl c = false)
    (h : makesControl (octets codePair s) = false) : Clean s := by
  by_contra hclean
  rw [(makesControl_octets (List.all_iff_forall_prop.mp hplain)).mpr hclean] at h
  exact absurd h (by decide)

theorem mail_faithful_hello : Faithful "mailto:ann%40example.com?cc=x&Subject=Hello%20there"
    "ann@example.com" (some "Hello there") := by
  refine (mail_faithful_iff (by decide)).mpr ⟨?_, ?_⟩
  · exact clean_of_octets (by decide) (by decide)
  · intro value hvalue
    have hsubject : mailtoSubject "mailto:ann%40example.com?cc=x&Subject=Hello%20there" =
        some "Hello%20there".toList := by decide
    rw [← Option.some.inj (hsubject.symm.trans hvalue)]
    exact clean_of_octets (by decide) (by decide)

/-- A line break that is written as an escape comes through. -/
theorem line_break_comes_through : ∃ recipient subject,
    classify "mailto:a@b?subject=x%0D%0ABcc:c@d" = .mail recipient (some subject) ∧
      HasControl subject.toList :=
  ⟨"a@b", "x\r\nBcc:c@d", by decide, '\r', by decide, by decide⟩

end Esmail.Links
