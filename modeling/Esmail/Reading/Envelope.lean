/-
# From an envelope to the text of a header, and back to an address

`parse_envelope_header` of `imap.rs` writes the addresses of an IMAP `ENVELOPE` as text, and
`address_of` reads one back.  The text has no quoting, so what a correspondent puts into the local
part of an address can move the brackets that `address_of` looks for.

`sender_address_iff` is about a message with one sender, whatever its address is: the address that its
images are trusted by is the one in the envelope, or there is none, exactly where the address survives its
text form (`Address.Survives`); and so for what the configuration accepts.  `bracketed_mailbox_trusted` is
a sender who is taken for somebody else.

`address_of` reads one slice of the text (`addressOf_eq`): what stands between the last pair of brackets,
or the whole.  So the question is what the last pair is, of a text that ends in a bracketed address or is
a bare one (`bracketed_format`), and whether what stands in it is an address.

The header parser, which decodes RFC 2047, is a parameter: nothing here depends on what it makes of a
display name.
-/
import Esmail.Library.RustSplit
import Esmail.Library.Utf8
import Esmail.Reading.Reader

namespace Esmail

open RustText

/-! ## 1. The text of a header -/

/-- `imap_proto::Address`, without the route. -/
structure Address where
  name : Option (List UInt8)
  mailbox : Option (List UInt8)
  host : Option (List UInt8)
  deriving DecidableEq, Repr

/-- `imap_proto::Envelope`, as far as it is read; `sender` and `recipient` are `from` and `to`. -/
structure Envelope where
  date : Option (List UInt8) := none
  subject : Option (List UInt8) := none
  sender : Option (List Address) := none
  recipient : Option (List Address) := none
  messageId : Option (List UInt8) := none

/-- `decode_rfc2047`, where `parseHeader` is `mailparse::parse_header` and `get_value`. -/
def decodeRfc2047 (parseHeader : List UInt8 → Option (List Char)) (bytes : List UInt8) :
    List Char :=
  let raw := [88, 58, 32] ++ bytes ++ [10]
  match parseHeader raw with
  | some value => value
  | none => fromUtf8Lossy bytes

/-- A field that may be missing, as text. -/
def lossyOr (field : Option (List UInt8)) : List Char := (field.map fromUtf8Lossy).getD []

/-- The bare address. -/
def Address.mailboxAtHost (a : Address) : List Char :=
  lossyOr a.mailbox ++ '@' :: lossyOr a.host

section Envelopes

variable (parseHeader : List UInt8 → Option (List Char))

/-- One address of `format_address`. -/
def Address.format (a : Address) : List Char :=
  match a.name.map (decodeRfc2047 parseHeader) with
  | some name => name ++ [' ', '<'] ++ a.mailboxAtHost ++ ['>']
  | none => a.mailboxAtHost

/-- `format_address`: every address of the field. -/
def formatAddress (addrs : Option (List Address)) : List Char :=
  (addrs.map fun list => join [',', ' '] (list.map (Address.format parseHeader))).getD []

/-- `parse_envelope_header`. -/
def parseEnvelopeHeader (uid : Nat) (envelope : Envelope) (flags : List String) : MailHeader where
  uid := uid
  subject := String.ofList ((envelope.subject.map (decodeRfc2047 parseHeader)).getD [])
  sender := String.ofList (formatAddress parseHeader envelope.sender)
  recipient := String.ofList (formatAddress parseHeader envelope.recipient)
  date := String.ofList (lossyOr envelope.date)
  messageId := String.ofList (lossyOr envelope.messageId)
  flags := flags

end Envelopes

/-! ## 2. What `address_of` reads -/

/-- Both halves are there. -/
def IsAddress (s : List Char) : Prop :=
  ∃ localPart domain, splitOnce '@' s = some (localPart, domain) ∧ localPart ≠ [] ∧ domain ≠ []

instance (s : List Char) : Decidable (IsAddress s) :=
  decidable_of_iff ((splitOnce '@' s).any fun r => r.1 ≠ [] ∧ r.2 ≠ []) (by
    cases h : splitOnce '@' s with
    | none => simp [IsAddress, h]
    | some r =>
      simp only [Option.any_some, decide_eq_true_eq, IsAddress, h, Option.some.injEq]
      exact ⟨fun hr => ⟨r.1, r.2, rfl, hr⟩, fun ⟨_, _, hr, hne⟩ => by rw [hr]; exact hne⟩)

/-- What stands between the last opening bracket and the last closing one. -/
def bracketed (s : List Char) : Option (List Char) :=
  (rsplitAt '<' s).bind fun r => (rsplitAt '>' r.2).map Prod.fst

/-- The slice that `address_of` takes. -/
def sliceOf (t : List Char) : List Char :=
  match rfind '<' t, rfind '>' t with
  | some opening, some closing =>
    if opening < closing then (t.take closing).drop (opening + 1) else t
  | _, _ => t

/-- It is what is in brackets, or the whole text. -/
theorem sliceOf_eq (t : List Char) : sliceOf t = (bracketed t).getD t := by
  rw [sliceOf]
  rcases rsplitAt_cases '<' t with ⟨hno, hsplit⟩ | ⟨before, after, hafter, rfl, hsplit⟩
  · simp [bracketed, hsplit, rfind_eq_none hno]
  · have hopen : rfind '<' (before ++ '<' :: after) = some before.length :=
      rfind_append before hafter
    rcases rsplitAt_cases '>' after with ⟨hno, hclose⟩ | ⟨inside, behind, hbehind, rfl, hclose⟩
    · have hnone : bracketed (before ++ '<' :: after) = none := by
        simp [bracketed, hsplit, hclose]
      rw [hnone, hopen, Option.getD_none]
      rcases rsplitAt_cases '>' before with ⟨hno', -⟩ | ⟨front, back, hback, rfl, -⟩
      · rw [rfind_eq_none (by simp [hno, hno'])]
      · have hlast : rfind '>' (front ++ '>' :: back ++ '<' :: after) = some front.length := by
          rw [List.append_assoc, List.cons_append]
          exact rfind_append front (by simp [hback, hno])
        rw [hlast]
        exact if_neg (by simp)
    · have hlast : rfind '>' (before ++ '<' :: (inside ++ '>' :: behind)) =
          some (before ++ '<' :: inside).length := by
        rw [show before ++ '<' :: (inside ++ '>' :: behind) =
          (before ++ '<' :: inside) ++ '>' :: behind by simp]
        exact rfind_append _ hbehind
      have hsome : bracketed (before ++ '<' :: (inside ++ '>' :: behind)) = some inside := by
        simp [bracketed, hsplit, hclose]
      rw [hsome, hopen, hlast, Option.getD_some]
      simp only [List.length_append, List.length_cons]
      rw [if_pos (by omega), show before ++ '<' :: (inside ++ '>' :: behind) =
        (before ++ '<' :: inside) ++ '>' :: behind by simp]
      rw [List.take_left' (by simp), show before ++ '<' :: inside = (before ++ ['<']) ++ inside
        by simp]
      exact List.drop_left' (by simp)

/-- `address_of` reads that slice. -/
theorem addressOf_eq (s : List Char) :
    MailHeader.addressOf s =
      if IsAddress (trim ((bracketed (trim s)).getD (trim s))) then
        some ((trim ((bracketed (trim s)).getD (trim s))).map toAsciiLowercase)
      else none := by
  have hslice : MailHeader.addressOf s = (splitOnce '@' (trim (sliceOf (trim s)))).bind fun r =>
      if r.1 ≠ [] ∧ r.2 ≠ [] then some ((trim (sliceOf (trim s))).map toAsciiLowercase) else none := by
    unfold MailHeader.addressOf
    simp only
    split
    · next hsplit =>
      have hnone : splitOnce '@' (trim (sliceOf (trim s))) = none := hsplit
      rw [hnone]
      rfl
    · next localPart domain hsplit =>
      have hsome : splitOnce '@' (trim (sliceOf (trim s))) = some (localPart, domain) := hsplit
      rw [hsome]
      rfl
  rw [hslice, sliceOf_eq]
  generalize trim ((bracketed (trim s)).getD (trim s)) = addr
  cases hsplit : splitOnce '@' addr with
  | none => simp [IsAddress, hsplit]
  | some r =>
    by_cases hne : r.1 ≠ [] ∧ r.2 ≠ []
    · have his : IsAddress addr := ⟨r.1, r.2, hsplit, hne⟩
      rw [if_pos his]
      exact if_pos hne
    · have hisnt : ¬ IsAddress addr := by
        rintro ⟨l, d, hld, hboth⟩
        rw [hsplit] at hld
        obtain rfl := Option.some.inj hld
        exact hne hboth
      rw [if_neg hisnt]
      exact if_neg hne

/-! ## 3. Reading back what was written -/

/-- The part of the text that `address_of` reads as the address: what follows the last opening
bracket in it where the brackets are the program's own, and what is in brackets of its own, or all
of it, where they are not. -/
def Address.shown (a : Address) : List Char :=
  match a.name with
  | some _ => ((rsplitAt '<' a.mailboxAtHost).map Prod.snd).getD a.mailboxAtHost
  | none => (bracketed (trim a.mailboxAtHost)).getD a.mailboxAtHost

/-- The last pair of brackets around a text. -/
theorem bracketed_format (before s : List Char) :
    bracketed (before ++ '<' :: (s ++ ['>'])) =
      some (((rsplitAt '<' s).map Prod.snd).getD s) := by
  rcases rsplitAt_cases '<' s with ⟨hno, hsplit⟩ | ⟨front, after, hafter, rfl, hsplit⟩
  · rw [bracketed, rsplitAt_append before (by simp [hno]), hsplit]
    exact congrArg (Option.map Prod.fst) (rsplitAt_append s (by simp))
  · rw [show before ++ '<' :: ((front ++ '<' :: after) ++ ['>']) =
      (before ++ '<' :: front) ++ '<' :: (after ++ ['>']) by simp, bracketed,
      rsplitAt_append _ (by simp [hafter]), hsplit]
    exact congrArg (Option.map Prod.fst) (rsplitAt_append after (by simp))

/-- Brackets are not white space. -/
theorem trim_bracketed (front s : List Char) :
    ∃ before, trim (front ++ '<' :: (s ++ ['>'])) = before ++ '<' :: (s ++ ['>']) ∧
      before <:+ front := by
  refine trim_append (by simp) ?_ ?_
  · rintro c ⟨⟩
    decide
  · intro c hc
    rw [← List.cons_append, List.getLast?_append] at hc
    cases hc
    decide

theorem addressOf_format (parseHeader : List UInt8 → Option (List Char)) (a : Address) :
    MailHeader.addressOf (a.format parseHeader) =
      if IsAddress (trim a.shown) then some ((trim a.shown).map toAsciiLowercase) else none := by
  rw [addressOf_eq, Address.shown, Address.format]
  cases hname : a.name with
  | some name =>
    obtain ⟨before, htrim, -⟩ :=
      trim_bracketed (decodeRfc2047 parseHeader name ++ [' ']) a.mailboxAtHost
    have htext : decodeRfc2047 parseHeader name ++ [' ', '<'] ++ a.mailboxAtHost ++ ['>'] =
        decodeRfc2047 parseHeader name ++ [' '] ++ '<' :: (a.mailboxAtHost ++ ['>']) := by simp
    simp only [Option.map_some, htext, htrim, bracketed_format, Option.getD_some]
  | none =>
    have hsame : trim ((bracketed (trim a.mailboxAtHost)).getD (trim a.mailboxAtHost)) =
        trim ((bracketed (trim a.mailboxAtHost)).getD a.mailboxAtHost) := by
      cases bracketed (trim a.mailboxAtHost) with
      | none => exact trim_trim _
      | some inside => rfl
    simp only [Option.map_none, hsame]

theorem trim_sublist (s : List Char) : (trim s).Sublist s := by
  obtain ⟨before, after, hs, -⟩ := trim_split s
  conv_rhs => rw [hs]
  exact (List.sublist_append_right _ _).trans (List.sublist_append_left _ _)

theorem bracketed_sublist {s inside : List Char} (h : bracketed s = some inside) :
    inside.Sublist s ∧ inside.length < s.length := by
  rcases rsplitAt_cases '<' s with ⟨-, hsplit⟩ | ⟨before, after, -, rfl, hsplit⟩
  · simp [bracketed, hsplit] at h
  · rcases rsplitAt_cases '>' after with ⟨-, hclose⟩ | ⟨front, behind, -, rfl, hclose⟩
    · simp [bracketed, hsplit, hclose] at h
    · obtain rfl : front = inside := by simpa [bracketed, hsplit, hclose] using h
      refine ⟨?_, by simp; omega⟩
      exact (List.sublist_append_left _ _).trans
        ((List.sublist_cons_self _ _).trans (List.sublist_append_right _ _))

theorem Address.shown_sublist (a : Address) : (trim a.shown).Sublist a.mailboxAtHost := by
  refine (trim_sublist _).trans ?_
  rw [Address.shown]
  cases a.name with
  | some name =>
    rcases rsplitAt_cases '<' a.mailboxAtHost with ⟨-, hsplit⟩ | ⟨front, after, -, hs, hsplit⟩
    · simp [hsplit]
    · simp only [hsplit, Option.map_some, Option.getD_some]
      rw [hs]
      exact (List.sublist_cons_self _ _).trans (List.sublist_append_right _ _)
  | none =>
    cases hin : bracketed (trim a.mailboxAtHost) with
    | none => exact List.Sublist.refl _
    | some inside => exact (bracketed_sublist hin).1.trans (trim_sublist _)

/-- The address is read back whole. -/
def Address.Whole (a : Address) : Prop :=
  trim a.mailboxAtHost = a.mailboxAtHost ∧
    match a.name with
    | some _ => '<' ∉ a.mailboxAtHost
    | none => bracketed a.mailboxAtHost = none

theorem Address.shown_eq_iff (a : Address) : trim a.shown = a.mailboxAtHost ↔ a.Whole := by
  have hle := (trim_sublist a.shown).length_le
  have hlt : ∀ {x : List Char}, x.length < a.mailboxAtHost.length → (trim x).length <
      a.mailboxAtHost.length := fun {x} h => Nat.lt_of_le_of_lt (trim_sublist x).length_le h
  rw [Address.Whole]
  cases hname : a.name with
  | some name =>
    rcases rsplitAt_cases '<' a.mailboxAtHost with ⟨hno, hsplit⟩ | ⟨front, after, -, hs, hsplit⟩
    · simp [Address.shown, hname, hsplit, hno]
    · refine ⟨fun h => ?_, fun h => absurd (by rw [hs]; simp) h.2⟩
      have hshort : (trim after).length < a.mailboxAtHost.length := hlt (by rw [hs]; simp; omega)
      rw [Address.shown, hname] at h
      simp only [hsplit, Option.map_some, Option.getD_some] at h
      rw [h] at hshort
      exact absurd hshort (Nat.lt_irrefl _)
  | none =>
    refine ⟨fun h => ?_, fun ⟨htrim, hin⟩ => ?_⟩
    · rw [Address.shown, hname] at h
      simp only at h
      cases hin : bracketed (trim a.mailboxAtHost) with
      | none =>
        have htrim : trim a.mailboxAtHost = a.mailboxAtHost := by
          rw [hin] at h
          exact h
        rw [htrim] at hin
        exact ⟨htrim, hin⟩
      | some inside =>
        rw [hin, Option.getD_some] at h
        have hshort : (trim inside).length < a.mailboxAtHost.length :=
          hlt (Nat.lt_of_lt_of_le (bracketed_sublist hin).2 (trim_sublist _).length_le)
        rw [h] at hshort
        exact absurd hshort (Nat.lt_irrefl _)
    · simp only [Address.shown, hname, htrim, hin, Option.getD_none]

/-! ## 4. Whose images load -/

/-- `address_of` reads back the address that was written, or none: the address is whole in what is
read, or what is read is no address. -/
def Address.Survives (a : Address) : Prop :=
  a.Whole ∨ ¬ IsAddress (trim a.shown)

theorem addressOf_format_iff (parseHeader : List UInt8 → Option (List Char)) (a : Address) :
    (MailHeader.addressOf (a.format parseHeader) = none ∨
      MailHeader.addressOf (a.format parseHeader) = some (a.mailboxAtHost.map toAsciiLowercase)) ↔
    a.Survives := by
  rw [addressOf_format, Address.Survives, ← a.shown_eq_iff]
  by_cases his : IsAddress (trim a.shown)
  · rw [if_pos his]
    refine ⟨fun h => .inl ?_, fun h => .inr ?_⟩
    · have hmap : (trim a.shown).map toAsciiLowercase = a.mailboxAtHost.map toAsciiLowercase := by
        rcases h with h | h
        · cases h
        · exact Option.some.inj h
      -- lower case keeps the length, and what is read is a part of what was written
      exact a.shown_sublist.eq_of_length (by simpa using congrArg List.length hmap)
    · rw [h.resolve_right (not_not.mpr his)]
  · simp [his]

theorem toAsciiLowercase_idem (c : Char) :
    toAsciiLowercase (toAsciiLowercase c) = toAsciiLowercase c := by
  by_cases h : 'A' ≤ c ∧ c ≤ 'Z'
  · have hvalid : (c.toNat + 32).isValidChar := by
      have hz : c.toNat ≤ 90 := UInt32.le_iff_toNat_le.mp h.2
      exact .inl (by omega)
    have hlow : ¬ Char.ofNat (c.toNat + 32) ≤ 'Z' := by
      intro hle
      have ha : 65 ≤ c.toNat := UInt32.le_iff_toNat_le.mp h.1
      have hle' : (Char.ofNat (c.toNat + 32)).toNat ≤ 90 := UInt32.le_iff_toNat_le.mp hle
      have hnat : (Char.ofNat (c.toNat + 32)).toNat = c.toNat + 32 := by
        rw [Char.ofNat, dif_pos hvalid]
        rfl
      omega
    rw [toAsciiLowercase, toAsciiLowercase, if_pos h, if_neg fun h' => hlow h'.2]
  · rw [toAsciiLowercase, if_neg (by rwa [toAsciiLowercase, if_neg h])]

/-- The trusted senders accept only the address written, exactly where nothing else is read. -/
theorem senderTrusted_iff (h : MailHeader) (address : List Char) :
    (∀ c : Config, senderTrusted c h = true → c.isImageTrusted address = true) ↔
      h.senderAddress = none ∨ h.senderAddress = some (address.map toAsciiLowercase) := by
  have hlower : (address.map toAsciiLowercase).map toAsciiLowercase =
      address.map toAsciiLowercase := by
    rw [List.map_map]
    exact List.map_congr_left fun c _ => toAsciiLowercase_idem c
  refine ⟨fun htrust => ?_, ?_⟩
  · cases hread : h.senderAddress with
    | none => exact .inl rfl
    | some read =>
      -- the configuration that trusts what is read and nothing else
      have hself : read.map toAsciiLowercase = read := by
        rw [MailHeader.senderAddress, addressOf_eq] at hread
        split at hread
        · obtain rfl := Option.some.inj hread
          rw [List.map_map]
          exact List.map_congr_left fun c _ => toAsciiLowercase_idem c
        · cases hread
      have := htrust ⟨[read]⟩ (by simp [senderTrusted, hread, Config.isImageTrusted, hself])
      refine .inr ?_
      simpa [Config.isImageTrusted, eq_comm] using this
  · rintro (hread | hread) c hc
    · simp [senderTrusted, hread] at hc
    · rw [senderTrusted, hread] at hc
      simp only [Config.isImageTrusted, hlower] at hc ⊢
      exact hc

/-- The address a message's images are trusted by is the one in its envelope, or there is none,
exactly where the address survives its text form; and so for what the configuration accepts.

The second part says it of every list of trusted senders: if another address is read, there is a list that
trusts that one and not the sender. -/
theorem sender_address_iff (parseHeader : List UInt8 → Option (List Char)) (uid : Nat)
    (envelope : Envelope) (flags : List String) (a : Address) (hfrom : envelope.sender = some [a]) :
    let h := parseEnvelopeHeader parseHeader uid envelope flags
    ((h.senderAddress = none ∨
        h.senderAddress = some (a.mailboxAtHost.map toAsciiLowercase)) ↔ a.Survives) ∧
      ((∀ c : Config, senderTrusted c h = true → c.isImageTrusted a.mailboxAtHost = true) ↔
        a.Survives) := by
  intro h
  have htext : h.senderAddress = MailHeader.addressOf (a.format parseHeader) := by
    simp [h, parseEnvelopeHeader, hfrom, formatAddress, join, MailHeader.senderAddress]
  have hread : (h.senderAddress = none ∨
      h.senderAddress = some (a.mailboxAtHost.map toAsciiLowercase)) ↔ a.Survives := by
    rw [htext]
    exact addressOf_format_iff parseHeader a
  exact ⟨hread, (senderTrusted_iff h a.mailboxAtHost).trans hread⟩

/-- The bytes of a text of one-byte characters. -/
def asciiBytes (s : String) : List UInt8 := s.toList.map fun c => UInt8.ofNat c.toNat

/-- Bob, with a display name. -/
def bobNamed : Address := ⟨some (asciiBytes "Bob"), some (asciiBytes "Bob"), some (asciiBytes "x.org")⟩

theorem bobNamed_survives : bobNamed.Survives :=
  .inl ⟨by decide, show '<' ∉ bobNamed.mailboxAtHost by decide⟩

theorem sender_address_iff_bob :
    let h := parseEnvelopeHeader (fun _ => none) 1 { sender := some [bobNamed] } []
    h.senderAddress = none ∨ h.senderAddress = some "bob@x.org".toList := by
  intro h
  have hread := (sender_address_iff (fun _ => none) 1 { sender := some [bobNamed] } [] bobNamed
    rfl).1.mpr bobNamed_survives
  have hlower : bobNamed.mailboxAtHost.map toAsciiLowercase = "bob@x.org".toList := by
    decide
  rwa [hlower] at hread

/-- A sender without a display name, whose local part is someone else's address in brackets. -/
def bracketedMailbox : Address :=
  ⟨none, some (asciiBytes "<trusted@good.com>"), some (asciiBytes "evil.com")⟩

/-- Its images load wherever those of the other address do. -/
theorem bracketed_mailbox_trusted :
    let h := parseEnvelopeHeader (fun _ => none) 1 { sender := some [bracketedMailbox] } []
    h.senderAddress = some "trusted@good.com".toList ∧
      senderTrusted ⟨["trusted@good.com".toList]⟩ h = true ∧
      ¬ (h.senderAddress = none ∨
        h.senderAddress = some (bracketedMailbox.mailboxAtHost.map toAsciiLowercase)) ∧
      ¬ ∀ c : Config, senderTrusted c h = true →
        c.isImageTrusted bracketedMailbox.mailboxAtHost = true := by
  intro h
  have hread : h.senderAddress = some "trusted@good.com".toList := by decide
  have hother : bracketedMailbox.mailboxAtHost.map toAsciiLowercase ≠ "trusted@good.com".toList := by
    decide
  have hnot : ¬ (h.senderAddress = none ∨
      h.senderAddress = some (bracketedMailbox.mailboxAtHost.map toAsciiLowercase)) := by
    rw [hread]
    rintro (hnone | hsome)
    · cases hnone
    · exact hother (Option.some.inj hsome).symm
  exact ⟨hread, by decide, hnot, fun htrust => hnot ((senderTrusted_iff h _).mp htrust)⟩

end Esmail
