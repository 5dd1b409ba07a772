/-
# Replies, and whom they go to

`ComposeState::reply`, `reply_all` and `forward` of `compose.rs`, and the split of a recipient field that
`smtp.rs` makes once more before it sends.  A field is text: the addresses of an envelope, written
one after another with commas between them, and split at every comma again.

* `recipients_survive_iff`: the sender and the recipients of a message come through its text, a reply and
  the split before it is sent as one entry each, exactly where every address keeps together (`Separable`);
* `reply_all_cc`: where no address has a comma in it, Reply-All copies to those whose text does not
  contain one's own address, in their order.  That is a substring of the text and no comparison of
  addresses, so it drops too much for some and too little for others (`reply_all_substring`).

Both go by the split of a join.  The entries of a field are those of its addresses
(`commaSeparated_formatAddress`); an address gives one entry or more, and one that names it just where it
keeps together (`separable_iff`); and as none gives no entry, the whole field gives one for each only
where each address does (`entries_iff`).

The HTML cleaner that makes the quoted body plain is a parameter, and so is how a display name is decoded.
-/
import Esmail.Outgoing.Message
import Esmail.Reading.Envelope
import Mathlib.Data.List.Infix

namespace Esmail

open RustText

/-! ## 1. Fields of addresses -/

/-- The entries of a comma-separated field, without the white space around them and without those
that are empty. -/
def commaSeparated (field : List Char) : List (List Char) :=
  ((split ',' field).map trim).filter (· ≠ [])

/-- `split_addresses` of `smtp.rs`. -/
def Smtp.splitAddresses (field : List Char) : List (List Char) := commaSeparated field

namespace Compose

/-- `split_addresses` of `compose.rs`. -/
def splitAddresses (field : List Char) : List (List Char) := commaSeparated field

/-- `addresses_match`. -/
def addressesMatch (address myAddress : List Char) : Bool :=
  !myAddress.isEmpty && containsText address myAddress

/-! ## 2. Replies -/

/-- `ComposeState`, with the headers that tie a reply to its thread. -/
structure Draft where
  text : Text
  inReplyTo : Option String
  references : Option String
  accountId : Option AccountId := none
  draftId : Option Row := none
  deriving DecidableEq, Repr

/-- `add_prefix`: a subject that begins with it, in any letter case, keeps to one. -/
def addPrefix (subject label : String) : String :=
  let head := (subject.toList.dropWhile isWhitespace).take label.length
  if eqIgnoreAsciiCase head label.toList then subject else label ++ " " ++ subject

def nonEmpty (s : String) : Option String := if s = "" then none else some s

section Replies

variable (plainText : String → String)

/-- `quote_original`, where `plainText` is `ammonia`'s cleaner without any tag. -/
def quoteOriginal (original : MailHeader) (originalBodyHtml : String) : String :=
  let quotedLines := (lines (plainText originalBodyHtml).toList).map (['>', ' '] ++ ·)
  "\n\nOn " ++ original.date ++ ", " ++ original.sender ++ " wrote:\n" ++
    String.ofList (join ['\n'] quotedLines)

/-- `from_original`. -/
def fromOriginal (original : MailHeader) (originalBodyHtml : String) (cc : String) : Draft where
  text :=
    { recipient := original.sender
      cc := cc
      subject := addPrefix original.subject "Re:"
      body := quoteOriginal plainText original originalBodyHtml }
  inReplyTo := nonEmpty original.messageId
  references := nonEmpty original.messageId

/-- `ComposeState::reply`. -/
def reply (original : MailHeader) (originalBodyHtml : String) : Draft :=
  fromOriginal plainText original originalBodyHtml ""

/-- `ComposeState::reply_all`. -/
def replyAll (original : MailHeader) (originalBodyHtml : String) (myAddress : String) : Draft :=
  let cc := join [',', ' '] ((splitAddresses original.recipient.toList).filter
    fun addr => !addressesMatch addr myAddress.toList)
  fromOriginal plainText original originalBodyHtml (String.ofList cc)

/-- `ComposeState::forward`: it goes to nobody yet, and replies to nothing. -/
def forward (original : MailHeader) (originalBodyHtml : String) : Draft where
  text :=
    { recipient := ""
      subject := addPrefix original.subject "Fwd:"
      body := quoteOriginal plainText original originalBodyHtml }
  inReplyTo := none
  references := none

end Replies

end Compose

/-! ## 3. Splitting what was joined -/

theorem commaSeparated_append (a b : List Char) :
    commaSeparated (a ++ ',' :: b) = commaSeparated a ++ commaSeparated b := by
  simp [commaSeparated, split_append]

theorem commaSeparated_space (s : List Char) :
    commaSeparated (' ' :: s) = commaSeparated s := by
  obtain ⟨first, rest, hsplit, hcons⟩ := split_cons (c := ',') (x := ' ') (by decide) s
  simp [commaSeparated, hsplit, hcons, trim_cons (show isWhitespace ' ' = true by decide)]

theorem commaSeparated_join : ∀ pieces : List (List Char),
    commaSeparated (join [',', ' '] pieces) = pieces.flatMap commaSeparated
  | [] => by decide
  | [piece] => by simp [join]
  | piece :: next :: pieces => by
    have ih := commaSeparated_join (next :: pieces)
    rw [join] at ih
    rw [join, List.intercalate_cons_cons, List.append_assoc]
    simp only [List.cons_append, List.nil_append, commaSeparated_append, commaSeparated_space, ih]
    rfl

/-- An entry that has no comma, and is neither empty nor has white space at its ends. -/
theorem commaSeparated_entry {s : List Char} (hcomma : ',' ∉ s) (hne : trim s ≠ []) :
    commaSeparated s = [trim s] := by
  simp [commaSeparated, split_self hcomma, hne]

/-- What is split off a field is such an entry. -/
theorem entry_of_mem {field s : List Char} (h : s ∈ commaSeparated field) :
    ',' ∉ s ∧ trim s = s ∧ s ≠ [] := by
  obtain ⟨hmem, hne⟩ := List.mem_filter.mp h
  obtain ⟨piece, hpiece, rfl⟩ := List.mem_map.mp hmem
  exact ⟨fun hc => not_mem_split hpiece ((trim_sublist piece).subset hc), trim_trim piece,
    by simpa using hne⟩

/-- So joining some of them and splitting again changes nothing. -/
theorem commaSeparated_join_filter (field : List Char) (p : List Char → Bool) :
    commaSeparated (join [',', ' '] ((commaSeparated field).filter p)) =
      (commaSeparated field).filter p := by
  have hentries : ∀ entries : List (List Char), (∀ s ∈ entries, ',' ∉ s ∧ trim s = s ∧ s ≠ []) →
      entries.flatMap commaSeparated = entries := by
    intro entries hall
    induction entries with
    | nil => rfl
    | cons s entries ih =>
      obtain ⟨hcomma, htrim, hne⟩ := hall s List.mem_cons_self
      rw [List.flatMap_cons, ih fun x hx => hall x (List.mem_cons_of_mem s hx),
        commaSeparated_entry hcomma (by rwa [htrim]), htrim]
      rfl
  rw [commaSeparated_join]
  exact hentries _ fun s hs => entry_of_mem (List.mem_filter.mp hs).1

/-! ## 4. One entry for each address -/

/-- An entry of a field names the address: in brackets of the program's own, or alone. -/
def Carries (entry : List Char) (a : Address) : Prop :=
  match a.name with
  | some _ => ∃ before, entry = before ++ '<' :: (a.mailboxAtHost ++ ['>'])
  | none => entry = a.mailboxAtHost

/-- The address keeps together in a field: there is no comma in it, nothing but white space before
the commas of its name, and no white space at its ends where it has none. -/
def Separable (parseHeader : List UInt8 → Option (List Char)) (a : Address) : Prop :=
  ',' ∉ a.mailboxAtHost ∧
    match a.name.map (decodeRfc2047 parseHeader) with
    | some name => ∀ piece ∈ (split ',' name).dropLast, trim piece = []
    | none => trim a.mailboxAtHost = a.mailboxAtHost

section Entries

variable {parseHeader : List UInt8 → Option (List Char)}

/-- The sign between mailbox and host is in every text of an address. -/
theorem at_mem_format (a : Address) : '@' ∈ a.format parseHeader := by
  rw [Address.format]
  split <;> simp [Address.mailboxAtHost]

theorem trim_ne_nil {s : List Char} {c : Char} (hc : c ∈ s) (hsolid : isWhitespace c = false) :
    trim s ≠ [] := by
  intro hnil
  rw [trim_eq_nil.mp hnil c hc] at hsolid
  cases hsolid

theorem commaSeparated_format_ne_nil (a : Address) : commaSeparated (a.format parseHeader) ≠ [] := by
  have hat : '@' ∈ a.format parseHeader := at_mem_format a
  obtain ⟨piece, hpiece, hmem⟩ := mem_split (show '@' ≠ ',' by decide) hat
  refine List.ne_nil_of_mem (a := trim piece) (List.mem_filter.mpr ⟨List.mem_map_of_mem hpiece, ?_⟩)
  simpa using trim_ne_nil hmem (by decide)

/-- An address with a name: what stands before the last comma of the name makes entries of its own. -/
theorem commaSeparated_named (name : List Char) {address : List Char} (hcomma : ',' ∉ address) :
    ∃ before, commaSeparated (name ++ [' ', '<'] ++ address ++ ['>']) =
      ((split ',' name).dropLast.map trim).filter (· ≠ []) ++
        [before ++ '<' :: (address ++ ['>'])] := by
  obtain ⟨init, last, hsplit, happend⟩ := split_append_last (c := ',') name
  obtain ⟨before, htrim, -⟩ := trim_bracketed (last ++ [' ']) address
  have htext : name ++ [' ', '<'] ++ address ++ ['>'] =
      name ++ (' ' :: '<' :: (address ++ ['>'])) := by simp
  have hlast : trim (last ++ (' ' :: '<' :: (address ++ ['>']))) =
      before ++ '<' :: (address ++ ['>']) := by simpa using htrim
  refine ⟨before, ?_⟩
  rw [commaSeparated, htext, happend _ (by simp [hcomma]), List.map_append, List.filter_append,
    hsplit, List.dropLast_concat, List.map_singleton, hlast]
  simp

/-- One address is one entry that names it, exactly where it keeps together. -/
theorem separable_iff (a : Address) :
    (∃ entry, commaSeparated (a.format parseHeader) = [entry] ∧ Carries entry a) ↔
      Separable parseHeader a := by
  have hat : trim a.mailboxAtHost ≠ [] :=
    trim_ne_nil (c := '@') (by simp [Address.mailboxAtHost]) (by decide)
  rw [Separable, Address.format]
  cases hname : a.name with
  | none =>
    simp only [Option.map_none, Carries, hname]
    refine ⟨?_, fun h => ⟨_, commaSeparated_entry h.1 hat, h.2⟩⟩
    rintro ⟨entry, hone, rfl⟩
    have hmem : a.mailboxAtHost ∈ commaSeparated a.mailboxAtHost := by
      rw [hone]
      exact List.mem_singleton_self _
    obtain ⟨hcomma, htrim, -⟩ := entry_of_mem hmem
    exact ⟨hcomma, htrim⟩
  | some bytes =>
    simp only [Option.map_some, Carries, hname]
    generalize decodeRfc2047 parseHeader bytes = name
    constructor
    · rintro ⟨entry, hone, before, rfl⟩
      have hin := entry_of_mem (hone ▸ List.mem_singleton_self _)
      have hcomma : ',' ∉ a.mailboxAtHost := fun hmem => hin.1 (by simp [hmem])
      obtain ⟨before', hsplit⟩ := commaSeparated_named name hcomma
      rw [hone] at hsplit
      have hnil : ((split ',' name).dropLast.map trim).filter (· ≠ []) = [] := by
        have hlen := congrArg List.length hsplit
        simp only [List.length_append, List.length_singleton] at hlen
        exact List.length_eq_zero_iff.mp (by omega)
      refine ⟨hcomma, fun piece hpiece => ?_⟩
      simpa using List.filter_eq_nil_iff.mp hnil (trim piece) (List.mem_map_of_mem hpiece)
    · rintro ⟨hcomma, hblank⟩
      obtain ⟨before, hsplit⟩ := commaSeparated_named name hcomma
      have hnil : ((split ',' name).dropLast.map trim).filter (· ≠ []) = [] := by
        rw [List.filter_eq_nil_iff]
        intro x hx
        obtain ⟨piece, hpiece, rfl⟩ := List.mem_map.mp hx
        simp [hblank piece hpiece]
      exact ⟨_, by rw [hsplit, hnil, List.nil_append], before, rfl⟩

/-- Lists of entries, none of them empty, that together match a list one to one do so part by
part. -/
theorem forall₂_flatMap {α β : Type} {R : β → α → Prop} {f : α → List β} :
    ∀ {l : List α}, (∀ a ∈ l, f a ≠ []) →
      (List.Forall₂ R (l.flatMap f) l ↔ ∀ a ∈ l, ∃ b, f a = [b] ∧ R b a)
  | [], _ => by simp
  | a :: l, hne => by
    have hrest : ∀ x ∈ l, f x ≠ [] := fun x hx => hne x (List.mem_cons_of_mem a hx)
    have ih := forall₂_flatMap (R := R) hrest
    have hlen : l.length ≤ (l.flatMap f).length := by
      clear ih hne
      induction l with
      | nil => simp
      | cons x l ih =>
        have hx := List.length_pos_iff.mpr (hrest x List.mem_cons_self)
        have := ih fun y hy => hrest y (List.mem_cons_of_mem x hy)
        simp only [List.flatMap_cons, List.length_append, List.length_cons]
        omega
    rw [List.flatMap_cons, List.forall_mem_cons]
    refine ⟨fun hall => ?_, ?_⟩
    · rcases hfa : f a with - | ⟨b, bs⟩
      · exact absurd hfa (hne a List.mem_cons_self)
      · rw [hfa] at hall
        obtain ⟨hb, hall⟩ := List.forall₂_cons.mp hall
        have hbs : bs = [] := by
          have hsame : (bs ++ l.flatMap f).length = l.length := hall.length_eq
          rw [List.length_append] at hsame
          exact List.length_eq_zero_iff.mp (by omega)
        subst hbs
        exact ⟨⟨b, rfl, hb⟩, ih.mp hall⟩
    · rintro ⟨⟨b, hb, hR⟩, hall⟩
      rw [hb]
      exact List.Forall₂.cons hR (ih.mpr hall)

/-- The entries of a field are those of its addresses. -/
theorem commaSeparated_formatAddress (addrs : Option (List Address)) :
    commaSeparated (formatAddress parseHeader addrs) =
      (addrs.getD []).flatMap fun a => commaSeparated (a.format parseHeader) := by
  cases addrs with
  | none => exact show commaSeparated [] = [] by decide
  | some list =>
    simp only [formatAddress, Option.map_some, Option.getD_some, commaSeparated_join,
      List.flatMap_map]

/-- A field gives back one entry for each address, exactly where all of them keep together. -/
theorem entries_iff (addrs : Option (List Address)) :
    List.Forall₂ Carries (commaSeparated (formatAddress parseHeader addrs)) (addrs.getD []) ↔
      ∀ a ∈ addrs.getD [], Separable parseHeader a := by
  rw [commaSeparated_formatAddress, forall₂_flatMap fun a _ => commaSeparated_format_ne_nil a]
  exact forall₂_congr fun a _ => separable_iff a

end Entries

/-! ## 5. Whom a reply goes to -/

/-- The sender and the recipients of a message come through its text, a reply and the split before
it is sent as one entry each, exactly where they keep together; and Reply-All's copies are entries
of the recipients' field. -/
theorem recipients_survive_iff (parseHeader : List UInt8 → Option (List Char))
    (plainText : String → String) (uid : Nat) (envelope : Envelope) (flags : List String)
    (html myAddress : String) :
    let h := parseEnvelopeHeader parseHeader uid envelope flags
    (List.Forall₂ Carries
        (Smtp.splitAddresses (Compose.reply plainText h html).text.recipient.toList)
        (envelope.sender.getD []) ↔ ∀ a ∈ envelope.sender.getD [], Separable parseHeader a) ∧
      (List.Forall₂ Carries (Compose.splitAddresses h.recipient.toList)
        (envelope.recipient.getD []) ↔ ∀ a ∈ envelope.recipient.getD [], Separable parseHeader a) ∧
      Smtp.splitAddresses (Compose.replyAll plainText h html myAddress).text.cc.toList =
        (Compose.splitAddresses h.recipient.toList).filter
          fun addr => !Compose.addressesMatch addr myAddress.toList := by
  intro h
  refine ⟨?_, ?_, ?_⟩
  · simpa [h, Compose.reply, Compose.fromOriginal, parseEnvelopeHeader, Smtp.splitAddresses]
      using entries_iff envelope.sender
  · simpa [h, parseEnvelopeHeader, Compose.splitAddresses] using entries_iff envelope.recipient
  · simp only [Compose.replyAll, Compose.fromOriginal, Smtp.splitAddresses, String.toList_ofList]
    exact commaSeparated_join_filter _ _

/-- One sender and one recipient whose display name has a comma in it. -/
def doeJohn : Address :=
  ⟨some (asciiBytes "Doe, John"), some (asciiBytes "john"), some (asciiBytes "x.org")⟩

/-- A reply to him goes to two entries, and the first one is no address. -/
theorem comma_name_splits :
    let h := parseEnvelopeHeader (fun _ => none) 1
      { sender := some [doeJohn], recipient := some [doeJohn] } []
    let entries := ["Doe".toList, "John <john@x.org>".toList]
    Smtp.splitAddresses (Compose.reply id h "").text.recipient.toList = entries ∧
      Compose.splitAddresses h.recipient.toList = entries ∧
      ¬ List.Forall₂ Carries entries [doeJohn] :=
  ⟨by decide, by decide, fun hall => by simpa using hall.length_eq⟩

/-- Reply-All copies to the recipients whose text does not contain one's own address, in order; and the split
before it is sent gives these back.

No address has a comma in it (`hcomma`), so each is one entry, and what is kept of them may be joined and
split again. -/
theorem reply_all_cc (parseHeader : List UInt8 → Option (List Char))
    (plainText : String → String) (uid : Nat) (envelope : Envelope) (flags : List String)
    (html myAddress : String)
    (hmy : myAddress ≠ "")
    (hcomma : ∀ a ∈ envelope.recipient.getD [], ',' ∉ a.format parseHeader) :
    let h := parseEnvelopeHeader parseHeader uid envelope flags
    let kept := ((envelope.recipient.getD []).map fun a => trim (a.format parseHeader)).filter
      fun text => ¬ myAddress.toList <:+: text
    (Compose.replyAll plainText h html myAddress).text.cc = String.ofList (join [',', ' '] kept) ∧
      Smtp.splitAddresses (Compose.replyAll plainText h html myAddress).text.cc.toList = kept := by
  intro h kept
  have hfield : Compose.splitAddresses h.recipient.toList =
      (envelope.recipient.getD []).map fun a => trim (a.format parseHeader) := by
    have hone : ∀ a ∈ envelope.recipient.getD [],
        commaSeparated (a.format parseHeader) = [trim (a.format parseHeader)] := fun a ha =>
      commaSeparated_entry (hcomma a ha) (trim_ne_nil (at_mem_format a) (by decide))
    simp only [h, parseEnvelopeHeader, Compose.splitAddresses, String.toList_ofList,
      commaSeparated_formatAddress, List.flatMap_congr hone, ← List.map_eq_flatMap]
  have hmatch : ∀ text, (!Compose.addressesMatch text myAddress.toList) =
      decide (¬ myAddress.toList <:+: text) := by
    intro text
    have hne : myAddress.toList.isEmpty = false := by simpa using hmy
    simp [Compose.addressesMatch, hne, ← containsText_iff]
  have hkept : ((Compose.splitAddresses h.recipient.toList).filter
      fun addr => !Compose.addressesMatch addr myAddress.toList) = kept := by
    simp only [hmatch, hfield, kept]
  have hcc : (Compose.replyAll plainText h html myAddress).text.cc =
      String.ofList (join [',', ' '] kept) := by
    rw [← hkept]
    rfl
  refine ⟨hcc, ?_⟩
  rw [hcc, String.toList_ofList, ← hkept]
  exact commaSeparated_join_filter _ _

/-- Bob, without a display name. -/
def bobBare : Address := ⟨none, some (asciiBytes "bob"), some (asciiBytes "example.com")⟩

/-- Bob, as a correspondent may spell him. -/
def bobCapitals : Address := ⟨none, some (asciiBytes "BOB"), some (asciiBytes "example.com")⟩

/-- Alice, who answers. -/
def aliceBare : Address := ⟨none, some (asciiBytes "alice"), some (asciiBytes "example.com")⟩

/-- Of three recipients, Alice in the middle, she writes to the other two. -/
theorem reply_all_cc_bob :
    (Compose.replyAll id (parseEnvelopeHeader (fun _ => none) 1
      { recipient := some [bobBare, aliceBare, bobCapitals] } []) "" "alice@example.com").text.cc =
        "bob@example.com, BOB@example.com" := by
  have hcc := (reply_all_cc (fun _ => none) id 1 { recipient := some [bobBare, aliceBare, bobCapitals] } [] ""
    "alice@example.com" (by decide) (by decide)).1
  rw [hcc]
  decide

/-- An address whose local part has a comma in it. -/
def commaLocal : Address := ⟨none, some (asciiBytes "x,y"), some (asciiBytes "example.com")⟩

/-- Answering as b, one drops Bob; answering as Bob, one keeps oneself in other letters; and a comma
of a local part makes two recipients, though there is no display name. -/
theorem reply_all_substring :
    let h := parseEnvelopeHeader (fun _ => none) 1 { recipient := some [bobBare, bobCapitals] } []
    let h' := parseEnvelopeHeader (fun _ => none) 1 { recipient := some [commaLocal] } []
    (Compose.replyAll id h "" "b@example.com").text.cc = "BOB@example.com" ∧
      (Compose.replyAll id h "" "bob@example.com").text.cc = "BOB@example.com" ∧
      (Compose.replyAll id h' "" "bob@example.com").text.cc = "x, y@example.com" ∧
      bobBare.mailboxAtHost.map toAsciiLowercase ≠ "b@example.com".toList ∧
      bobCapitals.mailboxAtHost.map toAsciiLowercase = "bob@example.com".toList := by
  decide

end Esmail
