/-
# Reading mail offline: the cache is a map with a history

What `fetch_mail` returns is put together from two tables, each written by several commands, and
two of their columns are encodings.  What it MEANS is a map, and the map is determined by what
happened: a mail was cached, a header was listed, flags were set, a range of keys was removed, some
bodies were evicted.  `known` reads the map off such a history, latest first, and mentions no table.

`Logged` runs the two side by side.  `Agrees` is the simulation: each table is the image of the
map.  The happenings of a command are what the command says, but for the eviction, whose keys the
cache chooses; section 4 says which it chooses.

`fetchMail_eq_latest` is what a reader gets from it, in every run: the mail that the history leaves to be
read, and none for a message no body of which was ever cached.

Assumed are that the encoding of the columns reads back what it has written (`Codec.RoundTrips`), and that
the flags of a command are words (`plainFlags`), as the flags column is split at blanks.  That the tables do
not fall out of step when a statement fails is not claimed here: see `Referential.lean`.
-/
import Esmail.Cache.Referential

namespace Esmail.Cache

open Transition

/-! ## 1. The map -/

/-- What can happen to cached mail. -/
inductive Happening
  | cached (key : Key) (header : MailHeader) (body : String) (attachments : List Attachment)
  | listed (key : Key) (header : MailHeader)
  | flagged (key : Key) (flags : List String)
  | removed (p : Key → Bool)
  | evicted (keys : List Key)

/-- What is known of a message: its header, and its body once that was cached. -/
structure Known where
  header : MailHeader
  mail : Option (String × List Attachment)

/-- What is known of a message after a history, the latest happening first. -/
def known : List Happening → Key → Option Known
  | [], _ => none
  | .cached k header body attachments :: log, key =>
    if key = k then some ⟨header, some (body, attachments)⟩ else known log key
  | .listed k header :: log, key =>
    if key = k then some ⟨header, (known log key).bind Known.mail⟩ else known log key
  | .flagged k flags :: log, key =>
    if key = k then
      (known log key).map fun e => { e with header := { e.header with flags := flags } }
    else known log key
  | .removed p :: log, key => if p key then none else known log key
  | .evicted keys :: log, key =>
    if key ∈ keys then (known log key).map fun e => { e with mail := none } else known log key

/-- The mail that is there to be read: the last one cached, with the header and the flags since. -/
def latest (log : List Happening) (key : Key) : Option (MailHeader × String × List Attachment) :=
  (known log key).bind fun e => e.mail.map fun mail => (e.header, mail.1, mail.2)

/-- A message no body of which was ever cached has none to be read. -/
theorem latest_eq_none {log : List Happening} {key : Key}
    (h : ∀ header body attachments, Happening.cached key header body attachments ∉ log) :
    latest log key = none := by
  have hmail : (known log key).bind Known.mail = none := by
    induction log with
    | nil => rfl
    | cons e log ih =>
      have hrest := ih fun header body attachments hmem =>
        h header body attachments (List.mem_cons_of_mem _ hmem)
      cases e with
      | cached k header body attachments =>
        have hne : key ≠ k := by
          rintro rfl
          exact h header body attachments List.mem_cons_self
        rw [known, if_neg hne]
        exact hrest
      | listed k header =>
        rw [known]
        split
        · exact hrest
        · exact hrest
      | flagged k flags =>
        rw [known]
        split
        · cases hk : known log key with
          | none => rfl
          | some e => rw [hk] at hrest; exact hrest
        · exact hrest
      | removed p =>
        rw [known]
        split
        · rfl
        · exact hrest
      | evicted keys =>
        rw [known]
        split
        · cases known log key <;> rfl
        · exact hrest
  unfold latest
  cases hk : known log key with
  | none => rfl
  | some e =>
    rw [hk, Option.bind_some] at hmail
    rw [Option.bind_some, hmail]
    rfl

/-- What a command makes happen, the latest first. -/
def happenings (codec : Codec) (now : Int) (db : Cache) : Command → List Happening
  | .indexMail accountId mailbox header body attachments =>
    let key : Key := ⟨accountId, mailbox, header.uid⟩
    [.evicted (leastRecent maxCachedBodies (db.indexed codec now key header body attachments).bodies),
      .cached key header body attachments]
  | .indexHeaders accountId mailbox headers | .indexHeadersSearchable accountId mailbox headers =>
    headers.reverse.map fun header => .listed ⟨accountId, mailbox, header.uid⟩ header
  | .reportMailboxState accountId mailbox uidValidity uidNext =>
    if syncDecision (db.mailboxes.lookup (accountId, mailbox)) uidValidity uidNext = .resync then
      [.removed (Key.isIn accountId mailbox)]
    else []
  | .updateFlags key flags => [.flagged key flags]
  | .removeMessage key => [.removed fun k => k = key]
  | .removeAccount accountId => [.removed (Key.isOf accountId)]
  | .search .. | .fetchMail _ | .queue _ => []

/-! ## 2. The tables are the image of the map -/

/-- A header as the `messages` table can hold it: under its own UID, with flags that are words. -/
def Storable (key : Key) (header : MailHeader) : Prop :=
  header.uid = key.uid ∧ ∀ f ∈ header.flags, isPlainFlag f = true

theorem toHeader_messageRow {key : Key} {header : MailHeader} (h : Storable key header) :
    (messageRow header).toHeader key.uid = header := by
  obtain ⟨huid, hflags⟩ := h
  simp only [MessageRow.toHeader, messageRow, parseFlagsColumn_flagsColumn hflags, ← huid]

/-- The tables hold, of each message, what is known of it. -/
structure Agrees (codec : Codec) (db : Cache) (log : List Happening) : Prop where
  messages : ∀ key, db.messages.lookup key = (known log key).map fun e => messageRow e.header
  bodies : ∀ key, (db.bodies.lookup key).map (fun b => (b.body, b.attachments)) =
    ((known log key).bind Known.mail).map fun mail => (mail.1, codec.attachmentsColumn mail.2)
  storable : ∀ key e, known log key = some e → Storable key e.header

variable {codec : Codec}

theorem Agrees.fetchMail {db : Cache} {log : List Happening} (h : Agrees codec db log)
    (hcodec : codec.RoundTrips) (key : Key) : db.fetchMail codec key = latest log key := by
  have hmessage := h.messages key
  have hbody := h.bodies key
  have hstorable := h.storable key
  unfold Cache.fetchMail latest
  cases hk : known log key with
  | none =>
    rw [hk, Option.map_none] at hmessage
    rw [hmessage]
    rfl
  | some e =>
    rw [hk, Option.map_some] at hmessage
    rw [hk, Option.bind_some] at hbody
    rw [hmessage, Option.bind_some]
    cases hm : e.mail with
    | none =>
      rw [hm, Option.map_none, Option.map_eq_none_iff] at hbody
      rw [hbody]
      rfl
    | some mail =>
      rw [hm, Option.map_some] at hbody
      obtain ⟨row, hrow, hcolumns⟩ := Option.map_eq_some_iff.mp hbody
      obtain ⟨hb, ha⟩ := Prod.mk.inj hcolumns
      rw [hrow]
      simp only [Option.map_some, toHeader_messageRow (hstorable e hk), hb, ha, hcodec.column]

theorem Agrees.initSchema : Agrees codec Cache.initSchema [] := by
  constructor
  · exact fun _ => rfl
  · exact fun _ => rfl
  · exact fun _ _ h => absurd h (by simp [known])

theorem Agrees.cached {db : Cache} {log : List Happening} (h : Agrees codec db log) {key : Key}
    {header : MailHeader} (hheader : Storable key header) (now : Int) (body : String)
    (attachments : List Attachment) :
    Agrees codec (db.indexed codec now key header body attachments)
      (.cached key header body attachments :: log) := by
  constructor
  · intro k
    simp only [indexed, insertFts, deleteFts, upsertBody, upsertMessage, Table.lookup_upsert, known]
    split
    · rfl
    · exact h.messages k
  · intro k
    simp only [indexed, insertFts, deleteFts, upsertBody, upsertMessage, Table.lookup_upsert, known]
    split
    · rfl
    · exact h.bodies k
  · intro k e hk
    simp only [known] at hk
    split at hk
    · next he =>
      obtain rfl := Option.some.inj hk
      exact he ▸ hheader
    · exact h.storable k e hk

theorem Agrees.listed {db : Cache} {log : List Happening} (h : Agrees codec db log) {key : Key}
    {header : MailHeader} (hheader : Storable key header) :
    Agrees codec (db.upsertMessage key header) (.listed key header :: log) := by
  constructor
  · intro k
    simp only [upsertMessage, Table.lookup_upsert, known]
    split
    · rfl
    · exact h.messages k
  · intro k
    simp only [upsertMessage, known]
    rw [h.bodies k]
    split <;> rfl
  · intro k e hk
    simp only [known] at hk
    split at hk
    · next he =>
      obtain rfl := Option.some.inj hk
      exact he ▸ hheader
    · exact h.storable k e hk

theorem Agrees.flagged {db : Cache} {log : List Happening} (h : Agrees codec db log) (key : Key)
    {flags : List String} (hflags : ∀ f ∈ flags, isPlainFlag f = true) :
    Agrees codec (db.setFlags key flags) (.flagged key flags :: log) := by
  constructor
  · intro k
    simp only [setFlags, Table.lookup_update, known]
    split
    · rw [h.messages k, Option.map_map, Option.map_map]
      rfl
    · exact h.messages k
  · intro k
    simp only [setFlags, known]
    rw [h.bodies k]
    split
    · cases known log k <;> rfl
    · rfl
  · intro k e hk
    simp only [known] at hk
    split at hk
    · obtain ⟨e', he', rfl⟩ := Option.map_eq_some_iff.mp hk
      exact ⟨(h.storable k e' he').1, hflags⟩
    · exact h.storable k e hk

theorem Agrees.removed {db : Cache} {log : List Happening} (h : Agrees codec db log)
    (p : Key → Bool) : Agrees codec (db.purged p) (.removed p :: log) := by
  constructor
  · intro k
    simp only [purged, deleteFts, deleteBodies, deleteMessages, Table.lookup_deleteWhere, known]
    split
    · rfl
    · exact h.messages k
  · intro k
    simp only [purged, deleteFts, deleteBodies, deleteMessages, Table.lookup_deleteWhere, known]
    split
    · rfl
    · exact h.bodies k
  · intro k e hk
    simp only [known] at hk
    split at hk
    · exact absurd hk (by simp)
    · exact h.storable k e hk

theorem Agrees.evicted {db : Cache} {log : List Happening} (h : Agrees codec db log)
    (keys : List Key) :
    Agrees codec (db.deleteBodies fun k => k ∈ keys) (.evicted keys :: log) := by
  constructor
  · intro k
    simp only [deleteBodies, known]
    rw [h.messages k]
    split
    · rw [Option.map_map]
      rfl
    · rfl
  · intro k
    simp only [deleteBodies, Table.lookup_deleteWhere, known, decide_eq_true_eq]
    split
    · cases known log k <;> rfl
    · exact h.bodies k
  · intro k e hk
    simp only [known] at hk
    split at hk
    · obtain ⟨e', he', rfl⟩ := Option.map_eq_some_iff.mp hk
      exact h.storable k e' he'
    · exact h.storable k e hk

/-- What happens to the index, or to the state of a mailbox, is not seen. -/
theorem Agrees.of_same {db db' : Cache} {log : List Happening} (h : Agrees codec db log)
    (hmessages : db'.messages = db.messages) (hbodies : db'.bodies = db.bodies) :
    Agrees codec db' log :=
  ⟨fun k => by rw [hmessages, h.messages k], fun k => by rw [hbodies, h.bodies k], h.storable⟩

theorem Agrees.foldl_listed {accountId : AccountId} {mailbox : String} {f : Cache → MailHeader → Cache}
    (hf : ∀ db header, (f db header).messages = (db.listed accountId mailbox header).messages ∧
      (f db header).bodies = db.bodies)
    (headers : List MailHeader)
    (hstorable : ∀ header ∈ headers, Storable ⟨accountId, mailbox, header.uid⟩ header)
    {db : Cache} {log : List Happening} (h : Agrees codec db log) :
    Agrees codec (headers.foldl f db)
      ((headers.reverse.map fun header => .listed ⟨accountId, mailbox, header.uid⟩ header) ++ log) := by
  induction headers generalizing db log with
  | nil => exact h
  | cons header rest ih =>
    have hone : Agrees codec (f db header) (.listed ⟨accountId, mailbox, header.uid⟩ header :: log) :=
      (h.listed (hstorable header List.mem_cons_self)).of_same (hf db header).1 (hf db header).2
    have hrest := ih (fun other hother => hstorable other (List.mem_cons_of_mem _ hother)) hone
    simpa only [List.foldl_cons, List.reverse_cons, List.map_append, List.map_singleton,
      List.append_assoc, List.singleton_append] using hrest

/-! ## 3. Runs -/

/-- The cache, and what has happened to it. -/
structure Logged where
  cache : Cache
  log : List Happening

/-- The cache from an empty database on, with its history. -/
def logged (codec : Codec) (engine : SearchEngine) : Machine Logged (Int × Command) :=
  ⟨fun s => s = ⟨Cache.initSchema, []⟩, fun s a =>
    some ⟨after codec engine a.1 a.2 s.cache, happenings codec a.1 s.cache a.2 ++ s.log⟩⟩

/-- Every flag of a command is a word. -/
def plainFlags (_ : Logged) : Int × Command → Prop
  | (_, .indexMail _ _ header _ _) => ∀ f ∈ header.flags, isPlainFlag f = true
  | (_, .indexHeaders _ _ headers) | (_, .indexHeadersSearchable _ _ headers) =>
    ∀ header ∈ headers, ∀ f ∈ header.flags, isPlainFlag f = true
  | (_, .updateFlags _ flags) => ∀ f ∈ flags, isPlainFlag f = true
  | _ => True

variable {engine : SearchEngine}

theorem Agrees.after {s : Logged} (h : Agrees codec s.cache s.log) {now : Int} {c : Command}
    (hok : plainFlags s (now, c)) :
    Agrees codec (after codec engine now c s.cache) (happenings codec now s.cache c ++ s.log) := by
  cases c with
  | indexMail accountId mailbox header body attachments =>
    rw [after_indexMail]
    have hheader : Storable ⟨accountId, mailbox, header.uid⟩ header := ⟨rfl, hok⟩
    exact (h.cached hheader now body attachments).evicted _
  | indexHeaders accountId mailbox headers =>
    rw [after_indexHeaders]
    exact Agrees.foldl_listed (fun _ _ => ⟨rfl, rfl⟩) headers
      (fun header hheader => ⟨rfl, hok header hheader⟩) h
  | indexHeadersSearchable accountId mailbox headers =>
    rw [after_indexHeadersSearchable]
    refine Agrees.foldl_listed (fun db header => ?_) headers
      (fun header hheader => ⟨rfl, hok header hheader⟩) h
    unfold listedSearchable
    split <;> exact ⟨rfl, rfl⟩
  | search accountId q mailbox => exact h
  | fetchMail key =>
    rw [after_fetchMail]
    exact h
  | reportMailboxState accountId mailbox uidValidity uidNext =>
    rw [after_reportMailboxState]
    simp only [happenings]
    split
    · exact (h.removed _).of_same rfl rfl
    · exact h.of_same rfl rfl
  | updateFlags key flags => exact h.flagged key hok
  | removeMessage key => exact h.removed _
  | removeAccount accountId => exact (h.removed _).of_same rfl rfl
  | queue c =>
    have hsame : SameMail s.cache (Cache.after codec engine now (.queue c) s.cache) :=
      sameMail_after_queue c s.cache
    obtain ⟨hmessages, hbodies, -, -⟩ := hsame
    exact h.of_same hmessages hbodies

theorem agrees_of_reach {s : Logged} (h : (logged codec engine).Reach plainFlags s) :
    Agrees codec s.cache s.log := by
  refine h.invariant (P := fun s => Agrees codec s.cache s.log) ?_ ?_
  · rintro s rfl
    exact Agrees.initSchema
  · rintro s ⟨now, c⟩ s' - hs hok hst
    obtain rfl := Option.some.inj hst
    exact hs.after hok

/-- Whatever happened, `fetch_mail` returns the mail the history leaves there to be read, and
nothing for a message no body of which was ever cached.

A body that was evicted is gone from the history's map as it is from the table: the eviction is a happening. -/
theorem fetchMail_eq_latest (hcodec : codec.RoundTrips) {s : Logged}
    (h : (logged codec engine).Reach plainFlags s) (key : Key) :
    s.cache.fetchMail codec key = latest s.log key ∧
      ((∀ header body attachments, Happening.cached key header body attachments ∉ s.log) →
        s.cache.fetchMail codec key = none) := by
  have heq := (agrees_of_reach h).fetchMail hcodec key
  exact ⟨heq, fun hnever => heq.trans (latest_eq_none hnever)⟩

/-! A codec with which such a run can be computed.  On the one attachment of the run it does what
JSON and base64 do; what it does on others only has to be readable again. -/

def packChars : List Char → List Char
  | [] => ['.']
  | c :: s => '+' :: c :: packChars s

def unpackFrom (word : List Char) : List Char → List (List Char)
  | '+' :: c :: s => unpackFrom (c :: word) s
  | _ :: s => word.reverse :: unpackFrom [] s
  | [] => []

theorem unpackFrom_packChars (s word rest : List Char) :
    unpackFrom word (packChars s ++ rest) = (word.reverse ++ s) :: unpackFrom [] rest := by
  induction s generalizing word with
  | nil => simp [packChars, unpackFrom]
  | cons c s ih =>
    simp only [packChars, List.cons_append, unpackFrom]
    rw [ih]
    simp

def inThrees : List (List Char) → List CachedAttachment
  | a :: b :: c :: rest => ⟨String.ofList a, String.ofList b, String.ofList c⟩ :: inThrees rest
  | _ => []

def packAttachments (l : List CachedAttachment) : List Char :=
  l.flatMap fun a =>
    packChars a.filename.toList ++ (packChars a.mimeType.toList ++ packChars a.data.toList)

theorem inThrees_packAttachments (l : List CachedAttachment) :
    inThrees (unpackFrom [] (packAttachments l)) = l := by
  induction l with
  | nil => rfl
  | cons a l ih =>
    simp only [packAttachments, List.flatMap_cons, List.append_assoc] at ih ⊢
    simp [unpackFrom_packChars, inThrees, ih]

def hiColumn : String :=
  "[\x7b\"filename\":\"hi.txt\",\"mime_type\":\"text/plain\",\"data\":\"aGk=\"\x7d]"

def hiCodec : Codec where
  toJson l :=
    if l = [⟨"hi.txt", "text/plain", "aGk="⟩] then hiColumn
    else String.ofList ('#' :: packAttachments l)
  fromJson s :=
    if s = hiColumn then some [⟨"hi.txt", "text/plain", "aGk="⟩]
    else some (inThrees (unpackFrom [] s.toList.tail))
  encode bytes :=
    if bytes = [104, 105] then "aGk=" else String.ofList ('#' :: bytes.map fun b => Char.ofNat b.toNat)
  decode s :=
    if s = "aGk=" then some [104, 105] else some (s.toList.tail.map fun c => UInt8.ofNat c.toNat)

theorem ofList_ne {s : String} {c : Char} {l : List Char} (h : s.toList.head? ≠ some c) :
    String.ofList (c :: l) ≠ s := by
  rintro rfl
  exact h (by simp)

theorem hiCodec_roundTrips : hiCodec.RoundTrips := by
  constructor
  · intro l
    simp only [hiCodec]
    split
    · next h => simp [h]
    · rw [if_neg (ofList_ne (by decide)), String.toList_ofList, List.tail_cons,
        inThrees_packAttachments]
  · intro bytes
    simp only [hiCodec]
    split
    · next h => simp [h]
    · rw [if_neg (ofList_ne (by decide)), String.toList_ofList, List.tail_cons, List.map_map]
      have hbyte : ∀ b : UInt8, UInt8.ofNat (Char.ofNat b.toNat).toNat = b := by
        intro b
        have hvalid : b.toNat.isValidChar := Or.inl (Nat.lt_trans b.toNat_lt (by decide))
        have hchar : (Char.ofNat b.toNat).toNat = b.toNat := by
          rw [Char.ofNat, dif_pos hvalid]
          rfl
        rw [hchar, UInt8.ofNat_toNat]
      simp [Function.comp_def, hbyte]

instance (s : Logged) : (a : Int × Command) → Decidable (plainFlags s a)
  | (_, .indexMail _ _ header _ _) =>
    inferInstanceAs (Decidable (∀ f ∈ header.flags, isPlainFlag f = true))
  | (_, .indexHeaders _ _ headers) | (_, .indexHeadersSearchable _ _ headers) =>
    inferInstanceAs (Decidable (∀ header ∈ headers, ∀ f ∈ header.flags, isPlainFlag f = true))
  | (_, .updateFlags _ flags) => inferInstanceAs (Decidable (∀ f ∈ flags, isPlainFlag f = true))
  | (_, .search ..) | (_, .fetchMail _) | (_, .reportMailboxState ..) | (_, .removeMessage _)
  | (_, .removeAccount _) | (_, .queue _) => isTrue trivial

/-- Such a run: a mail is cached, its header is listed again, and its flags are set. -/
theorem fetchMail_eq_latest_of_listing : ∃ s : Logged,
    s.cache.fetchMail hiCodec ⟨"me", "INBOX", 7⟩ =
      some (⟨7, "Invoice", "a@x", "b@x", "", "<7@x>", ["\\Seen", "\\Flagged"]⟩, "please pay",
        [⟨"hi.txt", "text/plain", [104, 105]⟩]) := by
  obtain ⟨s, hr, hp⟩ := Machine.exists_reach_of_trace (logged hiCodec findsAll) plainFlags
    [(0, .indexMail "me" "INBOX" invoice "please pay" [⟨"hi.txt", "text/plain", [104, 105]⟩]),
      (1, .indexHeaders "me" "INBOX" [{ invoice with subject := "Invoice" }]),
      (2, .updateFlags ⟨"me", "INBOX", 7⟩ ["\\Seen", "\\Flagged"])]
    (fun s => decide (latest s.log ⟨"me", "INBOX", 7⟩ =
      some (⟨7, "Invoice", "a@x", "b@x", "", "<7@x>", ["\\Seen", "\\Flagged"]⟩, "please pay",
        [⟨"hi.txt", "text/plain", [104, 105]⟩]))) rfl (by decide)
  exact ⟨s, (fetchMail_eq_latest hiCodec_roundTrips hr _).1.trans (of_decide_eq_true hp)⟩

/-! ## 4. What an eviction takes -/

/-- A body that is evicted was cached no later than one that stays. -/
theorem leastRecent_oldest {maxRows : Nat} {bodies : Table Key BodyRow} {gone stays : Key}
    {b b' : BodyRow} (hb : bodies.lookup gone = some b) (hb' : bodies.lookup stays = some b')
    (hgone : gone ∈ leastRecent maxRows bodies) (hstays : stays ∉ leastRecent maxRows bodies) :
    b.cachedAt ≤ b'.cachedAt := by
  let sorted := bodies.rows.mergeSort fun r s => r.2.cachedAt ≤ s.2.cachedAt
  let n := bodies.rows.length - maxRows
  have hsorted : (sorted.take n ++ sorted.drop n).Pairwise fun r s => r.2.cachedAt ≤ s.2.cachedAt := by
    rw [List.take_append_drop]
    have hle : sorted.Pairwise fun r s => decide (r.2.cachedAt ≤ s.2.cachedAt) = true :=
      List.pairwise_mergeSort
        (fun a b c hab hbc => by simp only [decide_eq_true_eq] at *; omega)
        (fun a b => by simp only [Bool.or_eq_true, decide_eq_true_eq]; omega) bodies.rows
    exact hle.imp of_decide_eq_true
  obtain ⟨r, hr, hkey⟩ := List.mem_map.mp hgone
  -- The row taken under this key is the one the table has: keys do not repeat.
  have hrow : bodies.lookup gone = some r.2 := by
    rw [Table.lookup_eq_some, ← hkey]
    exact List.mem_mergeSort.mp (List.mem_of_mem_take hr)
  have hmem : (stays, b') ∈ sorted.take n ++ sorted.drop n := by
    rw [List.take_append_drop]
    exact List.mem_mergeSort.mpr (Table.lookup_eq_some.mp hb')
  rcases List.mem_append.mp hmem with htaken | hleft
  · exact absurd (List.mem_map.mpr ⟨_, htaken, rfl⟩) hstays
  · have hle := (List.pairwise_append.mp hsorted).2.2 r hr _ hleft
    rw [hb, Option.some.injEq] at hrow
    rw [hrow]
    exact hle

end Esmail.Cache
