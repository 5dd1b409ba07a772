/-
# The tables of the mail cache

The schema of `db.rs`.  `mailboxes`, `messages` and `bodies` have a primary key, which is a field
of their type; `messages_fts` has none, so that a key may stand there any number of times as far
as the schema goes.  The three message tables know nothing of one another: there is no foreign
key, and whatever ties them together is up to the commands.

Two columns hold an encoding: `flags` a list of flags, joined by blanks, and `attachments` the JSON
of the attachments with their bytes in base64.  JSON and base64 come from outside.
-/
import Esmail.Library.RustText
import Esmail.Library.Statements
import Esmail.Library.Table
import Esmail.Mailbox.Header
import Esmail.Outgoing.MainWindow

namespace Esmail

open RustText

/-! ## 1. Rows -/

/-- What a message is cached under. -/
structure Key where
  accountId : AccountId
  mailbox : String
  uid : Nat
  deriving DecidableEq, Repr

/-- A row of `messages`. -/
structure MessageRow where
  subject : String
  fromAddr : String
  toAddr : String
  date : String
  messageId : String
  flags : String
  deriving DecidableEq, Repr

/-- A row of `bodies`. -/
structure BodyRow where
  body : String
  attachments : String
  cachedAt : Int
  deriving DecidableEq, Repr

/-- A row of `messages_fts`. -/
structure FtsRow where
  key : Key
  subject : String
  fromAddr : String
  toAddr : String
  body : String
  deriving DecidableEq, Repr

/-- A row of `mailboxes`: what the server last reported. -/
structure MailboxRow where
  uidValidity : Nat
  uidNext : Nat
  deriving DecidableEq, Repr

/-- The database, the outbox and the drafts included. -/
structure Cache where
  mailboxes : Table (AccountId × String) MailboxRow
  messages : Table Key MessageRow
  bodies : Table Key BodyRow
  messagesFts : List FtsRow
  queue : Db
  deriving DecidableEq

/-- What `init_schema` makes. -/
def Cache.initSchema : Cache := ⟨Table.empty, Table.empty, Table.empty, [], {}⟩

/-! ## 2. The `flags` column -/

/-- `str::split_whitespace`.  `word` is the word being read, last character first. -/
def splitWhitespaceFrom (word : List Char) : List Char → List (List Char)
  | [] => if word = [] then [] else [word.reverse]
  | c :: s =>
    if isWhitespace c then
      if word = [] then splitWhitespaceFrom [] s else word.reverse :: splitWhitespaceFrom [] s
    else splitWhitespaceFrom (c :: word) s

/-- `parse_flags_column`. -/
def parseFlagsColumn (s : String) : List String :=
  (splitWhitespaceFrom [] s.toList).map String.ofList

/-- `flags_column`, of the flags alone. -/
def flagsColumn (flags : List String) : String := " ".intercalate flags

/-- A flag the column can hold. -/
def isPlainFlag (flag : String) : Bool := !flag.isEmpty && flag.toList.all fun c => !isWhitespace c

theorem splitWhitespaceFrom_word {w : List Char} (hw : ∀ c ∈ w, isWhitespace c = false)
    (word s : List Char) :
    splitWhitespaceFrom word (w ++ s) = splitWhitespaceFrom (w.reverse ++ word) s := by
  induction w generalizing word with
  | nil => rfl
  | cons c w ih =>
    have hc : isWhitespace c = false := hw c (by simp)
    rw [List.cons_append, splitWhitespaceFrom, hc, if_neg (by simp),
      ih fun d hd => hw d (List.mem_cons_of_mem c hd)]
    simp

theorem splitWhitespaceFrom_intercalate (ws : List (List Char))
    (hws : ∀ w ∈ ws, w ≠ [] ∧ ∀ c ∈ w, isWhitespace c = false) :
    splitWhitespaceFrom [] ([' '].intercalate ws) = ws := by
  induction ws with
  | nil => rfl
  | cons w ws ih =>
    obtain ⟨hne, hplain⟩ := hws w (by simp)
    have hrest := ih fun v hv => hws v (List.mem_cons_of_mem w hv)
    have hrev : w.reverse ≠ [] := by simpa using hne
    cases ws with
    | nil =>
      have hword := splitWhitespaceFrom_word hplain [] []
      simp only [List.append_nil] at hword
      rw [List.intercalate_singleton, hword, splitWhitespaceFrom, if_neg hrev, List.reverse_reverse]
    | cons v ws =>
      rw [List.intercalate_cons_cons, List.append_assoc, splitWhitespaceFrom_word hplain,
        List.append_nil, List.singleton_append, splitWhitespaceFrom, if_pos (by decide),
        if_neg hrev, List.reverse_reverse, hrest]

/-- The column gives back the flags that were stored, if each of them is a word. -/
theorem parseFlagsColumn_flagsColumn {flags : List String} (h : ∀ f ∈ flags, isPlainFlag f) :
    parseFlagsColumn (flagsColumn flags) = flags := by
  have hwords : ∀ w ∈ flags.map String.toList, w ≠ [] ∧ ∀ c ∈ w, isWhitespace c = false := by
    intro w hw
    obtain ⟨f, hf, rfl⟩ := List.mem_map.mp hw
    have := h f hf
    simp only [isPlainFlag, Bool.and_eq_true, Bool.not_eq_true', List.all_eq_true] at this
    refine ⟨?_, fun c hc => by simpa using this.2 c hc⟩
    intro hnil
    rw [String.toList_eq_nil_iff] at hnil
    rw [hnil] at this
    exact absurd this.1 (by decide)
  have hblank : " ".toList = [' '] := by decide
  rw [parseFlagsColumn, flagsColumn, String.toList_intercalate, hblank,
    splitWhitespaceFrom_intercalate _ hwords, List.map_map]
  simp [Function.comp_def]

/-! ## 3. The `attachments` column -/

/-- `Attachment`. -/
structure Attachment where
  filename : String
  mimeType : String
  data : List UInt8
  deriving DecidableEq, Repr

/-- `CachedAttachment`: the bytes as text. -/
structure CachedAttachment where
  filename : String
  mimeType : String
  data : String
  deriving DecidableEq, Repr

/-- The encodings that come from outside: `serde_json` for a list of attachments, and base64. -/
structure Codec where
  toJson : List CachedAttachment → String
  fromJson : String → Option (List CachedAttachment)
  encode : List UInt8 → String
  decode : String → Option (List UInt8)

/-- What is relied on: each of the two encodings can be read back. -/
structure Codec.RoundTrips (codec : Codec) : Prop where
  json : ∀ l, codec.fromJson (codec.toJson l) = some l
  base64 : ∀ bytes, codec.decode (codec.encode bytes) = some bytes

namespace Codec

/-- `attachments_column`. -/
def attachmentsColumn (codec : Codec) (attachments : List Attachment) : String :=
  codec.toJson (attachments.map fun a => ⟨a.filename, a.mimeType, codec.encode a.data⟩)

/-- `parse_attachments_column`. -/
def parseAttachmentsColumn (codec : Codec) (s : String) : List Attachment :=
  match codec.fromJson s with
  | none => []
  | some cached =>
    cached.filterMap fun c => (codec.decode c.data).map fun data => ⟨c.filename, c.mimeType, data⟩

/-- The column gives back the attachments that were stored. -/
theorem RoundTrips.column {codec : Codec} (h : codec.RoundTrips) (attachments : List Attachment) :
    codec.parseAttachmentsColumn (codec.attachmentsColumn attachments) = attachments := by
  rw [parseAttachmentsColumn, attachmentsColumn, h.json]
  simp only [List.filterMap_map]
  induction attachments with
  | nil => rfl
  | cons a rest ih =>
    rw [List.filterMap_cons, ih]
    simp only [Function.comp_apply, h.base64, Option.map_some]

end Codec

end Esmail
