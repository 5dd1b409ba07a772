/-
# Searching the cache

`search` of `db.rs`, with the query of `search_query.rs` as it is after parsing.  What SQLite's
full-text index finds for a MATCH expression, how it ranks the rows, and how a date reads, come
from outside (`SearchEngine`): nothing below depends on which rows match.
-/
import Esmail.Cache.Tables

namespace Esmail

/-- `ParsedQuery`.  The fields `sender` and `recipient` are the source's `from` and `to`. -/
structure ParsedQuery where
  text : List String := []
  sender : List String := []
  recipient : List String := []
  subject : List String := []
  body : List String := []
  since : Option String := none
  before : Option String := none
  isUnread : Bool := false
  hasAttachment : Bool := false
  deriving DecidableEq, Repr

/-- `SearchHit`. -/
structure SearchHit where
  accountId : AccountId
  mailbox : String
  header : MailHeader
  deriving DecidableEq, Repr

/-- The message a hit is of. -/
def SearchHit.key (hit : SearchHit) : Key := ⟨hit.accountId, hit.mailbox, hit.header.uid⟩

/-- What comes from outside: the full-text index, `NaiveDate::parse_from_str` and
`mailparse::dateparse`. -/
structure SearchEngine where
  matchesFts : String → FtsRow → Bool
  rank : String → List FtsRow → FtsRow → Int
  parseDate : String → Option Int
  dateparse : String → Option Int

/-- `MessageFilters`. -/
structure MessageFilters where
  since : Option Int
  before : Option Int
  unreadOnly : Bool
  deriving DecidableEq, Repr

/-- `message_timestamp`. -/
def SearchEngine.messageTimestamp (engine : SearchEngine) (s : String) : Option Int :=
  (engine.dateparse s).filter fun t => 0 < t

/-- `MessageFilters::matches`. -/
def MessageFilters.matches (engine : SearchEngine) (f : MessageFilters) (date : String) (isSeen : Bool) :
    Bool :=
  if f.unreadOnly && isSeen then false
  else if f.since.isSome || f.before.isSome then
    match engine.messageTimestamp date with
    | none => false
    | some ts => !f.since.any (fun since => ts < since) && !f.before.any (fun before => before ≤ ts)
  else true

/-- `fts_quote`. -/
def ftsQuote (term : String) : String := "\"" ++ term.replace "\"" "\"\"" ++ "\""

namespace ParsedQuery

/-- `ParsedQuery::is_fts_empty`. -/
def isFtsEmpty (q : ParsedQuery) : Bool :=
  q.text.isEmpty && q.sender.isEmpty && q.recipient.isEmpty && q.subject.isEmpty && q.body.isEmpty

/-- `ParsedQuery::is_empty`. -/
def isEmpty (q : ParsedQuery) : Bool :=
  q.isFtsEmpty && q.since.isNone && q.before.isNone && !q.isUnread

/-- `ParsedQuery::to_fts_match`. -/
def toFtsMatch (q : ParsedQuery) : Option String :=
  if q.isFtsEmpty then none
  else
    some (" AND ".intercalate
      (q.sender.map (fun term => "from_addr:" ++ ftsQuote term) ++
        q.recipient.map (fun term => "to_addr:" ++ ftsQuote term) ++
        q.subject.map (fun term => "subject:" ++ ftsQuote term) ++
        q.body.map (fun term => "body:" ++ ftsQuote term) ++
        q.text.map fun term =>
          "(subject:" ++ ftsQuote term ++ " OR from_addr:" ++ ftsQuote term ++ " OR body:" ++
            ftsQuote term ++ ")"))

/-- `ParsedQuery::message_filters`. -/
def messageFilters (engine : SearchEngine) (q : ParsedQuery) : MessageFilters :=
  ⟨q.since.bind engine.parseDate, q.before.bind engine.parseDate, q.isUnread⟩

end ParsedQuery

/-- A row of `messages` as a header. -/
def MessageRow.toHeader (uid : Nat) (row : MessageRow) : MailHeader :=
  { uid := uid
    subject := row.subject
    sender := row.fromAddr
    recipient := row.toAddr
    date := row.date
    messageId := row.messageId
    flags := parseFlagsColumn row.flags }

def MessageRow.toHit (key : Key) (row : MessageRow) : SearchHit :=
  ⟨key.accountId, key.mailbox, row.toHeader key.uid⟩

@[simp] theorem MessageRow.key_toHit (key : Key) (row : MessageRow) : (row.toHit key).key = key := rfl

namespace Cache

/-- The WHERE clause of a search: `?1 IS NULL OR account_id = ?1`, and the same of the mailbox. -/
def inScope (accountId : Option AccountId) (mailbox : Option String) (key : Key) : Bool :=
  accountId.all (fun a => key.accountId = a) && mailbox.all fun m => key.mailbox = m

/-- Whether a date sorts before another or with it; a date that cannot be read is the least. -/
def timestampLe : Option Int → Option Int → Bool
  | none, _ => true
  | some _, none => false
  | some a, some b => a ≤ b

/-- The rows of `messages_fts` in scope that match, best first, each joined with its message. -/
def ftsHits (engine : SearchEngine) (db : Cache) (accountId : Option AccountId) (mailbox : Option String)
    (expr : String) : List SearchHit :=
  ((db.messagesFts.filter fun f => inScope accountId mailbox f.key && engine.matchesFts expr f).mergeSort
      fun f g => engine.rank expr db.messagesFts f ≤ engine.rank expr db.messagesFts g).filterMap
    fun f => (db.messages.lookup f.key).map fun row => row.toHit f.key

/-- The rows of `messages` in scope. -/
def scannedHits (db : Cache) (accountId : Option AccountId) (mailbox : Option String) :
    List SearchHit :=
  (db.messages.rows.filter fun r => inScope accountId mailbox r.1).map fun r => r.2.toHit r.1

/-- `search`. -/
def search (engine : SearchEngine) (db : Cache) (accountId : Option AccountId) (query : ParsedQuery)
    (mailbox : Option String) : List SearchHit :=
  let kept (hits : List SearchHit) := hits.filter fun hit =>
    (query.messageFilters engine).matches engine hit.header.date hit.header.isSeen
  match query.toFtsMatch with
  | some expr => kept (ftsHits engine db accountId mailbox expr)
  | none =>
    if query.isEmpty then []
    else
      (kept (scannedHits db accountId mailbox)).mergeSort fun a b =>
        timestampLe (engine.messageTimestamp b.header.date) (engine.messageTimestamp a.header.date)

/-! ## 1. What a search can find -/

theorem mem_ftsHits {engine : SearchEngine} {db : Cache} {accountId : Option AccountId}
    {mailbox : Option String} {expr : String} {hit : SearchHit}
    (h : hit ∈ ftsHits engine db accountId mailbox expr) :
    hit.key ∈ db.messages.keys ∧ inScope accountId mailbox hit.key = true := by
  obtain ⟨f, hf, hrow⟩ := List.mem_filterMap.mp h
  rw [List.mem_mergeSort, List.mem_filter, Bool.and_eq_true] at hf
  obtain ⟨row, hlookup, rfl⟩ := Option.map_eq_some_iff.mp hrow
  exact ⟨Table.mem_keys.mpr ⟨row, hlookup⟩, hf.2.1⟩

theorem mem_scannedHits {db : Cache} {accountId : Option AccountId} {mailbox : Option String}
    {hit : SearchHit} (h : hit ∈ scannedHits db accountId mailbox) :
    hit.key ∈ db.messages.keys ∧ inScope accountId mailbox hit.key = true := by
  obtain ⟨r, hr, rfl⟩ := List.mem_map.mp h
  obtain ⟨hmem, hscope⟩ := List.mem_filter.mp hr
  exact ⟨List.mem_map_of_mem hmem, hscope⟩

/-- A hit is a message of the cache, in the account and the mailbox that were asked for. -/
theorem mem_search {engine : SearchEngine} {db : Cache} {accountId : Option AccountId}
    {query : ParsedQuery} {mailbox : Option String} {hit : SearchHit}
    (h : hit ∈ db.search engine accountId query mailbox) :
    hit.key ∈ db.messages.keys ∧ inScope accountId mailbox hit.key = true := by
  unfold search at h
  split at h
  · exact mem_ftsHits (List.mem_of_mem_filter h)
  · split at h
    · exact absurd h (by simp)
    · rw [List.mem_mergeSort] at h
      exact mem_scannedHits (List.mem_of_mem_filter h)

/-- The hits of the index are of different messages where the rows of the index are. -/
theorem nodup_ftsHits {engine : SearchEngine} {db : Cache} {accountId : Option AccountId}
    {mailbox : Option String} {expr : String} (hfts : (db.messagesFts.map FtsRow.key).Nodup) :
    ((ftsHits engine db accountId mailbox expr).map SearchHit.key).Nodup := by
  have hsub : (((db.messagesFts.filter fun f =>
      inScope accountId mailbox f.key && engine.matchesFts expr f).mergeSort
        fun f g => engine.rank expr db.messagesFts f ≤ engine.rank expr db.messagesFts g).map
      FtsRow.key).Nodup :=
    ((List.mergeSort_perm _ _).map _).nodup_iff.mpr (hfts.sublist (List.filter_sublist.map _))
  unfold ftsHits
  revert hsub
  generalize (db.messagesFts.filter _).mergeSort _ = rows
  intro hsub
  induction rows with
  | nil => exact List.nodup_nil
  | cons f rest ih =>
    rw [List.map_cons, List.nodup_cons] at hsub
    rw [List.filterMap_cons]
    split
    · exact ih hsub.2
    · next hit hhit =>
      obtain ⟨row, -, rfl⟩ := Option.map_eq_some_iff.mp hhit
      rw [List.map_cons, List.nodup_cons, MessageRow.key_toHit]
      refine ⟨fun hmem => hsub.1 ?_, ih hsub.2⟩
      obtain ⟨other, hother, hkey⟩ := List.mem_map.mp hmem
      obtain ⟨g, hg, hgrow⟩ := List.mem_filterMap.mp hother
      obtain ⟨row', -, rfl⟩ := Option.map_eq_some_iff.mp hgrow
      exact List.mem_map.mpr ⟨g, hg, hkey⟩

theorem nodup_scannedHits {db : Cache} {accountId : Option AccountId} {mailbox : Option String} :
    ((scannedHits db accountId mailbox).map SearchHit.key).Nodup := by
  rw [scannedHits, List.map_map]
  exact db.messages.nodup.sublist (List.filter_sublist.map _)

/-- No message is found twice, if none stands in the index twice. -/
theorem nodup_search {engine : SearchEngine} {db : Cache} {accountId : Option AccountId}
    {query : ParsedQuery} {mailbox : Option String} (hfts : (db.messagesFts.map FtsRow.key).Nodup) :
    ((db.search engine accountId query mailbox).map SearchHit.key).Nodup := by
  unfold search
  split
  · exact (nodup_ftsHits hfts).sublist (List.filter_sublist.map _)
  · split
    · exact List.nodup_nil
    · rw [((List.mergeSort_perm _ _).map _).nodup_iff]
      exact nodup_scannedHits.sublist (List.filter_sublist.map _)

end Cache

end Esmail
