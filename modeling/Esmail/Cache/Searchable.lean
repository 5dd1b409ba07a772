/-
# Whether what is listed is found

`index_headers_searchable` gives a message a row in the index only where it is NOT KNOWN, and takes a row
of `messages` for knowledge.  A message that only `index_headers` has stored is known and has no row, so
that nothing finds it, however often it is listed.  Nor is a row that is there brought up to date with the
header.

`listed_found_iff` says when all is well, in any tables that are in step: each message listed is found by
what its header says, and what was in the index is as it was, just where each message has such a row, or
is new and is listed with these words first (`RowAhead`).

`rowsOf_listed` is the loop: which rows a message has after a list of headers.  Then a message with one
row is found by a header just where the row says the same (`found_iff`).  That is a statement about every
index, so for the one direction it takes an index that matches these words and no others (`matching`).
-/
import Esmail.Cache.Filters
import Esmail.Cache.Referential

namespace Esmail.Cache

open Statements Transition

variable {codec : Codec} {engine : SearchEngine} {now : Int} {accountId : AccountId} {mailbox : String}

/-- The rows of the index for a message. -/
def rowsOf (db : Cache) (key : Key) : List FtsRow := db.messagesFts.filter fun r => r.key = key

/-- A message has one row in the index, and a search that this row would match if it were the header's finds
the message. -/
structure Found (db : Cache) (key : Key) (h : MailHeader) : Prop where
  once : (db.rowsOf key).length = 1
  search : ∀ (engine : SearchEngine) (accountId : Option AccountId) (mailbox : Option String)
    (q : ParsedQuery) (expr : String), q.toFtsMatch = some expr →
    q.messageFilters engine = ⟨none, none, false⟩ → inScope accountId mailbox key = true →
    (∀ r : FtsRow, r.key = key → r.subject = h.subject → r.fromAddr = h.sender →
      engine.matchesFts expr r = true) →
    ∃ hit ∈ db.search engine accountId q mailbox, hit.key = key

/-! ## 1. The rows after a list of headers -/

theorem mem_rowsOf {db : Cache} {key : Key} {r : FtsRow} :
    r ∈ db.rowsOf key ↔ r ∈ db.messagesFts ∧ r.key = key := by
  rw [rowsOf, List.mem_filter, decide_eq_true_eq]

theorem key_ftsRow (key : Key) (h : MailHeader) (body : String) : (ftsRow key h body).key = key := rfl

theorem rowsOf_insertFts (db : Cache) (row : FtsRow) (key : Key) :
    (db.insertFts row).rowsOf key = if row.key = key then db.rowsOf key ++ [row] else db.rowsOf key := by
  simp only [rowsOf, insertFts, List.filter_append, List.filter_singleton]
  split
  · next hkey => rw [decide_eq_true hkey, cond_true]
  · next hkey => rw [decide_eq_false hkey, cond_false, List.append_nil]

/-- One header: a message that is not known gets a row. -/
theorem rowsOf_listedSearchable (db : Cache) (h : MailHeader) (key : Key) :
    (db.listedSearchable accountId mailbox h).rowsOf key =
      if key = ⟨accountId, mailbox, h.uid⟩ ∧ key ∉ db.messages.keys then
        db.rowsOf key ++ [ftsRow key h ""] else db.rowsOf key := by
  have hknown : (db.messages.lookup ⟨accountId, mailbox, h.uid⟩).isSome = true ↔
      (⟨accountId, mailbox, h.uid⟩ : Key) ∈ db.messages.keys := by
    rw [Option.isSome_iff_exists, Table.mem_keys]
  rw [listedSearchable]
  split
  · next hsome =>
    rw [if_neg]
    · rfl
    · rintro ⟨rfl, hnew⟩
      exact hnew (hknown.mp hsome)
  · next hnone =>
    rw [rowsOf_insertFts, key_ftsRow]
    by_cases hkey : key = ⟨accountId, mailbox, h.uid⟩
    · subst hkey
      rw [if_pos rfl, if_pos ⟨rfl, fun hmem => hnone (hknown.mpr hmem)⟩]
      rfl
    · rw [if_neg (Ne.symm hkey), if_neg fun hboth => hkey hboth.1]
      rfl

theorem mem_keys_listedSearchable {db : Cache} {h : MailHeader} {key : Key} :
    key ∈ (db.listedSearchable accountId mailbox h).messages.keys ↔
      key = ⟨accountId, mailbox, h.uid⟩ ∨ key ∈ db.messages.keys := by
  rw [listedSearchable]
  split <;> exact Table.mem_keys_upsert

/-- A list of headers: a message that is not known gets one row, of the first header that lists it. -/
theorem rowsOf_listed (headers : List MailHeader) (db : Cache) (key : Key) :
    (headers.foldl (listedSearchable accountId mailbox) db).rowsOf key =
      if key ∈ db.messages.keys then db.rowsOf key
      else db.rowsOf key ++ ((headers.find? fun h => key = ⟨accountId, mailbox, h.uid⟩).map
        fun h => ftsRow key h "").toList := by
  induction headers generalizing db with
  | nil => simp
  | cons h headers ih =>
    rw [List.foldl_cons, ih, rowsOf_listedSearchable, List.find?_cons]
    simp only [mem_keys_listedSearchable]
    by_cases hknown : key ∈ db.messages.keys
    · simp [hknown]
    · by_cases hkey : key = ⟨accountId, mailbox, h.uid⟩ <;> simp [hknown, hkey]

/-! ## 2. What is found -/

/-- Text that is matched for a query, and nothing else of it. -/
theorem mem_search_of_row {db : Cache} {engine : SearchEngine} {accountId : Option AccountId}
    {mailbox : Option String} {q : ParsedQuery} {expr : String} (hexpr : q.toFtsMatch = some expr)
    (hfilters : q.messageFilters engine = ⟨none, none, false⟩) {r : FtsRow} (hr : r ∈ db.messagesFts)
    (hknown : r.key ∈ db.messages.keys) (hscope : inScope accountId mailbox r.key = true)
    (hmatches : engine.matchesFts expr r = true) :
    ∃ hit ∈ db.search engine accountId q mailbox, hit.key = r.key := by
  obtain ⟨row, hrow⟩ := Table.mem_keys.mp hknown
  refine ⟨row.toHit r.key, (search_matched hexpr _).mpr ⟨⟨⟨row, hrow, rfl⟩, hscope, ?_⟩, r, hr, rfl,
    hmatches⟩, rfl⟩
  rw [← matches_iff_admits, hfilters]
  rfl

/-- A query of one word. -/
def wordQuery : ParsedQuery := { text := ["word"] }

/-- An index that matches the rows with this subject and this sender, whatever it is asked. -/
def matching (subject fromAddr : String) : SearchEngine :=
  ⟨fun _ r => r.subject = subject && r.fromAddr = fromAddr, fun _ _ _ => 0, fun _ => none, fun _ => none⟩

/-- A message of the cache is found by what a header says where its one row says the same. -/
theorem found_iff {db : Cache} {key : Key} {h : MailHeader} (hknown : key ∈ db.messages.keys) :
    Found db key h ↔ ∃ r, db.rowsOf key = [r] ∧ r.subject = h.subject ∧ r.fromAddr = h.sender := by
  constructor
  · rintro ⟨honce, hsearch⟩
    obtain ⟨r, hrows⟩ := List.length_eq_one_iff.mp honce
    have hexpr : wordQuery.toFtsMatch = some _ := rfl
    obtain ⟨hit, hhit, hkey⟩ := hsearch (matching h.subject h.sender) none none wordQuery _ hexpr rfl rfl
      fun r _ hsubject hsender => by simp [matching, hsubject, hsender]
    obtain ⟨-, f, hf, hfkey, hmatches⟩ := (search_matched hexpr hit).mp hhit
    have hrow : f = r := by
      rw [← List.mem_singleton, ← hrows, mem_rowsOf]
      exact ⟨hf, hfkey.trans hkey⟩
    simp only [matching, Bool.and_eq_true, decide_eq_true_eq, hrow] at hmatches
    exact ⟨r, hrows, hmatches⟩
  · rintro ⟨r, hrows, hsubject, hsender⟩
    obtain ⟨hr, hkey⟩ := mem_rowsOf.mp (hrows ▸ List.mem_singleton.mpr rfl : r ∈ db.rowsOf key)
    refine ⟨by rw [hrows, List.length_singleton], ?_⟩
    intro engine accountId mailbox q expr hexpr hfilters hscope hmatches
    rw [← hkey] at hknown hscope ⊢
    exact mem_search_of_row hexpr hfilters hr hknown hscope (hmatches r hkey hsubject hsender)

/-- Where a list of headers leaves a message with a row that says what the header says: the message is known
and has such a row, or it is new and the first header that lists it says the same. -/
def RowAhead (accountId : AccountId) (mailbox : String) (headers : List MailHeader) (db : Cache)
    (h : MailHeader) : Prop :=
  let key : Key := ⟨accountId, mailbox, h.uid⟩
  (key ∈ db.messages.keys ∧ ∃ r ∈ db.messagesFts, r.key = key ∧ r.subject = h.subject ∧
    r.fromAddr = h.sender) ∨
  (key ∉ db.messages.keys ∧ ∃ first, headers.find? (fun g => g.uid = h.uid) = some first ∧
    first.subject = h.subject ∧ first.sender = h.sender)

/-- In tables that are in step, a message has its row of the index alone. -/
theorem Referential.rowsOf_eq {db : Cache} (hdb : Referential db) {key : Key} {r : FtsRow}
    (hr : r ∈ db.messagesFts) (hkey : r.key = key) : db.rowsOf key = [r] := by
  obtain ⟨before, after, hsplit⟩ := List.mem_iff_append.mp hr
  have hnodup := hdb.once
  rw [hsplit, List.map_append, List.map_cons, List.nodup_append] at hnodup
  obtain ⟨-, hafter, hbefore⟩ := hnodup
  rw [rowsOf, hsplit, List.filter_append, List.filter_cons_of_pos (by simpa using hkey)]
  have hfront : before.filter (fun r => r.key = key) = [] := by
    rw [List.filter_eq_nil_iff]
    intro g hg hgkey
    exact hbefore _ (List.mem_map_of_mem hg) _ List.mem_cons_self ((of_decide_eq_true hgkey).trans hkey.symm)
  have hback : after.filter (fun r => r.key = key) = [] := by
    rw [List.filter_eq_nil_iff]
    intro g hg hgkey
    refine (List.nodup_cons.mp hafter).1 ?_
    rw [hkey, ← of_decide_eq_true hgkey]
    exact List.mem_map_of_mem hg
  rw [hfront, hback]
  rfl

theorem Referential.rowsOf_eq_nil {db : Cache} (hdb : Referential db) {key : Key}
    (hkey : key ∉ db.messages.keys) : db.rowsOf key = [] := by
  rw [List.eq_nil_iff_forall_not_mem]
  intro r hr
  obtain ⟨hmem, rfl⟩ := mem_rowsOf.mp hr
  exact hkey (hdb.fts r hmem)

/-! ## 3. Listing -/

/-- A row that is there stays as it is, and alone. -/
theorem rowsOf_kept {db : Cache} (hdb : Referential db) (headers : List MailHeader) {r : FtsRow}
    (hr : r ∈ db.messagesFts) :
    (headers.foldl (listedSearchable accountId mailbox) db).rowsOf r.key = [r] := by
  rw [rowsOf_listed, if_pos (hdb.fts r hr), hdb.rowsOf_eq hr rfl]

/-- Each message of a list is known after it. -/
theorem mem_keys_listed {headers : List MailHeader} {h : MailHeader} (hmem : h ∈ headers) (db : Cache) :
    (⟨accountId, mailbox, h.uid⟩ : Key) ∈
      (headers.foldl (listedSearchable accountId mailbox) db).messages.keys := by
  have hkept : ∀ (headers : List MailHeader) (db : Cache) (key : Key), key ∈ db.messages.keys →
      key ∈ (headers.foldl (listedSearchable accountId mailbox) db).messages.keys := by
    intro headers
    induction headers with
    | nil => exact fun _ _ hkey => hkey
    | cons g headers ih => exact fun db key hkey => ih _ key (mem_keys_listedSearchable.mpr (.inr hkey))
  induction headers generalizing db with
  | nil => exact absurd hmem List.not_mem_nil
  | cons g headers ih =>
    rcases List.mem_cons.mp hmem with rfl | hmem
    · exact hkept headers _ _ (mem_keys_listedSearchable.mpr (.inl rfl))
    · exact ih hmem _

theorem key_eq_iff (h g : MailHeader) :
    (⟨accountId, mailbox, h.uid⟩ : Key) = ⟨accountId, mailbox, g.uid⟩ ↔ g.uid = h.uid := by
  rw [Key.mk.injEq]
  exact ⟨fun heq => heq.2.2.symm, fun heq => ⟨rfl, rfl, heq.symm⟩⟩

/-- The row of a message that was not known, after a list of headers. -/
theorem rowsOf_new {db : Cache} (hdb : Referential db) (headers : List MailHeader) {h : MailHeader}
    (hnew : (⟨accountId, mailbox, h.uid⟩ : Key) ∉ db.messages.keys) :
    (headers.foldl (listedSearchable accountId mailbox) db).rowsOf ⟨accountId, mailbox, h.uid⟩ =
      ((headers.find? fun g => g.uid = h.uid).map fun g =>
        ftsRow ⟨accountId, mailbox, h.uid⟩ g "").toList := by
  rw [rowsOf_listed, if_neg hnew, hdb.rowsOf_eq_nil hnew, List.nil_append]
  simp only [key_eq_iff]

/-- What a list of headers makes findable, one message at a time. -/
theorem listed_iff {db : Cache} (hdb : Referential db) (headers : List MailHeader) {h : MailHeader}
    (hmem : h ∈ headers) :
    Found (headers.foldl (listedSearchable accountId mailbox) db) ⟨accountId, mailbox, h.uid⟩ h ↔
      RowAhead accountId mailbox headers db h := by
  rw [found_iff (mem_keys_listed hmem db), RowAhead]
  by_cases hknown : (⟨accountId, mailbox, h.uid⟩ : Key) ∈ db.messages.keys
  · rw [rowsOf_listed, if_pos hknown]
    simp only [hknown, true_and, not_true, false_and, or_false]
    constructor
    · rintro ⟨r, hrows, hsays⟩
      obtain ⟨hr, hkey⟩ := mem_rowsOf.mp (hrows ▸ List.mem_singleton.mpr rfl : r ∈ db.rowsOf _)
      exact ⟨r, hr, hkey, hsays⟩
    · rintro ⟨r, hr, hkey, hsays⟩
      exact ⟨r, hdb.rowsOf_eq hr hkey, hsays⟩
  · rw [rowsOf_new hdb headers hknown]
    simp only [hknown, false_and, not_false_eq_true, true_and, false_or]
    constructor
    · rintro ⟨r, hrows, hsays⟩
      obtain ⟨first, hfirst, rfl⟩ : ∃ first, headers.find? (fun g => g.uid = h.uid) = some first ∧
          ftsRow ⟨accountId, mailbox, h.uid⟩ first "" = r := by
        rw [← Option.map_eq_some_iff, ← Option.mem_toList, hrows, List.mem_singleton]
      exact ⟨first, hfirst, hsays⟩
    · rintro ⟨first, hfirst, hsays⟩
      refine ⟨ftsRow ⟨accountId, mailbox, h.uid⟩ first "", ?_, hsays⟩
      rw [hfirst]
      rfl

/-- After a list of headers each message listed is found by its subject and its sender, and what was in the
index before is as it was, just where each of them was in the index with these before, or was not known and
is listed with these first.  All that it takes is tables that are in step, as those of every state of the
cache are (`referential_of_reach`). -/
theorem listed_found_iff {db : Cache} (hdb : Referential db) (now : Int)
    (accountId : AccountId) (mailbox : String) (headers : List MailHeader) :
    ((∀ h ∈ headers, Found (after codec engine now (.indexHeadersSearchable accountId mailbox headers) db)
        ⟨accountId, mailbox, h.uid⟩ h) ∧
      ∀ r ∈ db.messagesFts,
        (after codec engine now (.indexHeadersSearchable accountId mailbox headers) db).rowsOf r.key = [r]) ↔
    ∀ h ∈ headers, RowAhead accountId mailbox headers db h := by
  rw [after_indexHeadersSearchable]
  constructor
  · rintro ⟨hfound, -⟩ h hmem
    exact (listed_iff hdb headers hmem).mp (hfound h hmem)
  · intro hahead
    exact ⟨fun h hmem => (listed_iff hdb headers hmem).mpr (hahead h hmem),
      fun r hr => rowsOf_kept hdb headers hr⟩

/-- A message that is cached with its body is listed again, with one that is new: both are found. -/
theorem listed_found_invoice : ∃ db, (machine plainCodec findsAll).Reach Machine.any db ∧
    db.messagesFts = [ftsRow ⟨"me", "INBOX", 7⟩ invoice "please pay"] ∧
      Found (after plainCodec findsAll 1 (.indexHeadersSearchable "me" "INBOX" [invoice, memo]) db)
        ⟨"me", "INBOX", 7⟩ invoice ∧
      Found (after plainCodec findsAll 1 (.indexHeadersSearchable "me" "INBOX" [invoice, memo]) db)
        ⟨"me", "INBOX", 8⟩ memo := by
  obtain ⟨db, hr, hp⟩ := Machine.exists_reach_of_trace (machine plainCodec findsAll) Machine.any
    [(0, .indexMail "me" "INBOX" invoice "please pay" [])]
    (fun db => decide (db.messages.keys = [⟨"me", "INBOX", 7⟩] ∧
      db.messagesFts = [ftsRow ⟨"me", "INBOX", 7⟩ invoice "please pay"])) rfl (by decide)
  obtain ⟨hkeys, hfts⟩ := of_decide_eq_true hp
  have hahead : ∀ h ∈ [invoice, memo], RowAhead "me" "INBOX" [invoice, memo] db h := by
    simp only [List.mem_cons, List.not_mem_nil, or_false, forall_eq_or_imp, forall_eq]
    refine ⟨.inl ⟨by rw [hkeys]; decide, _, by rw [hfts]; exact List.mem_cons_self, rfl, rfl, rfl⟩,
      .inr ⟨by rw [hkeys]; decide, memo, by decide, rfl, rfl⟩⟩
  have hfound : ∀ h ∈ [invoice, memo], Found (after plainCodec findsAll 1
      (.indexHeadersSearchable "me" "INBOX" [invoice, memo]) db) ⟨"me", "INBOX", h.uid⟩ h :=
    ((listed_found_iff (referential_of_reach hr) 1 "me" "INBOX" [invoice, memo]).mpr hahead).1
  exact ⟨db, hr, hfts, hfound invoice List.mem_cons_self,
    hfound memo (List.mem_cons_of_mem _ List.mem_cons_self)⟩

/-- A header that was indexed plain and is then listed has no row, and a search for its subject finds
nothing. -/
theorem plain_header_not_found : ∃ db, (machine plainCodec findsAll).Reach Machine.any db ∧
    (after plainCodec findsAll 0 (.indexHeadersSearchable "me" "INBOX" [invoice]) db).rowsOf
      ⟨"me", "INBOX", 7⟩ = [] ∧
    (after plainCodec findsAll 0 (.indexHeadersSearchable "me" "INBOX" [invoice]) db).search findsAll none
      { text := ["invoice"] } none = [] := by
  obtain ⟨db, hr, hp⟩ := Machine.exists_reach_of_trace (machine plainCodec findsAll) Machine.any
    [(0, .indexHeaders "me" "INBOX" [invoice])]
    (fun db => decide ((after plainCodec findsAll 0 (.indexHeadersSearchable "me" "INBOX" [invoice])
      db).messagesFts = [])) rfl (by decide)
  have hnone := of_decide_eq_true hp
  refine ⟨db, hr, by rw [rowsOf, hnone]; rfl, ?_⟩
  rw [List.eq_nil_iff_forall_not_mem]
  intro hit hhit
  obtain ⟨-, f, hf, -⟩ := (search_matched rfl hit).mp hhit
  rw [hnone] at hf
  exact List.not_mem_nil hf

end Esmail.Cache
