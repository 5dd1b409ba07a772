/-
# What the filters of a search let through

`search` without text scans the messages in scope, keeps those the filters match and sorts them by date,
newest first.  `Admits` says what the filters ask of a message, date by date.

A date before 1970, or at its first second, is NO date: `dateparse` answers 0 for what it cannot read, and
`message_timestamp` takes that, and all below, for unreadable.

`is_empty` is to keep a query that narrows nothing from answering with the whole cache.  It looks at whether
there is a `since:` or `before:`, the filters at whether it reads.

* `search_exact`, for any cache, scope and query: with filters alone a search finds the messages in scope
  that are admitted, each once, newest first and those without a date last; with text it finds of the
  messages admitted those with a matching row in the index;
* `empty_iff_narrows_nothing`, for whatever is typed: `is_empty` does what it is for, just where one of the
  dates reads, or there is something else to narrow by (`DatesNarrow`).

The first goes by what one message has to satisfy (`matches_iff_admits`) and what a search does with those
that do (`search_scanned`, `search_matched`).  For the other direction of the second, a cache with one
message that no date admits is enough (`undated`).

How a date is read, and what the index matches, are parameters (`SearchEngine`).
-/
import Esmail.Cache.Query

namespace Esmail

variable {engine : SearchEngine}

/-! ## 1. What the filters ask of a message -/

/-- The date of a message as a time after the beginning of 1970. -/
def SearchEngine.DatedAt (engine : SearchEngine) (date : String) (t : Int) : Prop :=
  engine.dateparse date = some t ∧ 0 < t

/-- The filters of a query, as they are meant: a bound that does not read is none. -/
structure Admits (engine : SearchEngine) (q : ParsedQuery) (hit : SearchHit) : Prop where
  unread : q.isUnread = true → hit.header.isSeen = false
  since : ∀ text since, q.since = some text → engine.parseDate text = some since →
    ∃ t, engine.DatedAt hit.header.date t ∧ since ≤ t
  before : ∀ text before, q.before = some text → engine.parseDate text = some before →
    ∃ t, engine.DatedAt hit.header.date t ∧ t < before

theorem messageTimestamp_eq_some {date : String} {t : Int} :
    engine.messageTimestamp date = some t ↔ engine.DatedAt date t := by
  rw [SearchEngine.messageTimestamp, Option.filter_eq_some_iff, decide_eq_true_eq]
  rfl

/-- A bound of the filters. -/
theorem bound_eq_some {bound : Option String} {t : Int} :
    bound.bind engine.parseDate = some t ↔ ∃ text, bound = some text ∧ engine.parseDate text = some t :=
  Option.bind_eq_some_iff

/-- `matches`, with the date read once. -/
theorem matches_iff {f : MessageFilters} {date : String} {isSeen : Bool} :
    f.matches engine date isSeen = true ↔ (f.unreadOnly = true → isSeen = false) ∧
      (∀ since, f.since = some since → ∃ t, engine.messageTimestamp date = some t ∧ since ≤ t) ∧
      ∀ before, f.before = some before → ∃ t, engine.messageTimestamp date = some t ∧ t < before := by
  obtain ⟨since, before, unreadOnly⟩ := f
  rw [MessageFilters.matches]
  split
  · next hseen =>
    obtain ⟨rfl, rfl⟩ := Bool.and_eq_true_iff.mp hseen
    simp
  · next hseen =>
    have hunread : unreadOnly = true → isSeen = false := by
      cases unreadOnly <;> cases isSeen <;> simp_all
    split
    · next hbounds =>
      cases engine.messageTimestamp date with
      | none =>
        cases since <;> cases before <;> simp_all
      | some ts =>
        cases since <;> cases before <;> simp_all
    · next hbounds =>
      cases since <;> cases before <;> simp_all

/-- The filters of a query match the messages it admits. -/
theorem matches_iff_admits {q : ParsedQuery} {hit : SearchHit} :
    (q.messageFilters engine).matches engine hit.header.date hit.header.isSeen = true ↔
      Admits engine q hit := by
  rw [matches_iff]
  simp only [ParsedQuery.messageFilters, bound_eq_some, messageTimestamp_eq_some]
  constructor
  · rintro ⟨hunread, hsince, hbefore⟩
    exact ⟨hunread, fun text since htext hread => hsince since ⟨text, htext, hread⟩,
      fun text before htext hread => hbefore before ⟨text, htext, hread⟩⟩
  · rintro ⟨hunread, hsince, hbefore⟩
    refine ⟨hunread, ?_, ?_⟩
    · rintro since ⟨text, htext, hread⟩
      exact hsince text since htext hread
    · rintro before ⟨text, htext, hread⟩
      exact hbefore text before htext hread

/-! ## 2. Searches -/

/-- A hit that shows a message as it is cached. -/
def SearchHit.IsCached (hit : SearchHit) (db : Cache) : Prop :=
  ∃ row, db.messages.lookup hit.key = some row ∧ hit = row.toHit hit.key

/-- Latest date first, and those without a date last. -/
def NewestFirst (engine : SearchEngine) (hits : List SearchHit) : Prop :=
  hits.Pairwise fun a b => ∀ t, engine.DatedAt b.header.date t →
    ∃ t', engine.DatedAt a.header.date t' ∧ t ≤ t'

namespace Cache

variable {db : Cache} {accountId : Option AccountId} {mailbox : Option String} {q : ParsedQuery}

theorem mem_scannedHits_iff {hit : SearchHit} : hit ∈ scannedHits db accountId mailbox ↔
    hit.IsCached db ∧ inScope accountId mailbox hit.key = true := by
  rw [scannedHits, List.mem_map]
  constructor
  · rintro ⟨r, hr, rfl⟩
    obtain ⟨hmem, hscope⟩ := List.mem_filter.mp hr
    exact ⟨⟨r.2, Table.lookup_eq_some.mpr hmem, rfl⟩, hscope⟩
  · rintro ⟨⟨row, hrow, hhit⟩, hscope⟩
    exact ⟨(hit.key, row), List.mem_filter.mpr ⟨Table.lookup_eq_some.mp hrow, hscope⟩, hhit.symm⟩

theorem mem_ftsHits_iff {expr : String} {hit : SearchHit} :
    hit ∈ ftsHits engine db accountId mailbox expr ↔
      hit.IsCached db ∧ inScope accountId mailbox hit.key = true ∧
        ∃ f ∈ db.messagesFts, f.key = hit.key ∧ engine.matchesFts expr f = true := by
  rw [ftsHits, List.mem_filterMap]
  simp only [List.mem_mergeSort, List.mem_filter, Bool.and_eq_true, Option.map_eq_some_iff]
  constructor
  · rintro ⟨f, ⟨hf, hscope, hmatches⟩, row, hrow, rfl⟩
    exact ⟨⟨row, hrow, rfl⟩, hscope, f, hf, rfl, hmatches⟩
  · rintro ⟨⟨row, hrow, hhit⟩, hscope, f, hf, hkey, hmatches⟩
    rw [← hkey] at hrow hscope hhit
    exact ⟨f, ⟨hf, hscope, hmatches⟩, row, hrow, hhit.symm⟩

theorem timestampLe_trans {a b c : Option Int} (hab : timestampLe a b = true)
    (hbc : timestampLe b c = true) : timestampLe a c = true := by
  match a, b, c with
  | none, _, _ => rfl
  | some a, some b, some c =>
    simp only [timestampLe, decide_eq_true_eq] at hab hbc ⊢
    omega

theorem timestampLe_total (a b : Option Int) : (timestampLe a b || timestampLe b a) = true := by
  match a, b with
  | none, _ => rfl
  | some _, none => rfl
  | some a, some b =>
    simp only [timestampLe, Bool.or_eq_true, decide_eq_true_eq]
    omega

/-- A search with filters alone. -/
theorem search_filters (htext : q.isFtsEmpty = true) (hq : q.isEmpty = false) :
    db.search engine accountId q mailbox =
      ((scannedHits db accountId mailbox).filter fun hit =>
        (q.messageFilters engine).matches engine hit.header.date hit.header.isSeen).mergeSort
        fun a b =>
          timestampLe (engine.messageTimestamp b.header.date) (engine.messageTimestamp a.header.date) := by
  have hnone : q.toFtsMatch = none := if_pos htext
  simp only [search, hnone, hq]
  rfl

theorem search_text {expr : String} (hexpr : q.toFtsMatch = some expr) :
    db.search engine accountId q mailbox =
      (ftsHits engine db accountId mailbox expr).filter fun hit =>
        (q.messageFilters engine).matches engine hit.header.date hit.header.isSeen := by
  simp only [search, hexpr]

/-- With filters alone, a search finds the messages in scope that the filters admit, -/
theorem search_scanned (htext : q.isFtsEmpty = true) (hq : q.isEmpty = false) (hit : SearchHit) :
    hit ∈ db.search engine accountId q mailbox ↔
      hit.IsCached db ∧ inScope accountId mailbox hit.key = true ∧ Admits engine q hit := by
  rw [search_filters htext hq, List.mem_mergeSort, List.mem_filter, matches_iff_admits,
    mem_scannedHits_iff, and_assoc]

/-- and shows them newest first. -/
theorem newestFirst_search (htext : q.isFtsEmpty = true) (hq : q.isEmpty = false) :
    NewestFirst engine (db.search engine accountId q mailbox) := by
  have hsorted := @List.pairwise_mergeSort _
    (fun a b : SearchHit =>
      timestampLe (engine.messageTimestamp b.header.date) (engine.messageTimestamp a.header.date))
    (fun _ _ _ hab hbc => timestampLe_trans hbc hab) (fun _ _ => timestampLe_total _ _)
    ((scannedHits db accountId mailbox).filter fun hit =>
      (q.messageFilters engine).matches engine hit.header.date hit.header.isSeen)
  rw [← search_filters htext hq] at hsorted
  refine hsorted.imp fun {a b} hle t hdate => ?_
  rw [← messageTimestamp_eq_some] at hdate
  rw [hdate] at hle
  cases ha : engine.messageTimestamp a.header.date with
  | none =>
    rw [ha] at hle
    exact absurd hle Bool.false_ne_true
  | some t' =>
    rw [ha] at hle
    exact ⟨t', messageTimestamp_eq_some.mp ha, of_decide_eq_true hle⟩

/-- No message is shown twice: they are read off the table. -/
theorem nodup_search_filters (htext : q.isFtsEmpty = true) (hq : q.isEmpty = false) :
    ((db.search engine accountId q mailbox).map SearchHit.key).Nodup := by
  rw [search_filters htext hq, ((List.mergeSort_perm _ _).map _).nodup_iff]
  exact nodup_scannedHits.sublist (List.filter_sublist.map _)

/-- With text, a search finds of those the messages that have a matching row in the index. -/
theorem search_matched {expr : String} (hexpr : q.toFtsMatch = some expr) (hit : SearchHit) :
    hit ∈ db.search engine accountId q mailbox ↔
      (hit.IsCached db ∧ inScope accountId mailbox hit.key = true ∧ Admits engine q hit) ∧
        ∃ f ∈ db.messagesFts, f.key = hit.key ∧ engine.matchesFts expr f = true := by
  rw [search_text hexpr, List.mem_filter, matches_iff_admits, mem_ftsHits_iff]
  tauto

/-- Whatever is cached, a search with filters alone finds exactly what they admit in scope, each message once
and newest first, and one with text finds of that what the index has for it. -/
theorem search_exact (engine : SearchEngine) (db : Cache) (accountId : Option AccountId)
    (mailbox : Option String) (q : ParsedQuery) :
    (q.isFtsEmpty = true → q.isEmpty = false →
      (∀ hit, hit ∈ db.search engine accountId q mailbox ↔
        hit.IsCached db ∧ inScope accountId mailbox hit.key = true ∧ Admits engine q hit) ∧
      ((db.search engine accountId q mailbox).map SearchHit.key).Nodup ∧
      NewestFirst engine (db.search engine accountId q mailbox)) ∧
    ∀ expr, q.toFtsMatch = some expr → ∀ hit, hit ∈ db.search engine accountId q mailbox ↔
      (hit.IsCached db ∧ inScope accountId mailbox hit.key = true ∧ Admits engine q hit) ∧
        ∃ f ∈ db.messagesFts, f.key = hit.key ∧ engine.matchesFts expr f = true :=
  ⟨fun htext hq => ⟨search_scanned htext hq, nodup_search_filters htext hq, newestFirst_search htext hq⟩,
    fun _ hexpr => search_matched hexpr⟩

/-- An engine that reads the dates of two messages, and a mailbox with these, one whose date does not read,
and one that has been seen. -/
def twoYears : SearchEngine where
  matchesFts _ _ := true
  rank _ _ _ := 0
  parseDate _ := none
  dateparse s := if s = "Sat, 1 Jan 2000 00:00:00 +0000" then some 946684800
    else if s = "Mon, 1 Jan 2001 00:00:00 +0000" then some 978307200 else none

def twoYearsMail : Cache :=
  { Cache.initSchema with
    messages := ⟨[(⟨"me", "INBOX", 3⟩,
        ⟨"old", "a@x", "b@x", "Sat, 1 Jan 2000 00:00:00 +0000", "<3@x>", ""⟩),
      (⟨"me", "INBOX", 5⟩, ⟨"undated", "a@x", "b@x", "yesterday", "<5@x>", ""⟩),
      (⟨"me", "INBOX", 8⟩, ⟨"seen", "a@x", "b@x", "Mon, 1 Jan 2001 00:00:00 +0000", "<8@x>", "\\Seen"⟩),
      (⟨"me", "INBOX", 9⟩, ⟨"new", "a@x", "b@x", "Mon, 1 Jan 2001 00:00:00 +0000", "<9@x>", ""⟩)],
      by decide⟩ }

/-- The unread ones of them: the newer of the dated messages comes first, and the undated one last. -/
theorem search_exact_unread :
    let hits := twoYearsMail.search twoYears none { isUnread := true } none
    hits.map (fun hit => hit.key.uid) = [9, 3, 5] ∧ (hits.map SearchHit.key).Nodup ∧
      NewestFirst twoYears hits := by
  refine ⟨?_, ((search_exact twoYears twoYearsMail none none { isUnread := true }).1 rfl rfl).2⟩
  have hunread : ((scannedHits twoYearsMail none none).filter fun hit =>
      (({ isUnread := true } : ParsedQuery).messageFilters twoYears).matches twoYears hit.header.date
        hit.header.isSeen) =
      [⟨"me", "INBOX", ⟨3, "old", "a@x", "b@x", "Sat, 1 Jan 2000 00:00:00 +0000", "<3@x>", []⟩⟩,
        ⟨"me", "INBOX", ⟨5, "undated", "a@x", "b@x", "yesterday", "<5@x>", []⟩⟩,
        ⟨"me", "INBOX", ⟨9, "new", "a@x", "b@x", "Mon, 1 Jan 2001 00:00:00 +0000", "<9@x>", []⟩⟩] := by
    decide
  rw [search_filters rfl rfl, hunread]
  simp [List.mergeSort, List.MergeSort.Internal.splitInTwo, SearchEngine.messageTimestamp,
    Option.filter, twoYears, timestampLe, SearchHit.key]

/-- A message of the first day of 1970, and an engine that reads that and two dates of a query. -/
def firstDay : SearchEngine where
  matchesFts _ _ := true
  rank _ _ _ := 0
  parseDate s := if s = "1970-01-01" then some 0 else if s = "2000-01-01" then some 946684800 else none
  dateparse s := if s = "Thu, 1 Jan 1970 00:00:00 +0000" then some 0 else none

def epochMail : Cache :=
  { Cache.initSchema with
    messages := Table.empty.upsert ⟨"me", "INBOX", 7⟩
      ⟨"first", "a@x", "b@x", "Thu, 1 Jan 1970 00:00:00 +0000", "<7@x>", ""⟩ }

/-- Its date is a time in the bounds of the query, and the search leaves it out: the first second of 1970 is
not told from a date that does not read. -/
theorem epoch_left_out : ∃ since before t : Int,
    firstDay.parseDate "1970-01-01" = some since ∧ firstDay.parseDate "2000-01-01" = some before ∧
      epochMail.messages.rows.map (fun r => firstDay.dateparse r.2.date) = [some t] ∧
      since ≤ t ∧ t < before ∧
      epochMail.search firstDay none { since := some "1970-01-01", before := some "2000-01-01" } none =
        [] := by
  refine ⟨0, 946684800, 0, by decide, by decide, by decide, by decide, by decide, ?_⟩
  rw [search_filters rfl rfl]
  decide +kernel

end Cache

/-! ## 3. Queries that narrow nothing -/

namespace ParsedQuery

/-- The search answers with the whole cache. -/
def FindsAll (engine : SearchEngine) (q : ParsedQuery) : Prop :=
  ∀ (db : Cache) (accountId : Option AccountId) (mailbox : Option String),
    (db.search engine accountId q mailbox).Perm (db.scannedHits accountId mailbox)

/-- The values of `since:` and `before:`. -/
def dates (q : ParsedQuery) : List String := q.since.toList ++ q.before.toList

/-- Where the dates are all that a query has, one of them reads. -/
def DatesNarrow (engine : SearchEngine) (q : ParsedQuery) : Prop :=
  q.isFtsEmpty = true → q.isUnread = false → q.dates ≠ [] →
    ∃ text ∈ q.dates, (engine.parseDate text).isSome = true

theorem toFtsMatch_eq_none {q : ParsedQuery} : q.toFtsMatch = none ↔ q.isFtsEmpty = true := by
  rw [toFtsMatch]
  split <;> simp_all

theorem isEmpty_iff {q : ParsedQuery} :
    q.isEmpty = true ↔ q.isFtsEmpty = true ∧ q.dates = [] ∧ q.isUnread = false := by
  simp [isEmpty, dates, and_assoc]

/-- The filters that let everything through. -/
theorem messageFilters_eq_default {q : ParsedQuery} :
    q.messageFilters engine = ⟨none, none, false⟩ ↔
      (∀ text ∈ q.dates, engine.parseDate text = none) ∧ q.isUnread = false := by
  rw [messageFilters, MessageFilters.mk.injEq, dates]
  cases q.since <;> cases q.before <;> simp [and_assoc]

/-- `is_empty` tells the queries without text whose filters let everything through, if their dates leave them
something to narrow by. -/
theorem isEmpty_iff_of_datesNarrow {q : ParsedQuery} (h : q.DatesNarrow engine) :
    q.isEmpty = true ↔ q.toFtsMatch = none ∧ q.messageFilters engine = ⟨none, none, false⟩ := by
  rw [isEmpty_iff, toFtsMatch_eq_none, messageFilters_eq_default]
  constructor
  · rintro ⟨htext, hdates, hunread⟩
    refine ⟨htext, fun text hmem => ?_, hunread⟩
    rw [hdates] at hmem
    exact absurd hmem List.not_mem_nil
  · rintro ⟨htext, hnone, hunread⟩
    refine ⟨htext, by_contra fun hdates => ?_, hunread⟩
    obtain ⟨text, hmem, hread⟩ := h htext hunread hdates
    rw [hnone text hmem] at hread
    exact absurd hread Bool.false_ne_true

/-- A message that is admitted by a date has one. -/
theorem dated_of_admits {q : ParsedQuery} {hit : SearchHit} (h : Admits engine q hit) {text : String}
    (htext : text ∈ q.dates) (hread : (engine.parseDate text).isSome = true) :
    ∃ t, engine.DatedAt hit.header.date t := by
  obtain ⟨bound, hbound⟩ := Option.isSome_iff_exists.mp hread
  rw [dates, List.mem_append, Option.mem_toList, Option.mem_toList] at htext
  rcases htext with hsince | hbefore
  · obtain ⟨t, ht, -⟩ := h.since text bound hsince hbound
    exact ⟨t, ht⟩
  · obtain ⟨t, ht, -⟩ := h.before text bound hbefore hbound
    exact ⟨t, ht⟩

/-- A message that has been read, without a date, and with no row in the index. -/
def undated : Cache :=
  { Cache.initSchema with
    messages := Table.empty.upsert ⟨"me", "INBOX", 7⟩ ⟨"note", "a@x", "b@x", "", "<7@x>", "\\Seen"⟩ }

/-- Only a query that narrows nothing finds that message. -/
theorem not_findsAll {q : ParsedQuery} (hdate : engine.messageTimestamp "" = none)
    (h : q.DatesNarrow engine) : ¬ q.FindsAll engine := by
  intro hall
  let hit : SearchHit := ⟨"me", "INBOX", 7, "note", "a@x", "b@x", "", "<7@x>", ["\\Seen"]⟩
  have hfound : hit ∈ undated.search engine none q none :=
    (hall undated none none).mem_iff.mpr (by decide)
  by_cases htext : q.isFtsEmpty = true
  · by_cases hempty : q.isEmpty = true
    · simp only [Cache.search, toFtsMatch_eq_none.mpr htext, hempty, if_true] at hfound
      exact List.not_mem_nil hfound
    · rw [Cache.search_scanned htext (by simpa using hempty)] at hfound
      obtain ⟨-, -, hadmits⟩ := hfound
      have hunread : q.isUnread = false := by
        by_contra hunread
        exact absurd (hadmits.unread (by simpa using hunread)) (by decide)
      have hdates : q.dates ≠ [] := fun hdates => hempty (isEmpty_iff.mpr ⟨htext, hdates, hunread⟩)
      obtain ⟨text, hmem, hread⟩ := h htext hunread hdates
      obtain ⟨t, ht⟩ := dated_of_admits hadmits hmem hread
      rw [messageTimestamp_eq_some.mpr ht] at hdate
      exact absurd hdate (Option.some_ne_none t)
  · obtain ⟨expr, hexpr⟩ := Option.ne_none_iff_exists'.mp fun hnone => htext (toFtsMatch_eq_none.mp hnone)
    rw [Cache.search_matched hexpr] at hfound
    obtain ⟨-, f, hf, -⟩ := hfound
    exact absurd hf List.not_mem_nil

/-- A query of dates none of which reads is searched for, and finds everything. -/
theorem findsAll_of_not_datesNarrow {q : ParsedQuery} (h : ¬ q.DatesNarrow engine) :
    q.isEmpty = false ∧ q.toFtsMatch = none ∧ q.messageFilters engine = ⟨none, none, false⟩ ∧
      q.FindsAll engine := by
  simp only [DatesNarrow, Classical.not_imp, not_exists, not_and, Bool.not_eq_true,
    Option.isSome_eq_false_iff, Option.isNone_iff_eq_none] at h
  obtain ⟨htext, hunread, hdates, hnone⟩ := h
  have hempty : q.isEmpty = false := by
    rw [← Bool.not_eq_true, isEmpty_iff]
    exact fun hall => hdates hall.2.1
  have hfilters := messageFilters_eq_default.mpr ⟨hnone, hunread⟩
  refine ⟨hempty, toFtsMatch_eq_none.mpr htext, hfilters, fun db accountId mailbox => ?_⟩
  rw [Cache.search_filters htext hempty, hfilters]
  refine (List.mergeSort_perm _ _).trans (List.Perm.of_eq (List.filter_eq_self.mpr fun hit _ => ?_))
  rfl

/-- For whatever is typed: `is_empty` holds where there is nothing to match and nothing to filter by, and no
search answers with the whole cache, just where the dates leave the query something to narrow by. -/
theorem empty_iff_narrows_nothing (engine : SearchEngine) (hdate : engine.messageTimestamp "" = none)
    (s : String) :
    (((parse s).isEmpty = true ↔
        (parse s).toFtsMatch = none ∧ (parse s).messageFilters engine = ⟨none, none, false⟩) ∧
      ¬ (parse s).FindsAll engine) ↔
    (parse s).DatesNarrow engine := by
  constructor
  · rintro ⟨-, hsome⟩
    by_contra hnarrow
    exact hsome (findsAll_of_not_datesNarrow hnarrow).2.2.2
  · intro hnarrow
    exact ⟨isEmpty_iff_of_datesNarrow hnarrow, not_findsAll hdate hnarrow⟩

theorem empty_iff_narrows_nothing_attachment :
    (((parse "has:attachment").isEmpty = true ↔ (parse "has:attachment").toFtsMatch = none ∧
        (parse "has:attachment").messageFilters Cache.firstDay = ⟨none, none, false⟩) ∧
      ¬ (parse "has:attachment").FindsAll Cache.firstDay) ↔
    (parse "has:attachment").DatesNarrow Cache.firstDay :=
  empty_iff_narrows_nothing Cache.firstDay (by decide) "has:attachment"

/-- `since:tomorrow` is not empty, narrows nothing, and shows a cache as it is. -/
theorem tomorrow_finds_all :
    (parse "since:tomorrow").isEmpty = false ∧ (parse "since:tomorrow").toFtsMatch = none ∧
      (parse "since:tomorrow").messageFilters Cache.firstDay = ⟨none, none, false⟩ ∧
      undated.search Cache.firstDay none (parse "since:tomorrow") none = undated.scannedHits none none ∧
      undated.scannedHits none none ≠ [] := by
  refine ⟨by decide +kernel, by decide +kernel, by decide +kernel, by decide +kernel, by decide⟩

end ParsedQuery

end Esmail
