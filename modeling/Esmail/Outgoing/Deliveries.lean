/-
# The ledger of sends, and the two tables

`Deliveries` of `deliveries.rs`: which compose ids are being sent, and which outbox row an id owns.
A retry of a row gets an id of its own.  Then the tables `outbox` and `drafts` of `db.rs`, as the
statements run on them; both number their rows with AUTOINCREMENT, so a row id is never given twice.

The lemmas of section 1 say what each operation does to what is looked up; `mem_ownedRows` is the
one place where the ledger is read by row and not by id.
-/
import Esmail.Outgoing.Message
import Mathlib.Algebra.Group.Nat.Defs

namespace Esmail

/-! ## 1. Deliveries -/

structure Flight where
  account : Nat
  state : ComposeState
  deriving DecidableEq, Repr

structure OutboxItem where
  id : Row
  accountId : AccountId
  compose : ComposeState
  attempts : Nat
  lastError : Option String
  deriving DecidableEq, Repr

structure Delivered where
  account : Nat
  outboxRow : Option Row
  deriving DecidableEq, Repr

inductive Failure
  | backoff (row : Row)
  | enqueue (account : Nat) (state : ComposeState)
  deriving DecidableEq, Repr

structure Retry where
  id : ComposeId
  account : Nat
  state : ComposeState
  deriving DecidableEq, Repr

structure Deliveries where
  lastId : ComposeId := 0
  inFlight : AList (fun _ : ComposeId => Flight) := ∅
  outboxRows : AList (fun _ : ComposeId => Row) := ∅

namespace Deliveries

/-- `next_id`, and the ledger that has given it. -/
def nextId (d : Deliveries) : ComposeId × Deliveries := (d.lastId + 1, { d with lastId := d.lastId + 1 })

def begin (d : Deliveries) (id : ComposeId) (account : Nat) (state : ComposeState) : Deliveries :=
  { d with inFlight := d.inFlight.insert id ⟨account, state⟩ }

def outboxEnqueued (d : Deliveries) (id : ComposeId) (row : Row) : Deliveries :=
  { d with outboxRows := d.outboxRows.insert id row }

def forget (d : Deliveries) (id : ComposeId) : Option Row × Deliveries :=
  (d.outboxRows.lookup id,
    { d with inFlight := d.inFlight.erase id, outboxRows := d.outboxRows.erase id })

def delivered (d : Deliveries) (id : ComposeId) : Option Delivered × Deliveries :=
  match d.inFlight.lookup id with
  | none => (none, d)
  | some flight =>
    (some ⟨flight.account, d.outboxRows.lookup id⟩,
      { d with inFlight := d.inFlight.erase id, outboxRows := d.outboxRows.erase id })

def failed (d : Deliveries) (id : ComposeId) : Option Failure × Deliveries :=
  match d.inFlight.lookup id with
  | none => (none, d)
  | some flight =>
    (some (match d.outboxRows.lookup id with
      | some row => .backoff row
      | none => .enqueue flight.account flight.state),
      { d with inFlight := d.inFlight.erase id })

/-- The rows that `retries` skips: owned by an open window, or being sent. -/
def ownedRows (d : Deliveries) (windowOpen : ComposeId → Bool) : List Row :=
  (d.outboxRows.entries.filter fun e =>
    windowOpen e.1 || (d.inFlight.lookup e.1).isSome).map fun e => e.2

/-- The retry of one row: a fresh id that owns the row and is being sent. -/
def retry (d : Deliveries) (item : OutboxItem) (account : Nat) : Retry × Deliveries :=
  (⟨d.nextId.1, account, item.compose⟩,
    { d.nextId.2 with
      outboxRows := d.outboxRows.insert d.nextId.1 item.id
      inFlight := d.inFlight.insert d.nextId.1 ⟨account, item.compose⟩ })

/-- The loop of `retries`, over the rows that are not owned. -/
def retryAll (accountIndex : AccountId → Option Nat) :
    Deliveries → List OutboxItem → (List Retry × List OutboxItem) × Deliveries
  | d, [] => (([], []), d)
  | d, item :: items =>
    match accountIndex item.accountId with
    | none =>
      let r := retryAll accountIndex d items
      ((r.1.1, item :: r.1.2), r.2)
    | some account =>
      let r := retryAll accountIndex (d.retry item account).2 items
      (((d.retry item account).1 :: r.1.1, r.1.2), r.2)

/-- `retries`: the sends, and the items of accounts that are not configured. -/
def retries (d : Deliveries) (due : List OutboxItem) (windowOpen : ComposeId → Bool)
    (accountIndex : AccountId → Option Nat) : (List Retry × List OutboxItem) × Deliveries :=
  retryAll accountIndex d (due.filter fun item => item.id ∉ d.ownedRows windowOpen)

theorem mem_ownedRows {d : Deliveries} {windowOpen : ComposeId → Bool} {row : Row} :
    row ∈ d.ownedRows windowOpen ↔
      ∃ id, d.outboxRows.lookup id = some row ∧
        (windowOpen id = true ∨ d.inFlight.lookup id ≠ none) := by
  unfold ownedRows
  simp only [List.mem_map, List.mem_filter, Bool.or_eq_true]
  constructor
  · rintro ⟨⟨id, r⟩, ⟨hmem, hown⟩, rfl⟩
    exact ⟨id, AList.mem_lookup_iff.mpr hmem, hown.imp_right Option.isSome_iff_ne_none.mp⟩
  · rintro ⟨id, hlook, hown⟩
    exact ⟨⟨id, row⟩, ⟨AList.mem_lookup_iff.mp hlook,
      hown.imp_right Option.isSome_iff_ne_none.mpr⟩, rfl⟩

variable {d : Deliveries} {id id' : ComposeId} {f : Flight} {row : Row}

/-- What is left of a map when a key has gone. -/
theorem lookup_of_erase {β : Type} {m : AList (fun _ : ComposeId => β)} {v : β}
    (h : (m.erase id).lookup id' = some v) : id' ≠ id ∧ m.lookup id' = some v := by
  by_cases hid : id' = id
  · rw [hid] at h
    exact absurd ((AList.lookup_erase ..).symm.trans h) (by simp)
  · exact ⟨hid, (AList.lookup_erase_ne hid).symm.trans h⟩

/-- What is in a map when a key has been added. -/
theorem lookup_of_insert {β : Type} {m : AList (fun _ : ComposeId => β)} {v w : β}
    (h : (m.insert id w).lookup id' = some v) :
    (id' = id ∧ v = w) ∨ (id' ≠ id ∧ m.lookup id' = some v) := by
  by_cases hid : id' = id
  · subst hid
    exact .inl ⟨rfl, Option.some.inj (h.symm.trans (AList.lookup_insert _))⟩
  · exact .inr ⟨hid, (AList.lookup_insert_ne hid).symm.trans h⟩

/-- A failed send leaves the ledger without it. -/
theorem failed_eq (h : d.inFlight.lookup id = some f) :
    (d.failed id).2 = { d with inFlight := d.inFlight.erase id } := by
  rw [failed, h]

theorem failed_none (h : d.inFlight.lookup id = none) : d.failed id = (none, d) := by
  rw [failed, h]

theorem delivered_eq (h : d.inFlight.lookup id = some f) :
    d.delivered id = (some ⟨f.account, d.outboxRows.lookup id⟩,
      { d with inFlight := d.inFlight.erase id, outboxRows := d.outboxRows.erase id }) := by
  rw [delivered, h]

theorem delivered_none (h : d.inFlight.lookup id = none) : d.delivered id = (none, d) := by
  rw [delivered, h]

/-- A retry is of a row of the list, and the ledger has its row. -/
theorem retryAll_spec (accountIndex : AccountId → Option Nat) (items : List OutboxItem)
    (d : Deliveries) :
    (∀ id, d.outboxRows.lookup id ≠ none →
        (retryAll accountIndex d items).2.outboxRows.lookup id ≠ none) ∧
      ∀ retry ∈ (retryAll accountIndex d items).1.1,
        (retryAll accountIndex d items).2.outboxRows.lookup retry.id ≠ none ∧
          ∃ item ∈ items, accountIndex item.accountId = some retry.account ∧
            retry.state = item.compose := by
  induction items generalizing d with
  | nil => exact ⟨fun _ h => h, fun _ h => by cases h⟩
  | cons item items ih =>
    unfold retryAll
    split
    · obtain ⟨hkeeps, hall⟩ := ih d
      refine ⟨hkeeps, fun retry hretry => ?_⟩
      obtain ⟨hrow, i, hi, hspec⟩ := hall retry hretry
      exact ⟨hrow, i, List.mem_cons_of_mem _ hi, hspec⟩
    · next account haccount =>
      obtain ⟨hkeeps, hall⟩ := ih (d.retry item account).2
      have hinsert : ∀ id, id = d.nextId.1 ∨ d.outboxRows.lookup id ≠ none →
          (d.retry item account).2.outboxRows.lookup id ≠ none := by
        intro id hid
        rw [retry]
        dsimp only
        by_cases he : id = d.nextId.1
        · rw [he, AList.lookup_insert]
          simp
        · rw [AList.lookup_insert_ne he]
          exact hid.resolve_left he
      refine ⟨fun id hid => hkeeps id (hinsert id (.inr hid)), fun retry hretry => ?_⟩
      rcases List.mem_cons.mp hretry with rfl | hretry
      · exact ⟨hkeeps _ (hinsert _ (.inl rfl)), item, List.mem_cons_self, haccount, rfl⟩
      · obtain ⟨hrow, i, hi, hspec⟩ := hall retry hretry
        exact ⟨hrow, i, List.mem_cons_of_mem _ hi, hspec⟩

end Deliveries

/-! ## 2. The tables -/

structure OutboxRow where
  id : Row
  accountId : AccountId
  compose : ComposeState
  attempts : Nat
  nextAttemptAt : Nat
  lastError : Option String
  deriving DecidableEq, Repr

structure DraftRow where
  id : Row
  accountId : Option AccountId
  compose : ComposeState
  updatedAt : Nat
  deriving DecidableEq, Repr

/-- `row_to_outbox_item`. -/
def OutboxRow.toItem (r : OutboxRow) : OutboxItem :=
  ⟨r.id, r.accountId, r.compose, r.attempts, r.lastError⟩

/-- The tables, the rows they number next, and the time. -/
structure Db where
  outbox : List OutboxRow := []
  drafts : List DraftRow := []
  nextOutbox : Row := 1
  nextDraft : Row := 1
  now : Nat := 0
  deriving DecidableEq, Repr

namespace Db

def insertOutbox (db : Db) (accountId : AccountId) (compose : ComposeState) : Db :=
  { db with
    outbox := db.outbox ++ [⟨db.nextOutbox, accountId, compose, 0, db.now, none⟩]
    nextOutbox := db.nextOutbox + 1 }

/-- `enqueue_outbox`: the row, and the table. -/
def enqueueOutbox (db : Db) (id : Option Row) (accountId : AccountId) (compose : ComposeState) :
    Row × Db :=
  match id with
  | some id =>
    (id, { db with
      outbox := db.outbox.map fun r =>
        if r.id = id then ⟨id, accountId, compose, 0, db.now, none⟩ else r })
  | none => (db.nextOutbox, db.insertOutbox accountId compose)

/-- `list_outbox`: rows are kept in the order of their ids. -/
def listOutbox (db : Db) : List OutboxItem := db.outbox.map OutboxRow.toItem

/-- `due_outbox`. -/
def dueOutbox (db : Db) : List OutboxItem :=
  (db.outbox.filter fun r => r.nextAttemptAt ≤ db.now).map OutboxRow.toItem

/-- `delete_outbox`. -/
def deleteOutbox (db : Db) (id : Row) : Db :=
  { db with outbox := db.outbox.filter fun r => r.id ≠ id }

/-- `backoff_seconds`. -/
def backoffSeconds (attempts : Nat) : Nat := min (30 * 2 ^ min (attempts - 1) 7) 3600

/-- `mark_outbox_failed`; a row that is gone is an error, and nothing changes. -/
def markOutboxFailed (db : Db) (id : Row) (error : String) : Db :=
  { db with
    outbox := db.outbox.map fun r =>
      if r.id = id then
        { r with
          attempts := r.attempts + 1
          lastError := some error
          nextAttemptAt := db.now + backoffSeconds (r.attempts + 1) }
      else r }

/-- `save_draft`: an UPDATE of a row that is gone changes nothing, and succeeds. -/
def saveDraft (db : Db) (id : Option Row) (accountId : Option AccountId) (compose : ComposeState) :
    Row × Db :=
  match id with
  | some id =>
    (id, { db with
      drafts := db.drafts.map fun r => if r.id = id then ⟨id, accountId, compose, db.now⟩ else r })
  | none =>
    (db.nextDraft, { db with
      drafts := db.drafts ++ [⟨db.nextDraft, accountId, compose, db.now⟩]
      nextDraft := db.nextDraft + 1 })

/-- `load_draft`. -/
def loadDraft (db : Db) (id : Row) : Option ComposeState :=
  (db.drafts.find? fun r => r.id = id).map DraftRow.compose

/-- `delete_draft`. -/
def deleteDraft (db : Db) (id : Row) : Db :=
  { db with drafts := db.drafts.filter fun r => r.id ≠ id }

end Db

end Esmail
