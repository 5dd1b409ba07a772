/-
# Is a saved message saved?

`save_draft` and `enqueue_outbox` INSERT a message that has no row yet and UPDATE one that has.  An
UPDATE of a row that is gone touches nothing and is no error, so the row's id comes back as if the
message were there.

This module is about the tables alone: whatever commands ran before, in any order, a save is a save
exactly if the row it names still exists (`saved_iff`, for both functions).  "Is a save" means that the
row it answers with holds the message, and that no other row has changed (`SavesDraft`, `Enqueues`).

An INSERT needs that its id is a new one, which is an invariant of the tables (`HandedOut`: AUTOINCREMENT
gives out no id twice).  An UPDATE needs none: it is a case of whether the row is there.

What comes of a save that stores nothing is told in `Written.lean`.
-/
import Esmail.Library.Machine
import Esmail.Outgoing.MainWindow

namespace Esmail.Db

open Transition MainWindow

/-! ## 1. Runs of commands on the two tables -/

/-- The tables from an empty database on: each action is a time and the command run then. -/
def machine : Machine Db (Nat × DbCommand) :=
  ⟨fun db => db = {}, fun db a => some (run { db with now := a.1 } a.2).2⟩

/-- The rows have been handed out: AUTOINCREMENT gives out no id twice. -/
structure HandedOut (db : Db) : Prop where
  outbox : ∀ r ∈ db.outbox, r.id < db.nextOutbox
  drafts : ∀ r ∈ db.drafts, r.id < db.nextDraft

theorem HandedOut.saveDraft {db : Db} (h : db.HandedOut) (id : Option Row)
    (accountId : Option AccountId) (m : ComposeState) :
    (db.saveDraft id accountId m).2.HandedOut := by
  cases id with
  | none =>
    refine ⟨h.outbox, fun r hr => ?_⟩
    rcases List.mem_append.mp hr with hr | hr
    · exact Nat.lt_succ_of_lt (h.drafts r hr)
    · rw [List.mem_singleton.mp hr]
      exact Nat.lt_succ_self _
  | some id =>
    refine ⟨h.outbox, fun r hr => ?_⟩
    obtain ⟨old, hold, rfl⟩ := List.mem_map.mp hr
    split
    · next he => exact he ▸ h.drafts old hold
    · exact h.drafts old hold

theorem HandedOut.enqueueOutbox {db : Db} (h : db.HandedOut) (id : Option Row)
    (accountId : AccountId) (m : ComposeState) : (db.enqueueOutbox id accountId m).2.HandedOut := by
  cases id with
  | none =>
    refine ⟨fun r hr => ?_, h.drafts⟩
    rcases List.mem_append.mp hr with hr | hr
    · exact Nat.lt_succ_of_lt (h.outbox r hr)
    · rw [List.mem_singleton.mp hr]
      exact Nat.lt_succ_self _
  | some id =>
    refine ⟨fun r hr => ?_, h.drafts⟩
    obtain ⟨old, hold, rfl⟩ := List.mem_map.mp hr
    split
    · next he => exact he ▸ h.outbox old hold
    · exact h.outbox old hold

theorem HandedOut.deleteOutbox {db : Db} (h : db.HandedOut) (id : Row) :
    (db.deleteOutbox id).HandedOut :=
  ⟨fun r hr => h.outbox r (List.mem_of_mem_filter hr), h.drafts⟩

theorem HandedOut.run {db : Db} (h : db.HandedOut) (c : DbCommand) : (run db c).2.HandedOut := by
  cases c with
  | saveDraft id _ accountId compose => exact h.saveDraft id accountId compose
  | deleteDraft id => exact ⟨h.outbox, fun r hr => h.drafts r (List.mem_of_mem_filter hr)⟩
  | enqueueOutbox id _ accountId compose => exact h.enqueueOutbox id accountId compose
  | markOutboxSent id => exact h.deleteOutbox id
  | deleteOutbox id => exact h.deleteOutbox id
  | markOutboxFailed id error =>
    simp only [MainWindow.run]
    split
    · refine ⟨fun r hr => ?_, h.drafts⟩
      obtain ⟨old, hold, rfl⟩ := List.mem_map.mp hr
      split <;> exact h.outbox old hold
    · exact h
  | loadDraft id =>
    simp only [MainWindow.run]
    split <;> exact h
  | listDrafts => exact h
  | dueOutbox => exact h
  | listOutbox => exact h
  | other => exact h

theorem handedOut_of_reach {db : Db} (h : machine.Reach Machine.any db) : db.HandedOut := by
  refine h.invariant ?_ ?_
  · rintro db rfl
    exact ⟨by simp, by simp⟩
  · rintro db ⟨now, c⟩ db' - hdb - hst
    obtain rfl := Option.some.inj hst
    have hnow : HandedOut { db with now := now } := ⟨hdb.outbox, hdb.drafts⟩
    exact hnow.run c

/-! ## 2. Drafts -/

/-- A save of `m` as a draft does what it reports: the row it names holds `m`, and the content of
no other row has changed. -/
def SavesDraft (db : Db) (id : Option Row) (accountId : Option AccountId) (m : ComposeState) : Prop :=
  let r := db.saveDraft id accountId m
  r.2.loadDraft r.1 = some m ∧ ∀ row, row ≠ r.1 → r.2.loadDraft row = db.loadDraft row

theorem savesDraft_none {db : Db} (h : db.HandedOut) (accountId : Option AccountId)
    (m : ComposeState) : db.SavesDraft none accountId m := by
  have hnew : db.drafts.find? (fun r => decide (r.id = db.nextDraft)) = none := by
    refine List.find?_eq_none.mpr fun r hr he => ?_
    exact Nat.ne_of_lt (h.drafts r hr) (of_decide_eq_true he)
  constructor
  · have hload : (db.saveDraft none accountId m).2.loadDraft db.nextDraft = some m := by
      simp [Db.saveDraft, loadDraft, List.find?_append, hnew]
    exact hload
  · intro row hrow
    simp only [Db.saveDraft] at hrow
    have hother : db.nextDraft ≠ row := fun he => hrow he.symm
    simp [Db.saveDraft, loadDraft, List.find?_append, hother]

/-- What an UPDATE of row `id` makes of the drafts, read back. -/
theorem loadDraft_saveDraft_some (db : Db) (id row : Row) (accountId : Option AccountId)
    (m : ComposeState) : (db.saveDraft (some id) accountId m).2.loadDraft row =
      if row = id then (db.loadDraft row).map fun _ => m else db.loadDraft row := by
  simp only [Db.saveDraft, loadDraft]
  induction db.drafts with
  | nil => simp
  | cons r rest ih =>
    by_cases hrow : r.id = row <;> by_cases hid : row = id
    · simp [hrow, hid]
    · simp [hrow, hid]
    · subst hid
      simpa [hrow] using ih
    · have hkeep : (if r.id = id then (⟨id, accountId, m, db.now⟩ : DraftRow) else r).id = r.id := by
        split
        · next he => exact he.symm
        · rfl
      simp only [List.map_cons, List.find?_cons, hkeep, hrow, decide_false]
      simpa [hid] using ih

theorem loadDraft_isSome {db : Db} {row : Row} :
    (db.loadDraft row).isSome = true ↔ row ∈ db.drafts.map DraftRow.id := by
  simp [loadDraft, List.find?_isSome]

theorem savesDraft_some_iff {db : Db} (id : Row) (accountId : Option AccountId) (m : ComposeState) :
    db.SavesDraft (some id) accountId m ↔ id ∈ db.drafts.map DraftRow.id := by
  constructor
  · rintro ⟨hsaved, -⟩
    have hload := loadDraft_saveDraft_some db id id accountId m
    rw [if_pos rfl] at hload
    have hrow : ((db.loadDraft id).map fun _ => m) = some m := hload.symm.trans hsaved
    rw [← loadDraft_isSome]
    obtain ⟨old, hold, -⟩ := Option.map_eq_some_iff.mp hrow
    simp [hold]
  · intro hmem
    obtain ⟨old, hold⟩ := Option.isSome_iff_exists.mp (loadDraft_isSome.mpr hmem)
    constructor
    · have hload := loadDraft_saveDraft_some db id id accountId m
      rw [if_pos rfl, hold, Option.map_some] at hload
      exact hload
    · intro row hrow
      have hne : row ≠ id := hrow
      rw [loadDraft_saveDraft_some, if_neg hne]

/-! ## 3. The outbox -/

/-- A message put into the outbox is there as reported: the outbox lists it in the row it names,
in no other form, and lists every other row as before. -/
def Enqueues (db : Db) (id : Option Row) (accountId : AccountId) (m : ComposeState) : Prop :=
  let r := db.enqueueOutbox id accountId m
  (∃ item ∈ r.2.listOutbox, item.id = r.1 ∧ item.compose = m) ∧
    (∀ item ∈ r.2.listOutbox, item.id = r.1 → item.compose = m) ∧
    (r.2.listOutbox.filter fun item => item.id ≠ r.1) =
      db.listOutbox.filter fun item => item.id ≠ r.1

theorem enqueues_none {db : Db} (h : db.HandedOut) (accountId : AccountId) (m : ComposeState) :
    db.Enqueues none accountId m := by
  have hold : ∀ item ∈ db.listOutbox, item.id ≠ db.nextOutbox := by
    intro item hitem
    obtain ⟨r, hr, rfl⟩ := List.mem_map.mp hitem
    exact Nat.ne_of_lt (h.outbox r hr)
  have hlist : (db.enqueueOutbox none accountId m).2.listOutbox =
      db.listOutbox ++ [⟨db.nextOutbox, accountId, m, 0, none⟩] := by
    simp [Db.enqueueOutbox, insertOutbox, listOutbox, OutboxRow.toItem]
  refine ⟨⟨_, by rw [hlist]; exact List.mem_append_right _ (List.mem_singleton.mpr rfl), rfl, rfl⟩,
    fun item hitem hid => ?_, ?_⟩
  · rw [hlist] at hitem
    rcases List.mem_append.mp hitem with hitem | hitem
    · exact absurd hid (hold item hitem)
    · rw [List.mem_singleton.mp hitem]
  · rw [hlist, List.filter_append]
    simp [Db.enqueueOutbox]

theorem enqueues_some_iff {db : Db} (id : Row) (accountId : AccountId) (m : ComposeState) :
    db.Enqueues (some id) accountId m ↔ id ∈ db.outbox.map OutboxRow.id := by
  have hlist : (db.enqueueOutbox (some id) accountId m).2.listOutbox = db.outbox.map fun r =>
      if r.id = id then ⟨id, accountId, m, 0, none⟩ else r.toItem := by
    simp only [Db.enqueueOutbox, listOutbox, List.map_map]
    refine List.map_congr_left fun r _ => ?_
    simp only [Function.comp_apply]
    split <;> rfl
  have hkeep : ∀ r : OutboxRow, (if r.id = id then (⟨id, accountId, m, 0, none⟩ : OutboxItem)
      else r.toItem).id = r.id := by
    intro r
    split
    · next he => exact he.symm
    · rfl
  constructor
  · rintro ⟨⟨item, hitem, hid, -⟩, -⟩
    rw [hlist] at hitem
    obtain ⟨r, hr, rfl⟩ := List.mem_map.mp hitem
    rw [hkeep r] at hid
    exact List.mem_map.mpr ⟨r, hr, hid⟩
  · intro hmem
    obtain ⟨r, hr, hrid⟩ := List.mem_map.mp hmem
    refine ⟨⟨⟨id, accountId, m, 0, none⟩, ?_, rfl, rfl⟩, ?_, ?_⟩
    · rw [hlist]
      exact List.mem_map.mpr ⟨r, hr, if_pos hrid⟩
    · intro item hitem hid
      rw [hlist] at hitem
      obtain ⟨r, -, rfl⟩ := List.mem_map.mp hitem
      have hrid : r.id = id := (hkeep r).symm.trans hid
      rw [if_pos hrid]
    · have hothers : ((db.enqueueOutbox (some id) accountId m).2.listOutbox.filter
          fun item => item.id ≠ id) = db.listOutbox.filter fun item => item.id ≠ id := by
        rw [hlist, listOutbox, List.filter_map, List.filter_map]
        have hsame : db.outbox.filter ((fun item : OutboxItem => decide (item.id ≠ id)) ∘ fun r =>
            if r.id = id then ⟨id, accountId, m, 0, none⟩ else r.toItem) =
            db.outbox.filter ((fun item : OutboxItem => decide (item.id ≠ id)) ∘ OutboxRow.toItem) := by
          refine List.filter_congr fun r _ => ?_
          simp only [Function.comp_apply, hkeep r]
          rfl
        rw [hsame]
        refine List.map_congr_left fun r hr => if_neg ?_
        have hne : decide (r.id ≠ id) = true := (List.mem_filter.mp hr).2
        exact of_decide_eq_true hne
      exact hothers

/-! ## 4. After any run -/

/-- Whatever ran before, a save does what it reports exactly if it names no row, or one that is
still there. -/
theorem saved_iff {db : Db} (h : machine.Reach Machine.any db) :
    (∀ (id : Option Row) (accountId : Option AccountId) (m : ComposeState),
        db.SavesDraft id accountId m ↔ ∀ row, id = some row → row ∈ db.drafts.map DraftRow.id) ∧
      ∀ (id : Option Row) (accountId : AccountId) (m : ComposeState),
        db.Enqueues id accountId m ↔ ∀ row, id = some row → row ∈ db.outbox.map OutboxRow.id := by
  have hdb := handedOut_of_reach h
  constructor
  · intro id accountId m
    cases id with
    | none => exact iff_of_true (savesDraft_none hdb accountId m) fun _ hrow => absurd hrow (by simp)
    | some id => simpa using savesDraft_some_iff id accountId m
  · intro id accountId m
    cases id with
    | none => exact iff_of_true (enqueues_none hdb accountId m) fun _ hrow => absurd hrow (by simp)
    | some id => simpa using enqueues_some_iff id accountId m

def aDraft (body : String) : ComposeState := ⟨{ body := body }, none, none, ⟨0, 0⟩⟩

/-- A draft that is saved again while it is there. -/
theorem saved_iff_of_resave : ∃ db : Db, db.SavesDraft (some 1) none (aDraft "new") := by
  obtain ⟨db, hr, hp⟩ := Machine.exists_reach_of_trace machine Machine.any
    [(0, .saveDraft none 1 none (aDraft "old"))]
    (fun db => decide (db.drafts.map DraftRow.id = [1])) rfl (by decide)
  have hids := of_decide_eq_true hp
  refine ⟨db, ((saved_iff hr).1 _ _ _).mpr ?_⟩
  rintro row he
  obtain rfl := Option.some.inj he
  simp [hids]

/-- A draft is saved, deleted from the list of drafts, and saved again from the window that is
still open: the save reports row 1, and there is no row 1. -/
theorem resave_of_deleted_draft : ¬ ∀ db : Db, machine.Reach Machine.any db →
    ∀ (id : Option Row) (accountId : Option AccountId) (m : ComposeState),
      db.SavesDraft id accountId m := by
  intro hall
  obtain ⟨db, hr, hp⟩ := Machine.exists_reach_of_trace machine Machine.any
    [(0, .saveDraft none 1 none (aDraft "old")), (0, .deleteDraft 1)]
    (fun db => decide (db.drafts = [])) rfl (by decide)
  have hdrafts := of_decide_eq_true hp
  have hmem := (savesDraft_some_iff 1 none (aDraft "new")).mp (hall db hr (some 1) none (aDraft "new"))
  simp [hdrafts] at hmem

end Esmail.Db
