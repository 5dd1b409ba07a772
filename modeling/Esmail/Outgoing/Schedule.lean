/-
# When a row of the outbox is due

`enqueue_outbox`, `mark_outbox_failed` and `due_outbox` of `db.rs`.  A row carries its number of attempts
and the time of its next one; the schedule it is to follow is read off the log of what was done to it: due
at once after it was put in, and after the k-th failure in a row not before 30 * 2^(k-1) seconds have
passed, or an hour.

`outbox_schedule` is about every order of the commands, at whatever times (the clock need not go forward):
a row is due from the time its log gives, and not before; one that is put in, or put in again, is there
and due from that time on; a row goes only by a delivery or a deletion; and the delay does not overflow.

`OnSchedule` ties one row to its part of the log, and each command either happens to that row or to
another (`OnSchedule.other`); so the invariant, `Follows`, is kept row by row.  The delay is `30 *
2^(k-1)` up to its bound, in 64-bit arithmetic as in `Nat`, since the exponent is cut off before the
shift.

A row that is put in under an id whose row is gone is not put in at all: see `Saving.lean`.
-/
import Esmail.Outgoing.Saving

namespace Esmail.Schedule

open Transition MainWindow

/-! ## 1. The delay -/

/-- The delay after the `k`-th failure in a row, in seconds. -/
def delay (k : Nat) : Nat := min (30 * 2 ^ (k - 1)) 3600

/-- `backoff_seconds` as the machine computes it, in 64 bits. -/
def backoffSeconds64 (attempts : Int64) : Int64 :=
  let exponent := (max 0 (min (attempts - 1).toInt 7)).toNat
  min (30 * 2 ^ exponent) 3600

/-- The exponent is cut off where the delay has reached its cap. -/
theorem backoffSeconds_eq_delay (k : Nat) : Db.backoffSeconds k = delay k := by
  rw [Db.backoffSeconds, delay]
  rcases Nat.le_total (k - 1) 7 with hle | hge
  · rw [Nat.min_eq_left hle]
  · have hpow : 2 ^ 7 ≤ 2 ^ (k - 1) := Nat.pow_le_pow_right (by decide) hge
    rw [Nat.min_eq_right hge]
    omega

/-- No number of attempts makes it overflow. -/
theorem toInt_backoffSeconds64 {attempts : Int64} (h : 1 ≤ attempts.toInt) :
    (backoffSeconds64 attempts).toInt = delay attempts.toInt.toNat := by
  have hsub : (attempts - 1).toInt = attempts.toInt - 1 := by
    have hlt := attempts.toInt_lt
    have hone : (1 : Int64).toInt = 1 := rfl
    rw [Int64.toInt_sub, hone, Int.bmod_eq_of_le (by omega) (by omega)]
  have hexponent : (max 0 (min (attempts - 1).toInt 7)).toNat = min (attempts.toInt.toNat - 1) 7 := by
    rw [hsub]
    omega
  have hsmall : ∀ n < 8, (min (30 * 2 ^ n) 3600 : Int64).toInt = ((min (30 * 2 ^ n) 3600 : Nat) : Int) := by
    decide
  rw [backoffSeconds64, hexponent, ← backoffSeconds_eq_delay, Db.backoffSeconds]
  exact hsmall _ (by omega)

/-! ## 2. The log -/

/-- What a command did to a row of the outbox. -/
inductive Happening
  | enqueued (id : Row)
  | failed (id : Row)
  | removed (id : Row)
  deriving DecidableEq, Repr

/-- What a command on the tables does to a row of the outbox, if anything. -/
def happening (db : Db) : DbCommand → Option Happening
  | .enqueueOutbox id _ _ _ => some (.enqueued (id.getD db.nextOutbox))
  | .markOutboxFailed id _ => some (.failed id)
  | .markOutboxSent id | .deleteOutbox id => some (.removed id)
  | .saveDraft .. | .listDrafts | .loadDraft _ | .deleteDraft _ | .dueOutbox | .listOutbox | .other => none

/-- The failures of a row since it was last put in; the log is latest first. -/
def failures : List (Nat × Happening) → Row → Nat
  | [], _ => 0
  | (_, .enqueued i) :: log, id => if i = id then 0 else failures log id
  | (_, .failed i) :: log, id => if i = id then failures log id + 1 else failures log id
  | (_, .removed _) :: log, id => failures log id

/-- When a row was last put in, or failed. -/
def lastAt : List (Nat × Happening) → Row → Nat
  | [], _ => 0
  | (t, .enqueued i) :: log, id => if i = id then t else lastAt log id
  | (t, .failed i) :: log, id => if i = id then t else lastAt log id
  | (_, .removed _) :: log, id => lastAt log id

/-- From when on a row is due. -/
def dueAt (log : List (Nat × Happening)) (id : Row) : Nat :=
  if failures log id = 0 then lastAt log id else lastAt log id + delay (failures log id)

/-- The tables, and the log. -/
structure Logged where
  db : Db
  log : List (Nat × Happening)

/-- Runs of commands, each with the time it is run at. -/
def machine : Machine Logged (Nat × DbCommand) :=
  ⟨fun s => s = ⟨{}, []⟩, fun s a => some
    ⟨(run { s.db with now := a.1 } a.2).2, ((happening s.db a.2).map fun h => (a.1, h)).toList ++ s.log⟩⟩

/-- A row is as the log has it. -/
structure OnSchedule (log : List (Nat × Happening)) (r : OutboxRow) : Prop where
  attempts : r.attempts = failures log r.id
  next : r.nextAttemptAt = dueAt log r.id

def Follows (s : Logged) : Prop := ∀ r ∈ s.db.outbox, OnSchedule s.log r

/-! ## 3. Each command keeps to it -/

/-- What happens to another row changes nothing of a row's schedule. -/
theorem OnSchedule.other {log : List (Nat × Happening)} {r : OutboxRow} (h : OnSchedule log r) {i : Row}
    (hne : i ≠ r.id) (t : Nat) :
    OnSchedule ((t, .enqueued i) :: log) r ∧ OnSchedule ((t, .failed i) :: log) r := by
  refine ⟨⟨?_, ?_⟩, ⟨?_, ?_⟩⟩
  all_goals simp only [dueAt, failures, lastAt, if_neg hne]
  all_goals first | exact h.attempts | exact h.next

theorem dueAt_enqueued (id : Row) (t : Nat) (log : List (Nat × Happening)) :
    dueAt ((t, .enqueued id) :: log) id = t := by
  simp only [dueAt, failures, lastAt, if_true]

theorem OnSchedule.enqueued (id : Row) (accountId : AccountId) (m : ComposeState) (t : Nat)
    (log : List (Nat × Happening)) : OnSchedule ((t, .enqueued id) :: log) ⟨id, accountId, m, 0, t, none⟩ := by
  refine ⟨?_, (dueAt_enqueued id t log).symm⟩
  simp only [failures, if_true]

theorem OnSchedule.failed {log : List (Nat × Happening)} {r : OutboxRow} (h : OnSchedule log r) (t : Nat)
    (error : String) : OnSchedule ((t, .failed r.id) :: log)
      { r with
        attempts := r.attempts + 1
        lastError := some error
        nextAttemptAt := t + Db.backoffSeconds (r.attempts + 1) } := by
  have hfailures : failures ((t, .failed r.id) :: log) r.id = r.attempts + 1 := by
    rw [failures, if_pos rfl, h.attempts]
  constructor
  · exact hfailures.symm
  · rw [dueAt, hfailures, if_neg (Nat.succ_ne_zero _), lastAt, if_pos rfl, backoffSeconds_eq_delay]

theorem Follows.enqueued {db : Db} {log : List (Nat × Happening)} (h : Follows ⟨db, log⟩)
    (hdb : db.HandedOut) (t : Nat) (id : Option Row) (accountId : AccountId) (m : ComposeState) :
    Follows ⟨(Db.enqueueOutbox { db with now := t } id accountId m).2,
      (t, .enqueued (id.getD db.nextOutbox)) :: log⟩ := by
  intro r hr
  cases id with
  | none =>
    rcases List.mem_append.mp hr with hold | hnew
    · exact ((h r hold).other (Nat.ne_of_lt (hdb.outbox r hold)).symm t).1
    · rw [List.mem_singleton.mp hnew]
      exact .enqueued _ accountId m t log
  | some id =>
    obtain ⟨old, hold, rfl⟩ := List.mem_map.mp hr
    split
    · exact .enqueued id accountId m t log
    · next hne => exact ((h old hold).other (Ne.symm hne) t).1

theorem Follows.failed {db : Db} {log : List (Nat × Happening)} (h : Follows ⟨db, log⟩) (t : Nat)
    (id : Row) (error : String) :
    Follows ⟨Db.markOutboxFailed { db with now := t } id error, (t, .failed id) :: log⟩ := by
  intro r hr
  obtain ⟨old, hold, rfl⟩ := List.mem_map.mp hr
  split
  · next heq =>
    subst heq
    exact (h old hold).failed t error
  · next hne => exact ((h old hold).other (Ne.symm hne) t).2

/-- A failure of a row that is not there. -/
theorem Follows.failed_gone {db : Db} {log : List (Nat × Happening)} (h : Follows ⟨db, log⟩) (t : Nat)
    {id : Row} (hgone : ∀ r ∈ db.outbox, r.id ≠ id) :
    Follows ⟨{ db with now := t }, (t, .failed id) :: log⟩ :=
  fun r hr => ((h r hr).other (Ne.symm (hgone r hr)) t).2

theorem Follows.removed {db : Db} {log : List (Nat × Happening)} (h : Follows ⟨db, log⟩) (t : Nat)
    (id : Row) : Follows ⟨Db.deleteOutbox { db with now := t } id, (t, .removed id) :: log⟩ :=
  fun r hr => ⟨(h r (List.mem_of_mem_filter hr)).attempts, (h r (List.mem_of_mem_filter hr)).next⟩

theorem Follows.run {s : Logged} (h : Follows s) (hdb : s.db.HandedOut) (t : Nat) (c : DbCommand) :
    Follows ⟨(run { s.db with now := t } c).2,
      ((happening s.db c).map fun happened => (t, happened)).toList ++ s.log⟩ := by
  cases c with
  | enqueueOutbox id _ accountId m => exact h.enqueued hdb t id accountId m
  | markOutboxSent id => exact h.removed t id
  | deleteOutbox id => exact h.removed t id
  | markOutboxFailed id error =>
    simp only [MainWindow.run]
    split
    · exact h.failed t id error
    · next hgone =>
      refine h.failed_gone t fun r hr heq => hgone ?_
      exact List.any_eq_true.mpr ⟨r, hr, decide_eq_true heq⟩
  | loadDraft id =>
    simp only [MainWindow.run]
    split <;> exact h
  | saveDraft id _ accountId m => cases id <;> exact h
  | deleteDraft id => exact h
  | listDrafts => exact h
  | dueOutbox => exact h
  | listOutbox => exact h
  | other => exact h

/-- The tables alone take the runs of section 1 of the saves. -/
theorem handedOut_of_reach {s : Logged} (h : machine.Reach Machine.any s) : s.db.HandedOut := by
  refine Db.handedOut_of_reach (h.forget (N := Db.machine) Logged.db ?_ ?_)
  · rintro s rfl
    rfl
  · rintro s a s' hst
    obtain rfl := Option.some.inj hst
    rfl

theorem follows_of_reach {s : Logged} (h : machine.Reach Machine.any s) : Follows s := by
  refine h.invariant ?_ ?_
  · rintro s rfl r hr
    exact absurd hr List.not_mem_nil
  · rintro s ⟨t, c⟩ s' hr hs - hst
    obtain rfl := Option.some.inj hst
    exact hs.run (handedOut_of_reach hr) t c

/-! ## 4. What is due, and what leaves -/

/-- The rows of the outbox. -/
def rowIds (db : Db) : List Row := db.outbox.map OutboxRow.id

/-- The items of a row are due from the time the log gives. -/
theorem Follows.due_iff {s : Logged} (h : Follows s) {r : OutboxRow} (hr : r ∈ s.db.outbox) (t : Nat) :
    r.toItem ∈ Db.dueOutbox { s.db with now := t } ↔ dueAt s.log r.id ≤ t := by
  rw [Db.dueOutbox, List.mem_map]
  constructor
  · rintro ⟨r', hr', heq⟩
    obtain ⟨hmem, hdue⟩ := List.mem_filter.mp hr'
    have hid : r'.id = r.id := congrArg OutboxItem.id heq
    rw [← hid, ← (h r' hmem).next]
    exact of_decide_eq_true hdue
  · intro hdue
    rw [← (h r hr).next] at hdue
    exact ⟨r, List.mem_filter.mpr ⟨hr, decide_eq_true hdue⟩, rfl⟩

/-- The row that `enqueue_outbox` names is there, if it was to be a new one or was there. -/
theorem mem_rowIds_enqueueOutbox {db : Db} (id : Option Row) (accountId : AccountId) (m : ComposeState)
    (h : id = none ∨ id.getD db.nextOutbox ∈ rowIds db) :
    id.getD db.nextOutbox ∈ rowIds (db.enqueueOutbox id accountId m).2 := by
  cases id with
  | none =>
    refine List.mem_map.mpr ⟨⟨db.nextOutbox, accountId, m, 0, db.now, none⟩, ?_, rfl⟩
    exact List.mem_append_right _ List.mem_cons_self
  | some id =>
    obtain ⟨r, hr, hid⟩ := List.mem_map.mp (h.resolve_left (Option.some_ne_none id))
    refine List.mem_map.mpr ⟨⟨id, accountId, m, 0, db.now, none⟩, ?_, rfl⟩
    exact List.mem_map.mpr ⟨r, hr, if_pos hid⟩

/-- A command that is neither a delivery nor a deletion of a row leaves it in. -/
theorem mem_rowIds_run {db : Db} {c : DbCommand} {id : Row} (h : id ∈ rowIds db)
    (hsent : c ≠ .markOutboxSent id) (hdeleted : c ≠ .deleteOutbox id) : id ∈ rowIds (run db c).2 := by
  obtain ⟨r, hr, rfl⟩ := List.mem_map.mp h
  have hleft : ∀ i, i ≠ r.id → r.id ∈ rowIds (db.deleteOutbox i) := fun i hne =>
    List.mem_map.mpr ⟨r, List.mem_filter.mpr ⟨hr, decide_eq_true (Ne.symm hne)⟩, rfl⟩
  have hmapped : ∀ (i : Row) (f : OutboxRow → OutboxRow), (∀ r, r.id = i → (f r).id = i) →
      r.id ∈ (db.outbox.map fun r => if r.id = i then f r else r).map OutboxRow.id := by
    intro i f hf
    refine List.mem_map.mpr ⟨_, List.mem_map.mpr ⟨r, hr, rfl⟩, ?_⟩
    split
    · next heq => exact (hf r heq).trans heq.symm
    · rfl
  cases c with
  | markOutboxSent i => exact hleft i fun heq => hsent (by rw [heq])
  | deleteOutbox i => exact hleft i fun heq => hdeleted (by rw [heq])
  | enqueueOutbox i _ accountId m =>
    cases i with
    | none =>
      rw [rowIds, List.mem_map]
      exact ⟨r, List.mem_append_left _ hr, rfl⟩
    | some i => exact hmapped i (fun _ => ⟨i, accountId, m, 0, db.now, none⟩) fun _ _ => rfl
  | markOutboxFailed i error =>
    simp only [MainWindow.run]
    split
    · exact hmapped i _ fun _ heq => heq
    · exact h
  | saveDraft i _ accountId m => cases i <;> exact h
  | loadDraft i =>
    simp only [MainWindow.run]
    split <;> exact h
  | deleteDraft i => exact h
  | listDrafts => exact h
  | dueOutbox => exact h
  | listOutbox => exact h
  | other => exact h

/-- Whatever commands ran, at whatever times: a row is due from the time its log gives and not before; one that
is put in, or put in again, is there and due from that time on; a row goes only by a delivery or a deletion; and
the delay does not overflow. -/
theorem outbox_schedule {s : Logged} (h : machine.Reach Machine.any s) :
    (∀ r ∈ s.db.outbox, ∀ t, r.toItem ∈ Db.dueOutbox { s.db with now := t } ↔
      (if failures s.log r.id = 0 then lastAt s.log r.id
        else lastAt s.log r.id + min (30 * 2 ^ (failures s.log r.id - 1)) 3600) ≤ t) ∧
    (∀ (t : Nat) (id : Option Row) (composeId : ComposeId) (accountId : AccountId) (m : ComposeState),
      let after := (run { s.db with now := t } (.enqueueOutbox id composeId accountId m)).2
      let row := id.getD s.db.nextOutbox
      (id = none ∨ row ∈ rowIds s.db → row ∈ rowIds after) ∧
        ∀ r ∈ after.outbox, r.id = row → ∀ t', r.toItem ∈ Db.dueOutbox { after with now := t' } ↔ t ≤ t') ∧
    (∀ (t : Nat) (c : DbCommand), ∀ id ∈ rowIds s.db,
      id ∉ rowIds (run { s.db with now := t } c).2 → c = .markOutboxSent id ∨ c = .deleteOutbox id) ∧
    ∀ attempts : Int64, 1 ≤ attempts.toInt →
      (backoffSeconds64 attempts).toInt =
        ((min (30 * 2 ^ (attempts.toInt.toNat - 1)) 3600 : Nat) : Int) := by
  have hfollows := follows_of_reach h
  refine ⟨fun r hr t => hfollows.due_iff hr t, ?_, ?_, ?_⟩
  · intro t id composeId accountId m after row
    refine ⟨@mem_rowIds_enqueueOutbox { s.db with now := t } id accountId m, ?_⟩
    intro r hr hid t'
    have hafter := hfollows.enqueued (handedOut_of_reach h) t id accountId m
    have hdue := hafter.due_iff hr t'
    rw [hid, dueAt_enqueued] at hdue
    exact hdue
  · intro t c id hid hgone
    by_contra hnot
    obtain ⟨hsent, hdeleted⟩ := not_or.mp hnot
    exact hgone (@mem_rowIds_run { s.db with now := t } c id hid hsent hdeleted)
  · exact fun attempts hattempts => toInt_backoffSeconds64 hattempts

/-- A message is put in at second 100 and fails at 200 and at 230: it is due from second 290 on. -/
theorem outbox_schedule_twice_failed : ∃ s : Logged, ∃ r ∈ s.db.outbox,
    (r.toItem ∈ Db.dueOutbox { s.db with now := 290 }) ∧
      r.toItem ∉ Db.dueOutbox { s.db with now := 289 } := by
  obtain ⟨s, hr, hp⟩ := Machine.exists_reach_of_trace machine Machine.any
    [(100, .enqueueOutbox none 1 "me" (Db.aDraft "hello")), (200, .markOutboxFailed 1 "down"),
      (230, .markOutboxFailed 1 "down")]
    (fun s => decide (rowIds s.db = [1] ∧ failures s.log 1 = 2 ∧ lastAt s.log 1 = 230)) rfl
    (by decide)
  obtain ⟨hids, hfailures, hlast⟩ := of_decide_eq_true hp
  obtain ⟨r, hmem, hid⟩ := List.mem_map.mp (hids ▸ List.mem_cons_self : 1 ∈ rowIds s.db)
  have hdue := (outbox_schedule hr).1 r hmem
  rw [hid, hfailures, hlast] at hdue
  exact ⟨s, r, hmem, (hdue 290).mpr (by decide), fun hearly => absurd ((hdue 289).mp hearly) (by decide)⟩

end Esmail.Schedule
