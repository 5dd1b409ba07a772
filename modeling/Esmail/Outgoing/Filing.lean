/-
# What the outbox will hold when the queued commands have run

The main window never sees the outbox: it queues commands for the cache actor, which runs them later.
`MainWindow.files` is the outbox as it will be when the actor has caught up, each row with its account
and its content.  Running a command does not change it; only queueing one of three kinds does: a
message is enqueued, or a row is deleted because it was sent or thrown away.  A row that is there
keeps its account and its content for good.
-/
import Esmail.Outgoing.Steps

namespace Esmail

/-! ## 1. The outbox, ahead of time -/

/-- A row of the outbox, without what the retries count. -/
structure Filed where
  row : Row
  accountId : AccountId
  compose : ComposeState
  deriving DecidableEq, Repr

def OutboxRow.filed (r : OutboxRow) : Filed := ⟨r.id, r.accountId, r.compose⟩

def OutboxItem.filed (item : OutboxItem) : Filed := ⟨item.id, item.accountId, item.compose⟩

structure Files where
  rows : List Filed
  next : Row
  deriving DecidableEq, Repr

def Db.files (db : Db) : Files := ⟨db.outbox.map OutboxRow.filed, db.nextOutbox⟩

namespace Files

/-- What a command makes of the outbox. -/
def run (f : Files) : DbCommand → Files
  | .enqueueOutbox (some row) _ accountId compose =>
    { f with rows := f.rows.map fun r => if r.row = row then ⟨row, accountId, compose⟩ else r }
  | .enqueueOutbox none _ accountId compose =>
    ⟨f.rows ++ [⟨f.next, accountId, compose⟩], f.next + 1⟩
  | .markOutboxSent row | .deleteOutbox row => { f with rows := f.rows.filter fun r => r.row ≠ row }
  | _ => f

theorem files_run (db : Db) (c : DbCommand) : (MainWindow.run db c).2.files = db.files.run c := by
  cases c with
  | saveDraft id _ _ _ => cases id <;> rfl
  | enqueueOutbox id _ accountId compose =>
    cases id with
    | none => simp [MainWindow.run, Db.enqueueOutbox, Db.insertOutbox, Db.files, run, OutboxRow.filed]
    | some row =>
      simp only [MainWindow.run, Db.enqueueOutbox, Db.files, run, List.map_map]
      congr 1
      refine List.map_congr_left fun r _ => ?_
      by_cases hr : r.id = row <;> simp [OutboxRow.filed, hr]
  | markOutboxSent row | deleteOutbox row =>
    simp only [MainWindow.run, Db.deleteOutbox, Db.files, run, List.filter_map]
    rfl
  | markOutboxFailed row error =>
    simp only [MainWindow.run]
    split
    · simp only [Db.markOutboxFailed, Db.files, run, List.map_map]
      congr 1
      refine List.map_congr_left fun r _ => ?_
      simp only [Function.comp]
      split <;> rfl
    · rfl
  | loadDraft row =>
    simp only [MainWindow.run]
    split <;> rfl
  | listDrafts | deleteDraft _ | dueOutbox | listOutbox | other => rfl

/-- The row ids that are given go up. -/
theorem next_le_run (f : Files) (c : DbCommand) : f.next ≤ (f.run c).next := by
  cases c with
  | enqueueOutbox id _ _ _ =>
    cases id with
    | none => exact Nat.le_succ _
    | some _ => exact Nat.le_refl _
  | _ => exact Nat.le_refl _

/-- A row with an id that was given before the commands is a row from before them. -/
theorem mem_of_run {cs : List DbCommand} {f : Files} {r : Filed}
    (hcs : ∀ c ∈ cs, ∀ row id accountId compose, c ≠ .enqueueOutbox (some row) id accountId compose)
    (hr : r ∈ (cs.foldl run f).rows) (hlt : r.row < f.next) : r ∈ f.rows := by
  induction cs generalizing f with
  | nil => exact hr
  | cons c cs ih =>
    have hrun : r ∈ (f.run c).rows :=
      ih (fun d hd => hcs d (List.mem_cons_of_mem c hd)) hr
        (Nat.lt_of_lt_of_le hlt (f.next_le_run c))
    cases c with
    | enqueueOutbox id _ _ _ =>
      cases id with
      | none =>
        rcases List.mem_append.mp hrun with hrun | hrun
        · exact hrun
        · rw [List.mem_singleton.mp hrun] at hlt
          exact absurd hlt (Nat.lt_irrefl _)
      | some row => exact absurd rfl (hcs _ List.mem_cons_self row _ _ _)
    | markOutboxSent _ | deleteOutbox _ => exact List.mem_of_mem_filter hrun
    | _ => exact hrun

end Files

namespace MainWindow

/-- The outbox when the commands that are queued have run. -/
def files (s : MainWindow) : Files := s.commands.foldl Files.run s.db.files

variable (s : MainWindow)

theorem files_of_idle (h : s.commands = []) : s.files = s.db.files := by
  rw [files, h]
  rfl

/-- The actor only catches up. -/
theorem files_execute {s s' : MainWindow} (h : s.execute = some s') : s'.files = s.files := by
  unfold execute at h
  split at h
  · exact absurd h (by simp)
  · next c rest hcommands =>
    cases h
    rw [files, files, hcommands, List.foldl_cons, Files.files_run]

theorem files_command (c : DbCommand) :
    (s.command c).files = if s.commands.length < commandQueue then s.files.run c else s.files := by
  unfold command
  split
  · simp only [files, List.foldl_append]
    rfl
  · rfl

theorem files_command_quiet {c : DbCommand} (h : ∀ f : Files, f.run c = f) :
    (s.command c).files = s.files := by
  rw [files_command, h]
  split <;> rfl

/-! ## 2. Who queues what -/

@[simp] theorem files_tell (id : ComposeId) (msg : ComposeMsg) : (s.tell id msg).files = s.files := by
  unfold tell
  split <;> rfl

@[simp] theorem files_refreshQueue (kind : QueueKind) : (s.refreshQueue kind).files = s.files := by
  unfold refreshQueue
  cases kind with
  | drafts =>
    dsimp only
    split
    · exact s.files_command_quiet fun _ => rfl
    · rfl
  | outbox =>
    dsimp only
    split
    · exact s.files_command_quiet fun _ => rfl
    · rfl

@[simp] theorem files_showQueue (kind : QueueKind) : (s.showQueue kind).files = s.files := by
  cases kind <;> exact files_refreshQueue _ _

@[simp] theorem files_closeQueue (kind : QueueKind) : (s.closeQueue kind).files = s.files := by
  cases kind <;> rfl

@[simp] theorem files_forgetIfDone (id : ComposeId) : (s.forgetIfDone id).files = s.files := by
  unfold forgetIfDone
  split
  · split <;> rfl
  · rfl

@[simp] theorem files_startCompose (state : ComposeState) (opens : Bool) :
    (s.startCompose state opens).files = s.files := by
  cases opens <;> rfl

/-- A send is handed to the mailer or refused. -/
theorem sendMail_ok {s s' : MainWindow} {refusal : Option String} {id : ComposeId} {account : Nat}
    {state : ComposeState} (h : s.sendMail refusal id account state = .ok s') :
    ∃ config, s.accounts[account]? = some config ∧
      s' = { s with mails := s.mails ++ [⟨id, config, state⟩] } := by
  unfold sendMail at h
  split at h
  · cases h
  · next config hconfig =>
    split at h
    · cases h
    · split at h
      · cases h
        exact ⟨config, hconfig, rfl⟩
      · cases h

@[simp] theorem files_sendMessage (refusal : Option String) (id : ComposeId) (state : ComposeState) :
    (s.sendMessage refusal id state).files = s.files := by
  unfold sendMessage
  split
  · exact files_tell ..
  · split
    · next s' hsent =>
      obtain ⟨config, -, rfl⟩ := sendMail_ok hsent
      exact files_tell ..
    · exact files_tell ..

@[simp] theorem files_saveDraft (id : ComposeId) (state : ComposeState) (explicit : Bool) :
    (s.saveDraft id state explicit).files = s.files := by
  unfold saveDraft
  split
  · rfl
  · split
    · rfl
    · exact files_command_quiet _ fun _ => rfl

@[simp] theorem files_settle (id : ComposeId) : (s.settle id).files = s.files := by
  unfold settle
  split
  · rfl
  · dsimp only
    split
    · exact files_command_quiet _ fun _ => rfl
    · rfl

@[simp] theorem files_windowClosed (id : ComposeId) : (s.windowClosed id).files = s.files := by
  unfold windowClosed
  rw [files_forgetIfDone]
  split <;> rfl

@[simp] theorem files_draftSaved (row : Row) (id : ComposeId) :
    (s.draftSaved row id).files = s.files := by
  unfold draftSaved
  split
  · rfl
  · dsimp only
    rw [files_forgetIfDone]
    split
    · exact files_command_quiet _ fun _ => rfl
    · split
      · split
        · exact files_tell ..
        · rfl
      · rfl

@[simp] theorem files_outboxEnqueued (row : Row) (id : ComposeId) :
    (s.outboxEnqueued row id).files = s.files := files_refreshQueue _ _

@[simp] theorem files_draftLoaded (id : Row) (state : ComposeState) (opens : Bool) :
    (s.draftLoaded id state opens).files = s.files := by
  cases opens <;> rfl

theorem files_backOff (error : String) : ∀ (items : List OutboxItem) (s : MainWindow),
    (items.foldl (fun s item => s.command (.markOutboxFailed item.id error)) s).files = s.files
  | [], _ => rfl
  | item :: items, s =>
    (files_backOff error items (s.command (.markOutboxFailed item.id error))).trans
      (s.files_command_quiet fun _ => rfl)

theorem deliveries_backOff (error : String) : ∀ (items : List OutboxItem) (s : MainWindow),
    (items.foldl (fun s item => s.command (.markOutboxFailed item.id error)) s).deliveries =
      s.deliveries
  | [], _ => rfl
  | item :: items, s =>
    (deliveries_backOff error items (s.command (.markOutboxFailed item.id error))).trans
      (congrArg Books.deliveries (s.books_command_quiet (c := .markOutboxFailed item.id error) rfl))

variable {s}

/-- A failure that the ledger does not know. -/
theorem files_outcomeFailed_stray {id : ComposeId} {error : String}
    (h : s.deliveries.inFlight.lookup id = none) : (s.outcomeFailed id error).files = s.files := by
  unfold outcomeFailed
  rw [Deliveries.failed_none h]

/-- A later failure: the row is backed off, and says what it said. -/
theorem files_outcomeFailed_later {id : ComposeId} {error : String} {row : Row}
    (h : s.deliveries.outboxRows.lookup id = some row) : (s.outcomeFailed id error).files = s.files := by
  unfold outcomeFailed
  cases hflight : s.deliveries.inFlight.lookup id with
  | none => rw [Deliveries.failed_none hflight]
  | some flight =>
    simp only [Deliveries.failed, hflight, h, files_refreshQueue, files_tell]
    exact files_command_quiet _ fun _ => rfl

/-- A first failure: what was sent is put into the outbox. -/
theorem files_outcomeFailed_first {id : ComposeId} {error : String} {flight : Flight}
    {config : AccountId} (hflight : s.deliveries.inFlight.lookup id = some flight)
    (hrow : s.deliveries.outboxRows.lookup id = none)
    (hconfig : s.accounts[flight.account]? = some config) :
    (s.outcomeFailed id error).files = (s.command (.enqueueOutbox none id config flight.state)).files := by
  unfold outcomeFailed
  simp only [Deliveries.failed, hflight, hrow, hconfig, files_refreshQueue, files_tell, files_command]
  rfl

theorem files_outcomeFailed_unknown {id : ComposeId} {error : String} {flight : Flight}
    (hflight : s.deliveries.inFlight.lookup id = some flight)
    (hconfig : s.accounts[flight.account]? = none) : (s.outcomeFailed id error).files = s.files := by
  cases hrow : s.deliveries.outboxRows.lookup id with
  | some row => exact files_outcomeFailed_later hrow
  | none =>
    unfold outcomeFailed
    simp only [Deliveries.failed, hflight, hrow, hconfig, files_refreshQueue, files_tell]
    rfl

/-- What was sent leaves the outbox. -/
theorem files_outcomeSent (id : ComposeId) :
    (s.outcomeSent id).files = s.files ∨
      ∃ flight row, s.deliveries.inFlight.lookup id = some flight ∧
        s.deliveries.outboxRows.lookup id = some row ∧
        (s.outcomeSent id).files = s.files.run (.markOutboxSent row) := by
  unfold outcomeSent
  cases hflight : s.deliveries.inFlight.lookup id with
  | none =>
    rw [Deliveries.delivered_none hflight]
    exact .inl rfl
  | some flight =>
    simp only [Deliveries.delivered_eq hflight, files_refreshQueue, files_tell, files_settle]
    cases hrow : s.deliveries.outboxRows.lookup id with
    | none => exact .inl rfl
    | some row =>
      dsimp only
      rw [files_command]
      split
      · exact .inr ⟨flight, row, rfl, rfl, rfl⟩
      · exact .inl rfl

end MainWindow

end Esmail
