/-
# The books: what the main window's functions do to what counts

Much of what the main window does in a step is for the eye, or for later: messages to windows,
lists asked for again, a back-off.  `MainWindow.books` leaves that out.  What is left, the `Books`,
is where a message can be and who may send it: the entries and the ledger, the commands that WRITE
a table, the answers that are on their way, the rows of the tables as ids and texts, and the mailer.

On books every function of the main window has a counterpart, and section 3 proves that each
function does to the books what its counterpart says.  The invariants of the modules that follow
are about books, and no proof about them unfolds a function of the main window again.
-/
import Esmail.Outgoing.System

namespace Esmail

/-! ## 1. Books -/

/-- The commands that change what the tables hold. -/
def DbCommand.isWrite : DbCommand → Bool
  | .saveDraft .. | .deleteDraft _ | .enqueueOutbox .. | .markOutboxSent _ | .deleteOutbox _ => true
  | _ => false

structure Books where
  accounts : List AccountId
  entries : AList (fun _ : ComposeId => Entry)
  deliveries : Deliveries
  listed : List OutboxItem
  writes : List DbCommand
  events : List CacheEvent
  outbox : List (Row × ComposeState)
  drafts : List (Row × ComposeState)
  nextOutbox : Row
  nextDraft : Row
  mails : List SmtpCommand
  outcomes : List SmtpEvent

def OutboxRow.held (r : OutboxRow) : Row × ComposeState := (r.id, r.compose)

def DraftRow.held (r : DraftRow) : Row × ComposeState := (r.id, r.compose)

namespace Books

/-- A command is queued where a place is free, and else dropped. -/
def push (b : Books) (free : Nat) (c : DbCommand) : Books :=
  if 0 < free then { b with writes := b.writes ++ [c] } else b

def windowOpen (b : Books) (id : ComposeId) : Bool :=
  match b.entries.lookup id with
  | some entry => entry.window
  | none => false

def setEntry (b : Books) (id : ComposeId) (entry : Entry) : Books :=
  { b with entries := b.entries.insert id entry }

def withDeliveries (b : Books) (d : Deliveries) : Books := { b with deliveries := d }

/-! ## 2. The counterparts -/

def forgetIfDone (b : Books) (id : ComposeId) : Books :=
  match b.entries.lookup id with
  | some entry =>
    if !entry.window && entry.savesPending == 0 then { b with entries := b.entries.erase id } else b
  | none => b

def startCompose (b : Books) (state : ComposeState) (opens : Bool) : Books :=
  let b' := b.withDeliveries b.deliveries.nextId.2
  if opens then b'.setEntry b.deliveries.nextId.1 ⟨true, none, 0, false, false, state.stamp.msg⟩ else b'

/-- A message is handed to the mailer. -/
def hand (b : Books) (id : ComposeId) (config : AccountId) (state : ComposeState) : Books :=
  { b with mails := b.mails ++ [⟨id, config, state⟩] }

def saveDraft (b : Books) (free : Nat) (id : ComposeId) (state : ComposeState) (explicit : Bool) :
    Books :=
  match b.entries.lookup id with
  | none => b
  | some entry =>
    if !hasContent state then b
    else
      (b.setEntry id
          { entry with savesPending := entry.savesPending + 1, announceSave := explicit }).push free
        (.saveDraft entry.draft id state.accountId { state with draftId := entry.draft })

def settle (b : Books) (free : Nat) (id : ComposeId) : Books :=
  match b.entries.lookup id with
  | none => b
  | some entry =>
    let b' := b.setEntry id { entry with settled := true, draft := none }
    match entry.draft with
    | some draft => b'.push free (.deleteDraft draft)
    | none => b'

def discard (b : Books) (free : Nat) (id : ComposeId) : Books :=
  let b' := b.withDeliveries (b.deliveries.forget id).2
  match (b.deliveries.forget id).1 with
  | some row => (b'.push free (.deleteOutbox row)).settle (free - 1) id
  | none => b'.settle free id

def windowClosed (b : Books) (id : ComposeId) : Books :=
  (match b.entries.lookup id with
    | some entry => b.setEntry id { entry with window := false }
    | none => b).forgetIfDone id

def draftSaved (b : Books) (free : Nat) (row : Row) (id : ComposeId) : Books :=
  match b.entries.lookup id with
  | none => b
  | some entry =>
    let entry := { entry with savesPending := entry.savesPending - 1 }
    (if entry.settled then (b.setEntry id entry).push free (.deleteDraft row)
      else
        b.setEntry id { entry with
          draft := some row
          announceSave := if entry.savesPending = 0 then false else entry.announceSave }).forgetIfDone id

def outboxEnqueued (b : Books) (row : Row) (id : ComposeId) : Books :=
  b.withDeliveries (b.deliveries.outboxEnqueued id row)

def outcomeFailed (b : Books) (free : Nat) (id : ComposeId) : Books :=
  match (b.deliveries.failed id).1 with
  | none => b
  | some (.backoff _) => b.withDeliveries (b.deliveries.failed id).2
  | some (.enqueue account state) =>
    match b.accounts[account]? with
    | some config =>
      (b.withDeliveries (b.deliveries.failed id).2).push free (.enqueueOutbox none id config state)
    | none => b.withDeliveries (b.deliveries.failed id).2

def outcomeSent (b : Books) (free : Nat) (id : ComposeId) : Books :=
  match (b.deliveries.delivered id).1 with
  | none => b
  | some delivered =>
    let b' := b.withDeliveries (b.deliveries.delivered id).2
    match delivered.outboxRow with
    | some row => (b'.push free (.markOutboxSent row)).settle (free - 1) id
    | none => b'.settle free id

def editQueued (b : Books) (free : Nat) (item : OutboxItem) (opens : Bool) : Books :=
  ({ b with listed := b.listed.eraseP fun i => i.id = item.id }.push free
    (.deleteOutbox item.id)).startCompose (item.compose.withAccount (some item.accountId)) opens

/-- The cache actor runs a command that writes. -/
def run (b : Books) : DbCommand → Books
  | .saveDraft (some row) composeId _ compose =>
    { b with
      drafts := b.drafts.map fun r => if r.1 = row then (row, compose) else r
      events := b.events ++ [.draftSaved row composeId] }
  | .saveDraft none composeId _ compose =>
    { b with
      drafts := b.drafts ++ [(b.nextDraft, compose)]
      nextDraft := b.nextDraft + 1
      events := b.events ++ [.draftSaved b.nextDraft composeId] }
  | .enqueueOutbox (some row) composeId _ compose =>
    { b with
      outbox := b.outbox.map fun r => if r.1 = row then (row, compose) else r
      events := b.events ++ [.outboxEnqueued row composeId] }
  | .enqueueOutbox none composeId _ compose =>
    { b with
      outbox := b.outbox ++ [(b.nextOutbox, compose)]
      nextOutbox := b.nextOutbox + 1
      events := b.events ++ [.outboxEnqueued b.nextOutbox composeId] }
  | .deleteDraft row => { b with drafts := b.drafts.filter fun r => r.1 ≠ row }
  | .markOutboxSent row | .deleteOutbox row => { b with outbox := b.outbox.filter fun r => r.1 ≠ row }
  | _ => b

/-- What the cache answers to a command that only reads. -/
inductive Answer (b : Books) : List CacheEvent → Prop
  | nothing : Answer b []
  | drafts : Answer b [.drafts]
  | failed : Answer b [.failed]
  | draft {row : Row} {compose : ComposeState} : (row, compose) ∈ b.drafts →
      Answer b [.draftLoaded row compose]
  | due {items : List OutboxItem} : (items.map fun i => (i.id, i.compose)).Sublist b.outbox →
      Answer b [.outboxDue items]
  | outbox {items : List OutboxItem} : items.map (fun i => (i.id, i.compose)) = b.outbox →
      Answer b [.outbox items]

/-- The mail core is replaced: what was queued for the tables is still run, all else is gone. -/
def reload (b : Books) (accounts : List AccountId) : Books :=
  let b' := b.writes.foldl run b
  { b with
    accounts := accounts
    outbox := b'.outbox
    drafts := b'.drafts
    nextOutbox := b'.nextOutbox
    nextDraft := b'.nextDraft
    writes := []
    events := []
    mails := []
    outcomes := [] }

end Books

namespace MainWindow

def books (s : MainWindow) : Books where
  accounts := s.accounts
  entries := s.entries
  deliveries := s.deliveries
  listed := s.outboxItems
  writes := s.commands.filter DbCommand.isWrite
  events := s.events
  outbox := s.db.outbox.map OutboxRow.held
  drafts := s.db.drafts.map DraftRow.held
  nextOutbox := s.db.nextOutbox
  nextDraft := s.db.nextDraft
  mails := s.mails
  outcomes := s.outcomes

/-- The free places in the queue of the cache. -/
def free (s : MainWindow) : Nat := commandQueue - s.commands.length

variable (s : MainWindow)

/-! ## 3. Every function does what its counterpart says -/

theorem books_command {c : DbCommand} (h : c.isWrite = true) :
    (s.command c).books = s.books.push s.free c := by
  unfold command Books.push free
  by_cases hroom : s.commands.length < commandQueue
  · rw [if_pos hroom, if_pos (Nat.sub_pos_of_lt hroom)]
    simp [books, List.filter_append, h]
  · rw [if_neg hroom, if_neg (by omega)]

theorem free_command (c : DbCommand) : (s.command c).free = s.free - 1 := by
  unfold command free
  split
  · simp only [List.length_append, List.length_singleton]
    omega
  · omega

theorem books_command_quiet {c : DbCommand} (h : c.isWrite = false) :
    (s.command c).books = s.books := by
  unfold command
  split
  · simp [books, List.filter_append, h]
  · rfl

@[simp] theorem books_tell (id : ComposeId) (msg : ComposeMsg) : (s.tell id msg).books = s.books := by
  unfold tell
  split <;> rfl

@[simp] theorem books_refreshQueue (kind : QueueKind) : (s.refreshQueue kind).books = s.books := by
  unfold refreshQueue
  cases kind with
  | drafts =>
    dsimp only
    split
    · exact s.books_command_quiet rfl
    · rfl
  | outbox =>
    dsimp only
    split
    · exact s.books_command_quiet rfl
    · rfl

@[simp] theorem books_showQueue (kind : QueueKind) : (s.showQueue kind).books = s.books := by
  cases kind <;> exact books_refreshQueue _ _

@[simp] theorem books_closeQueue (kind : QueueKind) : (s.closeQueue kind).books = s.books := by
  cases kind <;> rfl

theorem books_forgetIfDone (id : ComposeId) : (s.forgetIfDone id).books = s.books.forgetIfDone id := by
  unfold forgetIfDone Books.forgetIfDone
  rw [show s.books.entries = s.entries from rfl]
  cases s.entries.lookup id with
  | none => rfl
  | some entry =>
    dsimp only
    split <;> rfl

theorem books_startCompose (state : ComposeState) (opens : Bool) :
    (s.startCompose state opens).books = s.books.startCompose state opens := by
  cases opens <;> rfl

/-- A send is refused, or it is with the mailer and in the ledger. -/
theorem books_sendMessage (refusal : Option String) (id : ComposeId) (state : ComposeState) :
    (s.sendMessage refusal id state).books = s.books ∨
      ∃ account config, s.accounts[account]? = some config ∧
        (s.sendMessage refusal id state).books =
          (s.books.hand id config state).withDeliveries (s.books.deliveries.begin id account state) := by
  unfold sendMessage
  cases state.accountId.bind s.accountIndex with
  | none => exact .inl (books_tell ..)
  | some account =>
    simp only [sendMail]
    cases hconfig : s.accounts[account]? with
    | none => exact .inl (books_tell ..)
    | some config =>
      cases refusal with
      | some error => exact .inl (books_tell ..)
      | none =>
        by_cases hroom : s.mails.length < mailQueue
        · simp only [if_pos hroom]
          exact .inr ⟨account, config, hconfig, books_tell ..⟩
        · simp only [if_neg hroom]
          exact .inl (books_tell ..)

theorem books_saveDraft (id : ComposeId) (state : ComposeState) (explicit : Bool) :
    (s.saveDraft id state explicit).books = s.books.saveDraft s.free id state explicit := by
  unfold saveDraft Books.saveDraft
  rw [show s.books.entries = s.entries from rfl]
  cases s.entries.lookup id with
  | none => rfl
  | some entry =>
    dsimp only
    split
    · rfl
    · exact books_command _ rfl

theorem books_settle (id : ComposeId) : (s.settle id).books = s.books.settle s.free id := by
  unfold settle Books.settle
  rw [show s.books.entries = s.entries from rfl]
  cases s.entries.lookup id with
  | none => rfl
  | some entry =>
    dsimp only
    cases entry.draft with
    | none => rfl
    | some draft => exact books_command _ rfl

theorem books_discardMessage (id : ComposeId) :
    (s.discardMessage id).books = s.books.discard s.free id := by
  unfold discardMessage Books.discard
  rw [show s.books.deliveries = s.deliveries from rfl]
  cases (s.deliveries.forget id).1 with
  | none => exact books_settle _ id
  | some row =>
    dsimp only
    rw [books_settle, free_command, books_command _ rfl]
    rfl

theorem books_windowClosed (id : ComposeId) : (s.windowClosed id).books = s.books.windowClosed id := by
  unfold windowClosed Books.windowClosed
  rw [books_forgetIfDone, show s.books.entries = s.entries from rfl]
  cases s.entries.lookup id <;> rfl

theorem books_draftSaved (row : Row) (id : ComposeId) :
    (s.draftSaved row id).books = s.books.draftSaved s.free row id := by
  unfold draftSaved Books.draftSaved
  rw [show s.books.entries = s.entries from rfl]
  cases s.entries.lookup id with
  | none => rfl
  | some entry =>
    dsimp only
    rw [books_forgetIfDone]
    split
    · rw [books_command _ rfl]
      rfl
    · split
      · split
        · rw [books_tell]
          rfl
        · rfl
      · rfl

theorem books_outboxEnqueued (row : Row) (id : ComposeId) :
    (s.outboxEnqueued row id).books = s.books.outboxEnqueued row id := books_refreshQueue _ _

theorem books_outcomeFailed (id : ComposeId) (error : String) :
    (s.outcomeFailed id error).books = s.books.outcomeFailed s.free id := by
  unfold outcomeFailed Books.outcomeFailed
  rw [show s.books.deliveries = s.deliveries from rfl, show s.books.accounts = s.accounts from rfl]
  cases (s.deliveries.failed id).1 with
  | none => rfl
  | some failure =>
    cases failure with
    | backoff row =>
      dsimp only
      rw [books_refreshQueue, books_tell, books_command_quiet _ rfl]
      rfl
    | enqueue account state =>
      dsimp only
      rw [books_refreshQueue, books_tell]
      cases s.accounts[account]? with
      | none => rfl
      | some config => exact books_command _ rfl

theorem books_outcomeSent (id : ComposeId) :
    (s.outcomeSent id).books = s.books.outcomeSent s.free id := by
  unfold outcomeSent Books.outcomeSent
  rw [show s.books.deliveries = s.deliveries from rfl]
  cases (s.deliveries.delivered id).1 with
  | none => rfl
  | some delivered =>
    dsimp only
    rw [books_refreshQueue, books_tell, books_settle]
    cases delivered.outboxRow with
    | none => rfl
    | some row =>
      dsimp only
      rw [free_command, books_command _ rfl]
      rfl

/-- The row that a deletion in the Drafts or the Outbox window is about. -/
theorem books_deleteRow (kind : QueueKind) (row : Row) :
    (s.deleteRow kind row).books =
      s.books.push s.free (match kind with
        | .drafts => .deleteDraft row
        | .outbox => .deleteOutbox row) := by
  cases kind <;> exact (books_refreshQueue ..).trans (books_command _ rfl)

theorem books_editQueued (item : OutboxItem) (opens : Bool) :
    (s.editQueued item opens).books = s.books.editQueued s.free item opens := by
  unfold editQueued Books.editQueued
  rw [books_refreshQueue, books_startCompose, books_command _ rfl]
  rfl

theorem books_draftLoaded (id : Row) (state : ComposeState) (opens : Bool) :
    (s.draftLoaded id state opens).books =
      s.books.startCompose { state with draftId := some id } opens := by
  unfold draftLoaded
  rw [← books_startCompose]
  rfl

/-! ## 4. The outbox timer -/

/-- One of the sends that `retries` asked for: the mailer has it, or it has failed. -/
theorem books_attempt (refusal : ComposeId → Option String) (retry : Retry) :
    (∃ config, s.accounts[retry.account]? = some config ∧
      (s.attempt refusal retry).books = s.books.hand retry.id config retry.state) ∨
    (s.attempt refusal retry).books = s.books.outcomeFailed s.free retry.id := by
  unfold attempt sendMail
  cases hconfig : s.accounts[retry.account]? with
  | none => exact .inr (books_outcomeFailed ..)
  | some config =>
    cases refusal retry.id with
    | some error => exact .inr (books_outcomeFailed ..)
    | none =>
      by_cases hroom : s.mails.length < mailQueue
      · simp only [if_pos hroom]
        exact .inl ⟨config, rfl, rfl⟩
      · simp only [if_neg hroom]
        exact .inr (books_outcomeFailed ..)

/-- Backing off the rows of unknown accounts is not in the books. -/
theorem books_backOff (error : String) : ∀ (items : List OutboxItem) (s : MainWindow),
    (items.foldl (fun s item => s.command (.markOutboxFailed item.id error)) s).books = s.books
  | [], _ => rfl
  | item :: items, s =>
    (books_backOff error items (s.command (.markOutboxFailed item.id error))).trans
      (s.books_command_quiet rfl)

/-- What every attempt keeps holds after `outbox_due`, if it holds when the retries are in the
ledger. -/
theorem outboxDue_induction {P : List Retry → Books → Prop}
    (hattempt : ∀ retry rest b free, P (retry :: rest) b → P rest (b.outcomeFailed free retry.id))
    (hhand : ∀ retry rest b config, P (retry :: rest) b → P rest (b.hand retry.id config retry.state))
    (refusal : ComposeId → Option String) (due : List OutboxItem)
    (h : P (s.books.deliveries.retries due s.books.windowOpen s.accountIndex).1.1
      (s.books.withDeliveries (s.books.deliveries.retries due s.books.windowOpen s.accountIndex).2)) :
    P [] (s.outboxDue refusal due).books := by
  have hloop : ∀ (retries : List Retry) (m : MainWindow), P retries m.books →
      P [] (retries.foldl (attempt refusal) m).books := by
    intro retries
    induction retries with
    | nil => exact fun m hm => hm
    | cons retry rest ih =>
      intro m hm
      refine ih _ ?_
      rcases m.books_attempt refusal retry with ⟨config, -, heq⟩ | heq
      · rw [heq]
        exact hhand retry rest _ config hm
      · rw [heq]
        exact hattempt retry rest _ _ hm
  unfold outboxDue
  refine hloop _ _ ?_
  rw [books_backOff]
  exact h

/-! ## 5. The cache actor -/

theorem held_toItem (rows : List OutboxRow) :
    (rows.map OutboxRow.toItem).map (fun i => (i.id, i.compose)) = rows.map OutboxRow.held := by
  rw [List.map_map]
  rfl

theorem held_markOutboxFailed (db : Db) (row : Row) (error : String) :
    (db.markOutboxFailed row error).outbox.map OutboxRow.held = db.outbox.map OutboxRow.held := by
  unfold Db.markOutboxFailed
  rw [List.map_map]
  refine List.map_congr_left fun r _ => ?_
  simp only [Function.comp]
  split <;> rfl

theorem held_filter_outbox (rows : List OutboxRow) (row : Row) :
    (rows.filter fun r => r.id ≠ row).map OutboxRow.held =
      (rows.map OutboxRow.held).filter fun r => r.1 ≠ row := by
  rw [List.filter_map]
  rfl

theorem held_filter_drafts (rows : List DraftRow) (row : Row) :
    (rows.filter fun r => r.id ≠ row).map DraftRow.held =
      (rows.map DraftRow.held).filter fun r => r.1 ≠ row := by
  rw [List.filter_map]
  rfl

/-- The tables and the answers, when a command that writes has run. -/
theorem books_run_write {c : DbCommand} (h : c.isWrite = true) :
    { s with events := s.events ++ (run s.db c).1, db := (run s.db c).2 }.books = s.books.run c := by
  cases c with
  | saveDraft id composeId accountId compose =>
    cases id with
    | none => simp [run, Db.saveDraft, books, Books.run, DraftRow.held]
    | some row =>
      simp only [run, Db.saveDraft, books, Books.run, List.map_map]
      congr 1
      refine List.map_congr_left fun r _ => ?_
      by_cases hr : r.id = row <;> simp [DraftRow.held, hr]
  | enqueueOutbox id composeId accountId compose =>
    cases id with
    | none => simp [run, Db.enqueueOutbox, Db.insertOutbox, books, Books.run, OutboxRow.held]
    | some row =>
      simp only [run, Db.enqueueOutbox, books, Books.run, List.map_map]
      congr 1
      refine List.map_congr_left fun r _ => ?_
      by_cases hr : r.id = row <;> simp [OutboxRow.held, hr]
  | deleteDraft row =>
    simp only [run, Db.deleteDraft, books, Books.run, List.append_nil, held_filter_drafts]
  | markOutboxSent row =>
    simp only [run, Db.deleteOutbox, books, Books.run, List.append_nil, held_filter_outbox]
  | deleteOutbox row =>
    simp only [run, Db.deleteOutbox, books, Books.run, List.append_nil, held_filter_outbox]
  | listDrafts | loadDraft _ | dueOutbox | listOutbox | markOutboxFailed _ _ | other =>
    exact absurd h (by simp [DbCommand.isWrite])

/-- The same for a command that reads: there is an answer, and nothing else. -/
theorem books_run_read {c : DbCommand} (h : c.isWrite = false) :
    ∃ es, s.books.Answer es ∧
      { s with events := s.events ++ (run s.db c).1, db := (run s.db c).2 }.books =
        { s.books with events := s.books.events ++ es } := by
  cases c with
  | listDrafts => exact ⟨_, .drafts, rfl⟩
  | loadDraft row =>
    simp only [run, Db.loadDraft]
    cases hfind : s.db.drafts.find? fun r => r.id = row with
    | none => exact ⟨_, .failed, rfl⟩
    | some r =>
      refine ⟨[.draftLoaded row r.compose], .draft ?_, rfl⟩
      have hid : r.id = row := by simpa using List.find?_some hfind
      exact List.mem_map.mpr ⟨r, List.mem_of_find?_eq_some hfind, by rw [DraftRow.held, hid]⟩
  | dueOutbox =>
    refine ⟨[.outboxDue s.db.dueOutbox], .due ?_, rfl⟩
    rw [Db.dueOutbox, held_toItem]
    exact List.filter_sublist.map _
  | listOutbox => exact ⟨[.outbox s.db.listOutbox], .outbox (held_toItem _), rfl⟩
  | markOutboxFailed row error =>
    simp only [run]
    split
    · refine ⟨[], .nothing, ?_⟩
      simp only [books, held_markOutboxFailed]
      rfl
    · exact ⟨_, .failed, rfl⟩
  | other => exact ⟨[], .nothing, by simp [run, books]⟩
  | saveDraft _ _ _ _ | enqueueOutbox _ _ _ _ | deleteDraft _ | markOutboxSent _ | deleteOutbox _ =>
    exact absurd h (by simp [DbCommand.isWrite])

/-- The actor takes the next command: the next one that writes, or one that reads. -/
theorem books_execute {s s' : MainWindow} (h : s.execute = some s') :
    (∃ c ws, s.books.writes = c :: ws ∧ s.commands.head? = some c ∧
      s'.books = { s.books with writes := ws }.run c) ∨
    ∃ es, s.books.Answer es ∧ (∀ c, s.commands.head? = some c → c.isWrite = false) ∧
      s'.books = { s.books with events := s.books.events ++ es } := by
  unfold execute at h
  split at h
  · exact absurd h (by simp)
  · next c rest hcommands =>
    cases h
    cases hwrite : c.isWrite with
    | true =>
      refine .inl ⟨c, rest.filter DbCommand.isWrite, ?_, by rw [hcommands]; rfl, ?_⟩
      · simp [books, hcommands, hwrite]
      · exact books_run_write { s with commands := rest } hwrite
    | false =>
      obtain ⟨es, hanswer, heq⟩ := books_run_read { s with commands := rest } hwrite
      have hbooks : ({ s with commands := rest } : MainWindow).books = s.books := by
        simp [books, hcommands, hwrite]
      rw [hbooks] at hanswer heq
      refine .inr ⟨es, hanswer, fun d hd => ?_, heq⟩
      rw [hcommands, List.head?_cons, Option.some.injEq] at hd
      exact hd ▸ hwrite

/-- Two books over the same tables. -/
def SameTables (b b' : Books) : Prop :=
  b.outbox = b'.outbox ∧ b.drafts = b'.drafts ∧ b.nextOutbox = b'.nextOutbox ∧
    b.nextDraft = b'.nextDraft

theorem SameTables.run {b b' : Books} (h : SameTables b b') (c : DbCommand) :
    SameTables (b.run c) (b'.run c) := by
  obtain ⟨h₁, h₂, h₃, h₄⟩ := h
  cases c with
  | saveDraft id _ _ _ => cases id <;> simp [Books.run, SameTables, h₁, h₂, h₃, h₄]
  | enqueueOutbox id _ _ _ => cases id <;> simp [Books.run, SameTables, h₁, h₂, h₃, h₄]
  | _ => simp [Books.run, SameTables, h₁, h₂, h₃, h₄]

theorem sameTables_foldl_run : ∀ (cs : List DbCommand) (s : MainWindow) (b : Books),
    SameTables s.books b →
      SameTables { s with db := cs.foldl (fun db c => (MainWindow.run db c).2) s.db }.books
        ((cs.filter DbCommand.isWrite).foldl Books.run b)
  | [], _, _, h => h
  | c :: cs, s, b, h => by
    -- The events are no part of the tables.
    have hnext : SameTables { s with db := (MainWindow.run s.db c).2 }.books
        (if c.isWrite then b.run c else b) := by
      cases hwrite : c.isWrite with
      | true =>
        have hrun := s.books_run_write hwrite
        obtain ⟨h₁, h₂, h₃, h₄⟩ := h.run c
        rw [if_pos rfl]
        exact ⟨(congrArg Books.outbox hrun).trans h₁, (congrArg Books.drafts hrun).trans h₂,
          (congrArg Books.nextOutbox hrun).trans h₃, (congrArg Books.nextDraft hrun).trans h₄⟩
      | false =>
        obtain ⟨es, -, hrun⟩ := s.books_run_read hwrite
        rw [if_neg (by simp)]
        exact ⟨(congrArg Books.outbox hrun).trans h.1, (congrArg Books.drafts hrun).trans h.2.1,
          (congrArg Books.nextOutbox hrun).trans h.2.2.1, (congrArg Books.nextDraft hrun).trans h.2.2.2⟩
    have ih := sameTables_foldl_run cs { s with db := (MainWindow.run s.db c).2 } _ hnext
    rw [List.foldl_cons, List.filter_cons]
    split at ih
    · next hwrite =>
      rw [if_pos hwrite]
      exact ih
    · next hwrite =>
      rw [if_neg hwrite]
      exact ih

theorem books_reloadAccounts (accounts : List AccountId) :
    (s.reloadAccounts accounts).books = s.books.reload accounts := by
  obtain ⟨h₁, h₂, h₃, h₄⟩ := sameTables_foldl_run s.commands s s.books ⟨rfl, rfl, rfl, rfl⟩
  unfold reloadAccounts Books.reload
  simp only [books] at h₁ h₂ h₃ h₄ ⊢
  simp only [h₁, h₂, h₃, h₄]
  rfl

end MainWindow

/-! ## 6. A send fails -/

namespace Books

/-- A failed send, as the ledger forgets it. -/
def failedSend (b : Books) (id : ComposeId) : Books :=
  b.withDeliveries { b.deliveries with inFlight := b.deliveries.inFlight.erase id }

/-- A failure of no send; of one that has a row, which is backed off; of one whose account is gone; and
of one that is to be recorded. -/
inductive Failed (b : Books) (free : Nat) (id : ComposeId) : Books → Prop
  | unknown : b.deliveries.inFlight.lookup id = none → Failed b free id b
  | backoff {flight : Flight} {row : Row} : b.deliveries.inFlight.lookup id = some flight →
      b.deliveries.outboxRows.lookup id = some row → Failed b free id (b.failedSend id)
  | homeless {flight : Flight} : b.deliveries.inFlight.lookup id = some flight →
      b.deliveries.outboxRows.lookup id = none → b.accounts[flight.account]? = none →
      Failed b free id (b.failedSend id)
  | enqueued {flight : Flight} {config : AccountId} : b.deliveries.inFlight.lookup id = some flight →
      b.deliveries.outboxRows.lookup id = none → b.accounts[flight.account]? = some config →
      Failed b free id
        ((b.failedSend id).push free (.enqueueOutbox none id config flight.state))

theorem outcomeFailed_cases (b : Books) (free : Nat) (id : ComposeId) :
    Failed b free id (b.outcomeFailed free id) := by
  unfold outcomeFailed
  cases hf : b.deliveries.inFlight.lookup id with
  | none =>
    rw [Deliveries.failed_none hf]
    exact .unknown hf
  | some flight =>
    cases hrow : b.deliveries.outboxRows.lookup id with
    | some row =>
      simp only [Deliveries.failed, hf, hrow]
      exact .backoff hf hrow
    | none =>
      simp only [Deliveries.failed, hf, hrow]
      cases hconfig : b.accounts[flight.account]? with
      | none => exact .homeless hf hrow hconfig
      | some config => exact .enqueued hf hrow hconfig

theorem outcomeFailed_owned {b : Books} {id : ComposeId} {flight : Flight} {row : Row}
    (hf : b.deliveries.inFlight.lookup id = some flight)
    (hrow : b.deliveries.outboxRows.lookup id = some row) (free : Nat) :
    b.outcomeFailed free id = b.failedSend id := by
  unfold outcomeFailed
  simp only [Deliveries.failed, hf, hrow]
  rfl

end Books

end Esmail
