/-
# Everything that moves between windows, tables and the mailer

The system: the main window with its cache and mailer, the compose windows, and the requests they
have made.  An action is one of these moving on by one step: the user does something in a window,
the main window takes the next request, answer or outcome, the cache actor runs the next command,
the mailer finishes a message.  Each queue is first in, first out; between queues every order is
a run.

Three ledgers are kept for the theorems and read by nothing else: the versions that the mail server
has taken (`delivered`), those the user has thrown away (`discarded`), and those the program has
made itself answerable for (`promised`): stored in a table, or accepted for sending.
-/
import Esmail.Library.Machine
import Esmail.Outgoing.MainWindow

namespace Esmail

open Transition

structure System where
  main : MainWindow
  windows : List Window := []
  requests : List (ComposeId × Request) := []
  /-- The number of the next version, and of the next message. -/
  clock : Nat := 0
  nextMsg : Nat := 0
  delivered : List Stamp := []
  discarded : List Stamp := []
  promised : List Stamp := []

namespace System

inductive Action
  /-- A new message, a reply or a forward. -/
  | compose (text : Text) (account : Nat) (opens : Bool)
  | edit (id : ComposeId) (text : Text) (sender : Option AccountId)
  | attach (id : ComposeId) (files : List (String × List UInt8))
  | clickSend (id : ComposeId)
  | clickSave (id : ComposeId)
  | clickDiscard (id : ComposeId)
  | closeBox (id : ComposeId) (choice : Window.Close)
  | timer (id : ComposeId)
  /-- A compose window takes the next message posted to it. -/
  | receive (id : ComposeId)
  | handleRequest (refusal : Option String)
  | handleEvent (refusal : ComposeId → Option String) (opens : Bool)
  | handleOutcome
  /-- The outbox timer. -/
  | poll
  | showQueue (kind : QueueKind)
  | closeQueue (kind : QueueKind)
  | openDraft (row : Row)
  | deleteRow (kind : QueueKind) (row : Row)
  | editQueued (row : Row) (opens : Bool)
  | retryQueued (row : Row) (refusal : ComposeId → Option String)
  | execute
  /-- Some other part of the program queues a command. -/
  | otherCommand
  | tick (seconds : Nat)
  /-- The mailer is done with a message; `none` says it was sent. -/
  | mail (error : Option String)
  | reload (accounts : List AccountId)

/-! ## 1. Windows -/

def window (s : System) (id : ComposeId) : Option Window := s.windows.find? fun w => w.id = id

def putWindow (s : System) (w : Window) : System :=
  { s with windows := s.windows.map fun v => if v.id = w.id then w else v }

def dropWindow (s : System) (id : ComposeId) : System :=
  { s with windows := s.windows.filter fun w => w.id ≠ id }

/-- `ComposeApp::ask`. -/
def ask (s : System) (id : ComposeId) (rs : List Request) : System :=
  { s with requests := s.requests ++ rs.map fun r => (id, r) }

/-- The windows, when `start_compose` has been called for `state`. -/
def opened (s : System) (state : ComposeState) (opens : Bool) : List Window :=
  if opens then s.windows ++ [Window.new s.main.deliveries.nextId.1 s.main.accounts state]
  else s.windows

/-! ## 2. Ledgers -/

/-- The versions accepted for sending between two states. -/
def accepted (m m' : MainWindow) : List Stamp :=
  (m'.mails.drop m.mails.length).map fun c => c.compose.stamp

/-- The version a command stores. -/
def stored : DbCommand → List Stamp
  | .saveDraft _ _ _ compose | .enqueueOutbox _ _ _ compose => [compose.stamp]
  | _ => []

/-- What the user throws away with a request: everything written of the message so far. -/
def thrownAway (s : System) (id : ComposeId) : Request → List Stamp
  | .discard => (s.main.entries.lookup id).toList.map fun entry => ⟨entry.msg, s.clock⟩
  | _ => []

/-- What the user throws away with a row. -/
def thrownAwayRow (s : System) (kind : QueueKind) (row : Row) : List Stamp :=
  match kind with
  | .drafts => (s.main.db.drafts.filter fun r => r.id = row).map fun r => ⟨r.compose.stamp.msg, s.clock⟩
  | .outbox => (s.main.db.outbox.filter fun r => r.id = row).map fun r => ⟨r.compose.stamp.msg, s.clock⟩

/-- The Drafts and the Outbox window list no row that the table has never had. -/
def wasGiven (s : System) (kind : QueueKind) (row : Row) : Bool :=
  match kind with
  | .drafts => row < s.main.db.nextDraft
  | .outbox => row < s.main.db.nextOutbox

/-- The main window goes on to `m`, which may have accepted messages for sending. -/
def goOn (s : System) (m : MainWindow) : System :=
  { s with main := m, promised := s.promised ++ accepted s.main m }

/-! ## 3. Steps -/

/-- `handle_cache`. -/
def handleCache (m : MainWindow) (refusal : ComposeId → Option String) (opens : Bool) :
    CacheEvent → MainWindow
  | .draftSaved row id => m.draftSaved row id
  | .outboxEnqueued row id => m.outboxEnqueued row id
  | .outboxDue items => m.outboxDue refusal items
  | .outbox items => { m with outboxItems := items }
  | .draftLoaded row state => m.draftLoaded row state opens
  | .drafts | .failed => m

/-- The windows then: only a loaded draft opens one. -/
def openedBy (s : System) (opens : Bool) : CacheEvent → List Window
  | .draftLoaded row state => s.opened { state with draftId := some row } opens
  | _ => s.windows

def outcomeOf (id : ComposeId) : Option String → SmtpEvent
  | none => .sent id
  | some error => .error id error

def step (s : System) : Action → Option System
  | .compose text account opens =>
    match s.main.accounts[account]? with
    | none => some s
    | some config =>
      let state : ComposeState := ⟨text, some config, none, ⟨s.nextMsg, s.clock⟩⟩
      some { s with
        main := s.main.startCompose state opens
        windows := s.opened state opens
        nextMsg := s.nextMsg + 1
        clock := s.clock + 1 }
  | .edit id text sender =>
    (s.window id).bind fun w => (w.edit text sender s.clock).map fun w' =>
      { s.putWindow w' with clock := s.clock + 1 }
  | .attach id files =>
    (s.window id).map fun w =>
      { s.putWindow (w.attachmentsRead files s.clock) with clock := s.clock + 1 }
  | .clickSend id => (s.window id).map fun w => s.ask id w.send
  | .clickSave id => (s.window id).map fun w => (s.putWindow (w.saveDraft true).1).ask id (w.saveDraft true).2
  | .timer id => (s.window id).map fun w => (s.putWindow w.timer.1).ask id w.timer.2
  | .clickDiscard id => (s.window id).map fun _ => (s.dropWindow id).ask id [.discard, .closed]
  | .closeBox id choice =>
    (s.window id).map fun w =>
      match w.closeRequested choice with
      | none => s
      | some rs => (s.dropWindow id).ask id rs
  | .receive id =>
    (s.window id).bind fun w => (s.main.posted.find? fun p => p.1 = id).map fun p =>
      let s' := { s with main := { s.main with posted := s.main.posted.eraseP fun p => p.1 = id } }
      match w.update p.2 with
      | some w' => s'.putWindow w'
      | none => (s'.dropWindow id).ask id [.closed]
  | .handleRequest refusal =>
    match s.requests with
    | [] => none
    | (id, r) :: rest =>
      some { s.goOn (s.main.composeRequest refusal id r) with
        requests := rest
        discarded := s.discarded ++ s.thrownAway id r }
  | .handleEvent refusal opens =>
    match s.main.events with
    | [] => none
    | e :: rest =>
      some { s.goOn (handleCache { s.main with events := rest } refusal opens e) with
        windows := s.openedBy opens e }
  | .handleOutcome =>
    match s.main.outcomes with
    | [] => none
    | o :: rest => some (s.goOn ({ s.main with outcomes := rest }.smtpEvent o))
  | .poll => some { s with main := s.main.command .dueOutbox }
  | .showQueue kind => some { s with main := s.main.showQueue kind }
  | .closeQueue kind => some { s with main := s.main.closeQueue kind }
  | .openDraft row => some { s with main := s.main.command (.loadDraft row) }
  | .deleteRow kind row =>
    if s.wasGiven kind row then
      some { s with
        main := s.main.deleteRow kind row
        discarded := s.discarded ++ s.thrownAwayRow kind row }
    else none
  | .editQueued row opens =>
    match s.main.listedItem row with
    | none => some s
    | some item =>
      some { s with
        main := s.main.editQueued item opens
        windows := s.opened (item.compose.withAccount (some item.accountId)) opens }
  | .retryQueued row refusal =>
    match s.main.listedItem row with
    | none => some s
    | some item => some (s.goOn (s.main.outboxDue refusal [item]))
  | .execute =>
    s.main.execute.map fun m =>
      { s with main := m, promised := s.promised ++ (s.main.commands.take 1).flatMap stored }
  | .otherCommand => some { s with main := s.main.command .other }
  | .tick seconds =>
    some { s with main := { s.main with db := { s.main.db with now := s.main.db.now + seconds } } }
  | .mail error =>
    match s.main.mails with
    | [] => none
    | c :: rest =>
      some { s with
        main := { s.main with
          mails := rest
          outcomes := s.main.outcomes ++ [outcomeOf c.id error] }
        delivered := s.delivered ++ (if error = none then [c.compose.stamp] else []) }
  | .reload accounts =>
    some { s with
      main := s.main.reloadAccounts accounts
      promised := s.promised ++ s.main.commands.flatMap stored }

/-- The stamps of the rows of a database. -/
def rowStamps (db : Db) : List Stamp :=
  db.drafts.map (fun r => r.compose.stamp) ++ db.outbox.map fun r => r.compose.stamp

/-- The program has just started, over the tables an earlier run left: their rows are messages of
their own. -/
structure Started (s : System) : Prop where
  main : ∃ accounts db, s.main = { accounts := accounts, db := db }
  windows : s.windows = []
  requests : s.requests = []
  delivered : s.delivered = []
  discarded : s.discarded = []
  promised : s.promised = rowStamps s.main.db
  draft_ids : (s.main.db.drafts.map DraftRow.id).Nodup
  outbox_ids : (s.main.db.outbox.map OutboxRow.id).Nodup
  draft_lt : ∀ r ∈ s.main.db.drafts, r.id < s.main.db.nextDraft
  outbox_lt : ∀ r ∈ s.main.db.outbox, r.id < s.main.db.nextOutbox
  msgs : ((rowStamps s.main.db).map Stamp.msg).Nodup
  msg_lt : ∀ st ∈ rowStamps s.main.db, st.msg < s.nextMsg ∧ st.rev < s.clock

def machine : Machine System Action := ⟨Started, step⟩

/-! ## 4. What a step takes from a queue -/

theorem of_step_handleRequest {s s' : System} {refusal : Option String}
    (h : s.step (.handleRequest refusal) = some s') : ∃ id r rest, s.requests = (id, r) :: rest ∧
      s' = { s.goOn (s.main.composeRequest refusal id r) with
        requests := rest
        discarded := s.discarded ++ s.thrownAway id r } := by
  simp only [step] at h
  split at h
  · exact absurd h (by simp)
  · next id r rest hrequests => exact ⟨id, r, rest, hrequests, (Option.some.inj h).symm⟩

theorem of_step_handleEvent {s s' : System} {refusal : ComposeId → Option String} {opens : Bool}
    (h : s.step (.handleEvent refusal opens) = some s') : ∃ e rest, s.main.events = e :: rest ∧
      s' = { s.goOn (handleCache { s.main with events := rest } refusal opens e) with
        windows := s.openedBy opens e } := by
  simp only [step] at h
  split at h
  · exact absurd h (by simp)
  · next e rest hevents => exact ⟨e, rest, hevents, (Option.some.inj h).symm⟩

theorem of_step_handleOutcome {s s' : System} (h : s.step .handleOutcome = some s') :
    ∃ o rest, s.main.outcomes = o :: rest ∧
      s' = s.goOn ({ s.main with outcomes := rest }.smtpEvent o) := by
  simp only [step] at h
  split at h
  · exact absurd h (by simp)
  · next o rest houtcomes => exact ⟨o, rest, houtcomes, (Option.some.inj h).symm⟩

theorem of_step_mail {s s' : System} {error : Option String} (h : s.step (.mail error) = some s') :
    ∃ c rest, s.main.mails = c :: rest ∧ s' = { s with
      main := { s.main with
        mails := rest
        outcomes := s.main.outcomes ++ [outcomeOf c.id error] }
      delivered := s.delivered ++ (if error = none then [c.compose.stamp] else []) } := by
  simp only [step] at h
  split at h
  · exact absurd h (by simp)
  · next c rest hmails => exact ⟨c, rest, hmails, (Option.some.inj h).symm⟩

end System

end Esmail
