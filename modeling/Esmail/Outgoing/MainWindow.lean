/-
# The main window's side of composing

`composes.rs` and `queue/mod.rs`, with what they talk to: the cache actor behind its bounded
queue of commands (`cache.rs`, the actor in `db.rs`) and the mailer (`sending.rs`).  A function of
the main window here takes the state before it to the state after it; what it queues for others is
part of the state.

TWO things decide most of what can go wrong.  `command` drops a command when the queue is full, and
says nothing.  And an answer carries an id whose entry may be gone, or may have changed its mind.

`Entry.msg` is not in the program: which message the entry's window writes.
-/
import Esmail.Outgoing.Deliveries

namespace Esmail

structure Entry where
  /-- Whether the window is there. -/
  window : Bool
  draft : Option Row
  savesPending : Nat
  announceSave : Bool
  settled : Bool
  msg : Nat
  deriving DecidableEq, Repr

inductive DbCommand
  | saveDraft (id : Option Row) (composeId : ComposeId) (accountId : Option AccountId)
      (compose : ComposeState)
  | listDrafts
  | loadDraft (id : Row)
  | deleteDraft (id : Row)
  | enqueueOutbox (id : Option Row) (composeId : ComposeId) (accountId : AccountId)
      (compose : ComposeState)
  | dueOutbox
  | listOutbox
  | markOutboxSent (id : Row)
  | markOutboxFailed (id : Row) (error : String)
  | deleteOutbox (id : Row)
  /-- Any command that is not about drafts or the outbox. -/
  | other
  deriving DecidableEq, Repr

inductive CacheEvent
  | draftSaved (id : Row) (composeId : ComposeId)
  | outboxEnqueued (id : Row) (composeId : ComposeId)
  | outboxDue (items : List OutboxItem)
  | drafts
  | outbox (items : List OutboxItem)
  | draftLoaded (id : Row) (compose : ComposeState)
  | failed
  deriving DecidableEq, Repr

/-- `SmtpCommand::Send`. -/
structure SmtpCommand where
  id : ComposeId
  account : AccountId
  compose : ComposeState
  deriving DecidableEq, Repr

inductive SmtpEvent
  | sent (id : ComposeId)
  | error (id : ComposeId) (error : String)
  deriving DecidableEq, Repr

inductive QueueKind
  | drafts
  | outbox
  deriving DecidableEq, Repr

/-- The main window, the cache and the mailer. -/
structure MainWindow where
  accounts : List AccountId
  entries : AList (fun _ : ComposeId => Entry) := ∅
  deliveries : Deliveries := {}
  /-- Whether the Drafts and the Outbox window are open, and the rows the latter was made from. -/
  draftsOpen : Bool := false
  outboxOpen : Bool := false
  outboxItems : List OutboxItem := []
  /-- To the cache actor, and from it. -/
  commands : List DbCommand := []
  events : List CacheEvent := []
  db : Db := {}
  /-- To the mailer, and from it. -/
  mails : List SmtpCommand := []
  outcomes : List SmtpEvent := []
  /-- To the compose windows. -/
  posted : List (ComposeId × ComposeMsg) := []

namespace MainWindow

/-! ## 1. What the functions are made of -/

/-- `COMMAND_QUEUE` of the cache. -/
def commandQueue : Nat := 256

/-- `COMMAND_QUEUE` of the mailer. -/
def mailQueue : Nat := 16

/-- `Cache::command`: a full queue drops it. -/
def command (s : MainWindow) (c : DbCommand) : MainWindow :=
  if s.commands.length < commandQueue then { s with commands := s.commands ++ [c] } else s

def windowOpen (s : MainWindow) (id : ComposeId) : Bool :=
  match s.entries.lookup id with
  | some entry => entry.window
  | none => false

def tell (s : MainWindow) (id : ComposeId) (msg : ComposeMsg) : MainWindow :=
  if s.windowOpen id then { s with posted := s.posted ++ [(id, msg)] } else s

def forgetIfDone (s : MainWindow) (id : ComposeId) : MainWindow :=
  match s.entries.lookup id with
  | some entry =>
    if !entry.window && entry.savesPending == 0 then { s with entries := s.entries.erase id } else s
  | none => s

def accountIndex (s : MainWindow) (wanted : AccountId) : Option Nat :=
  s.accounts.findIdx? (· == wanted)

/-- `Core::send_mail`.  Whether the account has credentials, and the message can be built, is the
mailer's business: `refusal` says it has not, or cannot. -/
def sendMail (s : MainWindow) (refusal : Option String) (id : ComposeId) (account : Nat)
    (state : ComposeState) : Except String MainWindow :=
  match s.accounts[account]? with
  | none => .error "Choose an account to send from."
  | some config =>
    match refusal with
    | some error => .error error
    | none =>
      if s.mails.length < mailQueue then .ok { s with mails := s.mails ++ [⟨id, config, state⟩] }
      else .error "Could not queue the message for sending."

def refreshQueue (s : MainWindow) : QueueKind → MainWindow
  | .drafts => if s.draftsOpen then s.command .listDrafts else s
  | .outbox => if s.outboxOpen then s.command .listOutbox else s

/-! ## 2. Composing -/

/-- `start_compose`; `opens` says whether the window could be opened. -/
def startCompose (s : MainWindow) (state : ComposeState) (opens : Bool) : MainWindow :=
  let s' := { s with deliveries := s.deliveries.nextId.2 }
  if opens then
    let entry : Entry := ⟨true, none, 0, false, false, state.stamp.msg⟩
    { s' with entries := s.entries.insert s.deliveries.nextId.1 entry }
  else s'

def sendMessage (s : MainWindow) (refusal : Option String) (id : ComposeId) (state : ComposeState) :
    MainWindow :=
  match state.accountId.bind s.accountIndex with
  | none => s.tell id (.failed "Choose an account to send from.")
  | some account =>
    match s.sendMail refusal id account state with
    | .ok s' =>
      { s' with deliveries := s'.deliveries.begin id account state }.tell id .sending
    | .error error => s.tell id (.failed error)

def saveDraft (s : MainWindow) (id : ComposeId) (state : ComposeState) (explicit : Bool) :
    MainWindow :=
  match s.entries.lookup id with
  | none => s
  | some entry =>
    if !hasContent state then s
    else
      let state := { state with draftId := entry.draft }
      let entry := { entry with savesPending := entry.savesPending + 1, announceSave := explicit }
      { s with entries := s.entries.insert id entry }.command
        (.saveDraft state.draftId id state.accountId state)

def settle (s : MainWindow) (id : ComposeId) : MainWindow :=
  match s.entries.lookup id with
  | none => s
  | some entry =>
    let s' := { s with entries := s.entries.insert id { entry with settled := true, draft := none } }
    match entry.draft with
    | some draft => s'.command (.deleteDraft draft)
    | none => s'

def discardMessage (s : MainWindow) (id : ComposeId) : MainWindow :=
  let s' := { s with deliveries := (s.deliveries.forget id).2 }
  (match (s.deliveries.forget id).1 with
    | some row => s'.command (.deleteOutbox row)
    | none => s').settle id

/-- `Request::Closed`. -/
def windowClosed (s : MainWindow) (id : ComposeId) : MainWindow :=
  (match s.entries.lookup id with
    | some entry => { s with entries := s.entries.insert id { entry with window := false } }
    | none => s).forgetIfDone id

def composeRequest (s : MainWindow) (refusal : Option String) (id : ComposeId) :
    Request → MainWindow
  | .send state => s.sendMessage refusal id state
  | .saveDraft state explicit => s.saveDraft id state explicit
  | .discard => s.discardMessage id
  | .closed => s.windowClosed id

/-! ## 3. Answers -/

def draftSaved (s : MainWindow) (row : Row) (id : ComposeId) : MainWindow :=
  match s.entries.lookup id with
  | none => s
  | some entry =>
    let entry := { entry with savesPending := entry.savesPending - 1 }
    (if entry.settled then { s with entries := s.entries.insert id entry }.command (.deleteDraft row)
      else if entry.savesPending = 0 then
        let s' := { s with
          entries := s.entries.insert id { entry with draft := some row, announceSave := false } }
        if entry.announceSave then s'.tell id .draftSaved else s'
      else { s with entries := s.entries.insert id { entry with draft := some row } }).forgetIfDone id

def outboxEnqueued (s : MainWindow) (row : Row) (id : ComposeId) : MainWindow :=
  { s with deliveries := s.deliveries.outboxEnqueued id row }.refreshQueue .outbox

def outcomeFailed (s : MainWindow) (id : ComposeId) (error : String) : MainWindow :=
  let s' := { s with deliveries := (s.deliveries.failed id).2 }
  match (s.deliveries.failed id).1 with
  | none => s
  | some (.backoff row) =>
    ((s'.command (.markOutboxFailed row error)).tell id (.failed error)).refreshQueue .outbox
  | some (.enqueue account state) =>
    ((match s'.accounts[account]? with
      | some config => s'.command (.enqueueOutbox none id config state)
      | none => s').tell id (.failed error)).refreshQueue .outbox

def outcomeSent (s : MainWindow) (id : ComposeId) : MainWindow :=
  let s' := { s with deliveries := (s.deliveries.delivered id).2 }
  match (s.deliveries.delivered id).1 with
  | none => s
  | some delivered =>
    (((match delivered.outboxRow with
      | some row => s'.command (.markOutboxSent row)
      | none => s').settle id).tell id .sent).refreshQueue .outbox

/-- `smtp_events`, for one outcome. -/
def smtpEvent (s : MainWindow) : SmtpEvent → MainWindow
  | .sent id => s.outcomeSent id
  | .error id error => s.outcomeFailed id error

/-- A send that `retries` asked for. -/
def attempt (refusal : ComposeId → Option String) (s : MainWindow) (retry : Retry) : MainWindow :=
  match s.sendMail (refusal retry.id) retry.id retry.account retry.state with
  | .ok s' => s'
  | .error error => s.outcomeFailed retry.id error

def outboxDue (s : MainWindow) (refusal : ComposeId → Option String) (due : List OutboxItem) :
    MainWindow :=
  let r := s.deliveries.retries due s.windowOpen s.accountIndex
  let s' := { s with deliveries := r.2 }
  let s' := r.1.2.foldl (fun s item =>
    s.command (.markOutboxFailed item.id "This account is no longer configured.")) s'
  r.1.1.foldl (attempt refusal) s'

/-! ## 4. The Drafts and the Outbox window -/

def draftLoaded (s : MainWindow) (id : Row) (state : ComposeState) (opens : Bool) : MainWindow :=
  { s.startCompose { state with draftId := some id } opens with draftsOpen := false }

def editQueued (s : MainWindow) (item : OutboxItem) (opens : Bool) : MainWindow :=
  let s' := { s with outboxItems := s.outboxItems.eraseP fun i => i.id = item.id }
  ((s'.command (.deleteOutbox item.id)).startCompose
    (item.compose.withAccount (some item.accountId)) opens).refreshQueue .outbox

/-- The row of the list that Edit or Retry is about. -/
def listedItem (s : MainWindow) (id : Row) : Option OutboxItem :=
  s.outboxItems.find? fun item => item.id = id

def deleteRow (s : MainWindow) (kind : QueueKind) (id : Row) : MainWindow :=
  match kind with
  | .drafts => (s.command (.deleteDraft id)).refreshQueue .drafts
  | .outbox => (s.command (.deleteOutbox id)).refreshQueue .outbox

def showQueue (s : MainWindow) (kind : QueueKind) : MainWindow :=
  match kind with
  | .drafts => { s with draftsOpen := true }.refreshQueue .drafts
  | .outbox => { s with outboxOpen := true }.refreshQueue .outbox

def closeQueue (s : MainWindow) (kind : QueueKind) : MainWindow :=
  match kind with
  | .drafts => { s with draftsOpen := false }
  | .outbox => { s with outboxOpen := false }

/-! ## 5. The cache actor -/

/-- What the actor answers to a command, and the tables then. -/
def run (db : Db) : DbCommand → List CacheEvent × Db
  | .saveDraft id composeId accountId compose =>
    let r := db.saveDraft id accountId compose
    ([.draftSaved r.1 composeId], r.2)
  | .listDrafts => ([.drafts], db)
  | .loadDraft id =>
    match db.loadDraft id with
    | some compose => ([.draftLoaded id compose], db)
    | none => ([.failed], db)
  | .deleteDraft id => ([], db.deleteDraft id)
  | .enqueueOutbox id composeId accountId compose =>
    let r := db.enqueueOutbox id accountId compose
    ([.outboxEnqueued r.1 composeId], r.2)
  | .dueOutbox => ([.outboxDue db.dueOutbox], db)
  | .listOutbox => ([.outbox db.listOutbox], db)
  | .markOutboxSent id => ([], db.deleteOutbox id)
  | .markOutboxFailed id error =>
    if db.outbox.any fun r => r.id = id then ([], db.markOutboxFailed id error) else ([.failed], db)
  | .deleteOutbox id => ([], db.deleteOutbox id)
  | .other => ([], db)

/-- The actor takes the next command. -/
def execute (s : MainWindow) : Option MainWindow :=
  match s.commands with
  | [] => none
  | c :: rest =>
    some { s with
      commands := rest
      events := s.events ++ (run s.db c).1
      db := (run s.db c).2 }

/-- `reload_accounts`.  The old core goes when the new one is there: its actor first runs the
commands it still has, and what it answers, and everything with the mailer, goes with it. -/
def reloadAccounts (s : MainWindow) (accounts : List AccountId) : MainWindow :=
  { s with
    accounts := accounts
    commands := []
    events := []
    db := s.commands.foldl (fun db c => (run db c).2) s.db
    mails := []
    outcomes := [] }

end MainWindow

end Esmail
