/-
# The actor of an account: an answer to every command, from one account at a time

`ImapActor::run` of `imap.rs`, with `ensure_connected` and `connect`.  The commands that need the
account's own session share one shape, `onSession`; the two polls share another, `onLive`; and the three
that are handed to the body worker a third, `handOver`.

A second `Connect` may name another account.  When it succeeds it brings a new session, new credentials
and a new worker, and the old worker ends once it has served its queue; when it fails everything stays.
So a session, a reconnect and a command handed over are always of the account that signed in last
(`one_account_at_a_time`), and every command has its own answer, or goes to the worker, which has one
for it (`commands_answered`).

What the server and the network answer is a function of a state that every question may change, as for
the worker.
-/
import Esmail.App.Core
import Esmail.Fetching.Worker
import Esmail.Library.Ledger
import Esmail.Mailbox.Server

namespace Esmail.Fetching.Acting

open App (Auth MailboxInfo)

/-! ## 1. Commands and events -/

/-- `Credentials`. -/
structure Credentials where
  host : String
  port : Nat
  username : String
  auth : Auth
  deriving DecidableEq

/-- `ImapCommand`. -/
inductive ImapCommand
  | connect (credentials : Credentials)
  | fetchMailboxes
  | fetchHeaders (mailbox : String) (page reqId : Nat)
  | fetchBody (mailbox : String) (uid reqId : Nat)
  | bulkDownload (mailbox : String)
  | exportMessage (mailbox : String) (uid : Nat) (path : String)
  | pollMailbox (mailbox : String)
  | fetchNewHeaders (mailbox : String) (firstUid : Nat)
  | fetchHeadersFrom (mailbox : String) (firstUid : Nat)
  | append (mailbox : String) (raw : List UInt8)
  | storeFlags (mailbox : String) (uid : Nat) (add remove : List String) (reqId : Nat)
  | moveMessage (mailbox : String) (uid : Nat) (dest : String) (reqId : Nat)
  | fetchUnreadCounts (mailboxes : List String)

/-- `ImapEvent`, as far as the actor sends it itself. -/
inductive ImapEvent
  | connected
  | disconnected
  | error (text : String)
  | mailboxes (mailboxes : List MailboxInfo)
  | headers (mailbox : String) (headers : List MailHeader) (page totalPages reqId : Nat)
      (state : MailboxState)
  | bodyFailed (uid reqId : Nat) (error : String)
  /-- `Progress`, of an append, with nothing known of how far it is. -/
  | appending
  | exportFailed (error : String)
  | mailboxPolled (mailbox : String) (state : MailboxState)
  | newHeaders (mailbox : String) (headers : List MailHeader)
  | headersFrom (mailbox : String) (headers : List MailHeader)
  | appended (mailbox : String)
  | appendFailed (mailbox error : String)
  | pollFailed (error : String)
  | flagsUpdated (mailbox : String) (uid : Nat) (flags : List String) (reqId : Nat)
  | flagsUpdateFailed (mailbox : String) (uid : Nat) (error : String) (reqId : Nat)
  | moved (mailbox : String) (uid : Nat) (dest : String) (reqId : Nat)
  | moveFailed (mailbox : String) (uid : Nat) (error : String) (reqId : Nat)
  | unreadCounts (counts : Table String Nat)

/-- The server and the network, as the actor's own session sees them. -/
structure Outside (σ Session : Type) where
  connectSession : Credentials → σ → Except ConnectError Session × σ
  fetchMailboxes : Session → σ → Except Error (List MailboxInfo) × σ
  fetchHeaders : Session → String → Nat → σ →
    Except Error (List MailHeader × Nat × MailboxState) × σ
  /-- The UIDVALIDITY and the UIDNEXT of an `EXAMINE`, where the server says them. -/
  examine : Session → String → σ → Except Error (Option Nat × Option Nat) × σ
  fetchNewHeaders : Session → String → Nat → σ → Except Error (List MailHeader) × σ
  append : Session → String → List UInt8 → σ → Except Error Unit × σ
  storeFlags : Session → String → Nat → List String → List String → σ →
    Except Error (List String) × σ
  moveMessage : Session → String → Nat → String → σ → Except Error Unit × σ
  /-- The UNSEEN of a `STATUS`. -/
  status : Session → String → σ → Except Error (Option Nat) × σ

/-- What the actor does.  The first three, and which account a session is of, are not in the program. -/
inductive Entry
  /-- A `Connect` is tried. -/
  | connecting (credentials : Credentials)
  /-- A `Connect` has succeeded. -/
  | signedIn (credentials : Credentials)
  /-- A reconnect is tried. -/
  | reconnecting (credentials : Credentials)
  /-- A command is run on a session. -/
  | used (credentials : Credentials)
  /-- A command is handed to a body worker. -/
  | handed (worker : Nat) (cmd : WorkerCommand)
  | sent (event : ImapEvent)

/-- A session, and with which credentials it was opened. -/
structure Opened (Session : Type) where
  session : Session
  credentials : Credentials

/-- A body worker: its credentials, and what it was sent. -/
structure BodyWorker where
  credentials : Credentials
  queue : List WorkerCommand := []

/-- `ImapActor`, with the workers it has spawned; its `worker_tx` is the last one's queue. -/
structure ImapActor (σ Session : Type) where
  outside : σ
  session : Option (Opened Session) := none
  credentials : Option Credentials := none
  workers : List BodyWorker := []
  log : List Entry := []

section

variable {σ Session α : Type}

namespace ImapActor

def note (s : ImapActor σ Session) (entry : Entry) : ImapActor σ Session :=
  { s with log := s.log ++ [entry] }

def send (s : ImapActor σ Session) (event : ImapEvent) : ImapActor σ Session := s.note (.sent event)

/-- Adding a command to the queue of the last worker. -/
def enqueue (cmd : WorkerCommand) : List BodyWorker → List BodyWorker
  | [] => []
  | [worker] => [{ worker with queue := worker.queue ++ [cmd] }]
  | worker :: workers => worker :: enqueue cmd workers

/-! ## 2. The actor, as the source has it -/

variable (outside : Outside σ Session)

/-- `ImapActor::connect`. -/
def connect (credentials : Credentials) (s : ImapActor σ Session) :
    Except ConnectError (Opened Session) × ImapActor σ Session :=
  match outside.connectSession credentials s.outside with
  | (.ok session, w) =>
    (.ok ⟨session, credentials⟩, { s with outside := w, session := some ⟨session, credentials⟩ })
  | (.error e, w) => (.error e, { s with outside := w })

/-- The loop of `ensure_connected`, with the attempts that are left. -/
def reconnect (credentials : Credentials) :
    Nat → Option Error → ImapActor σ Session → Except Error (Opened Session) × ImapActor σ Session
  | 0, lastErr, s => (.error (lastErr.getD ⟨"reconnect failed", []⟩), s)
  | left + 1, _, s =>
    match connect outside credentials (s.note (.reconnecting credentials)) with
    | (.ok opened, s) => (.ok opened, s.send .connected)
    | (.error e, s) =>
      if e.permanent then (.error e.error, s) else reconnect credentials left (some e.error) s

/-- `ensure_connected`, and the session that it leaves. -/
def ensureConnected (s : ImapActor σ Session) :
    Except Error (Opened Session) × ImapActor σ Session :=
  match s.session with
  | some opened => (.ok opened, s)
  | none =>
    match s.credentials with
    | none => (.error ⟨"not connected yet", []⟩, s)
    | some credentials =>
      reconnect outside credentials maxReconnectAttempts none (s.send .disconnected)

/-- A request on a session: the reply is passed on, and a failure drops the session. -/
def ask (opened : Opened Session) (run : Session → σ → Except Error α × σ) (reply : α → ImapEvent)
    (failed : Error → ImapEvent) (s : ImapActor σ Session) : ImapActor σ Session :=
  match run opened.session s.outside with
  | (.ok a, w) => ({ s with outside := w }.note (.used opened.credentials)).send (reply a)
  | (.error e, w) =>
    ({ s with outside := w, session := none }.note (.used opened.credentials)).send (failed e)

/-- An arm of `run` that begins with `ensure_connected`; `first` is what it reports before it asks. -/
def onSession (run : Session → σ → Except Error α × σ) (reply : α → ImapEvent)
    (failed : Error → ImapEvent) (first : Option ImapEvent) (s : ImapActor σ Session) :
    ImapActor σ Session :=
  match ensureConnected outside s with
  | (.error e, s) => s.send (failed e)
  | (.ok opened, s) => (first.elim s s.send).ask opened run reply failed

/-- An arm of `run` that does nothing without a session. -/
def onLive (run : Session → σ → Except Error α × σ) (reply : α → ImapEvent) (s : ImapActor σ Session) :
    ImapActor σ Session :=
  match s.session with
  | none => s
  | some opened => s.ask opened run reply fun e => .pollFailed e.message

/-- An arm of `run` that hands its command to the body worker. -/
def handOver (cmd : WorkerCommand) (missing : ImapEvent) (s : ImapActor σ Session) :
    ImapActor σ Session :=
  match s.workers with
  | [] => s.send missing
  | workers =>
    { s with workers := enqueue cmd workers }.note (.handed (workers.length - 1) cmd)

/-- `fetch_unread_counts`. -/
def fetchUnreadCounts (session : Session) :
    List String → Table String Nat → σ → Table String Nat × σ
  | [], counts, w => (counts, w)
  | mailbox :: mailboxes, counts, w =>
    match outside.status session mailbox w with
    | (.ok unseen, w) => fetchUnreadCounts session mailboxes (counts.upsert mailbox (unseen.getD 0)) w
    | (.error _, w) => fetchUnreadCounts session mailboxes counts w

/-- One turn of the loop of `run`. -/
def serve (cmd : ImapCommand) (s : ImapActor σ Session) : ImapActor σ Session :=
  match cmd with
  | .connect credentials =>
    match connect outside credentials (s.note (.connecting credentials)) with
    | (.ok _, s) =>
      ({ s with
        credentials := some credentials
        workers := s.workers ++ [BodyWorker.mk credentials []] }.note (.signedIn credentials)).send .connected
    | (.error e, s) => s.send (.error e.error.message)
  | .fetchMailboxes =>
    s.onSession outside outside.fetchMailboxes .mailboxes (fun e => .error e.message) none
  | .fetchHeaders mailbox page reqId =>
    s.onSession outside (fun session => outside.fetchHeaders session mailbox page)
      (fun r => .headers mailbox r.1 page r.2.1 reqId r.2.2) (fun e => .error e.message) none
  | .fetchBody mailbox uid reqId =>
    s.handOver (.fetchBody mailbox uid reqId) (.bodyFailed uid reqId "not connected")
  | .bulkDownload mailbox => s.handOver (.bulkDownload mailbox) (.error "not connected")
  | .exportMessage mailbox uid path =>
    s.handOver (.exportMessage mailbox uid path) (.exportFailed "not connected")
  | .pollMailbox mailbox =>
    s.onLive (fun session => outside.examine session mailbox)
      fun r => .mailboxPolled mailbox ⟨r.1.getD 0, r.2.getD 0⟩
  | .fetchNewHeaders mailbox firstUid =>
    s.onLive (fun session => outside.fetchNewHeaders session mailbox firstUid)
      fun headers => .newHeaders mailbox headers
  | .fetchHeadersFrom mailbox firstUid =>
    s.onSession outside (fun session => outside.fetchNewHeaders session mailbox firstUid)
      (.headersFrom mailbox) (fun e => .error e.message) none
  | .append mailbox raw =>
    s.onSession outside (fun session => outside.append session mailbox raw)
      (fun _ => .appended mailbox) (fun e => .appendFailed mailbox e.message) (some .appending)
  | .storeFlags mailbox uid add remove reqId =>
    s.onSession outside (fun session => outside.storeFlags session mailbox uid add remove)
      (fun flags => .flagsUpdated mailbox uid flags reqId)
      (fun e => .flagsUpdateFailed mailbox uid e.message reqId) none
  | .moveMessage mailbox uid dest reqId =>
    s.onSession outside (fun session => outside.moveMessage session mailbox uid dest)
      (fun _ => .moved mailbox uid dest reqId) (fun e => .moveFailed mailbox uid e.message reqId) none
  | .fetchUnreadCounts mailboxes =>
    match ensureConnected outside s with
    | (.error _, s) => s
    | (.ok opened, s) =>
      let r := fetchUnreadCounts outside opened.session mailboxes Table.empty s.outside
      ({ s with outside := r.2 }.note (.used opened.credentials)).send (.unreadCounts r.1)

/-- `run`: the commands in the order of the queue. -/
def run (cmds : List ImapCommand) (s : ImapActor σ Session) : ImapActor σ Session :=
  cmds.foldl (fun s cmd => serve outside cmd s) s

end ImapActor

/-! ## 3. What a command is answered with -/

/-- The terminal events of a command: its replies and its failures, which name what it asked for
wherever the event has a place for it. -/
inductive Answers : ImapCommand → ImapEvent → Prop
  | connected (credentials) : Answers (.connect credentials) .connected
  | notConnected (credentials text) : Answers (.connect credentials) (.error text)
  | mailboxes (mailboxes) : Answers .fetchMailboxes (.mailboxes mailboxes)
  | noMailboxes (text) : Answers .fetchMailboxes (.error text)
  | headers (mailbox headers page totalPages reqId state) :
    Answers (.fetchHeaders mailbox page reqId) (.headers mailbox headers page totalPages reqId state)
  | noHeaders (mailbox page reqId text) : Answers (.fetchHeaders mailbox page reqId) (.error text)
  | noBody (mailbox uid reqId error) :
    Answers (.fetchBody mailbox uid reqId) (.bodyFailed uid reqId error)
  | noDownload (mailbox text) : Answers (.bulkDownload mailbox) (.error text)
  | noExport (mailbox uid path error) :
    Answers (.exportMessage mailbox uid path) (.exportFailed error)
  | polled (mailbox state) : Answers (.pollMailbox mailbox) (.mailboxPolled mailbox state)
  | notPolled (mailbox error) : Answers (.pollMailbox mailbox) (.pollFailed error)
  | newHeaders (mailbox firstUid headers) :
    Answers (.fetchNewHeaders mailbox firstUid) (.newHeaders mailbox headers)
  | noNewHeaders (mailbox firstUid error) :
    Answers (.fetchNewHeaders mailbox firstUid) (.pollFailed error)
  | headersFrom (mailbox firstUid headers) :
    Answers (.fetchHeadersFrom mailbox firstUid) (.headersFrom mailbox headers)
  | noHeadersFrom (mailbox firstUid text) :
    Answers (.fetchHeadersFrom mailbox firstUid) (.error text)
  | appended (mailbox raw) : Answers (.append mailbox raw) (.appended mailbox)
  | notAppended (mailbox raw error) : Answers (.append mailbox raw) (.appendFailed mailbox error)
  | flagged (mailbox uid add remove flags reqId) :
    Answers (.storeFlags mailbox uid add remove reqId) (.flagsUpdated mailbox uid flags reqId)
  | notFlagged (mailbox uid add remove error reqId) :
    Answers (.storeFlags mailbox uid add remove reqId) (.flagsUpdateFailed mailbox uid error reqId)
  | moved (mailbox uid dest reqId) :
    Answers (.moveMessage mailbox uid dest reqId) (.moved mailbox uid dest reqId)
  | notMoved (mailbox uid dest error reqId) :
    Answers (.moveMessage mailbox uid dest reqId) (.moveFailed mailbox uid error reqId)
  | unread (mailboxes counts) : Answers (.fetchUnreadCounts mailboxes) (.unreadCounts counts)

/-- What a command is handed to the body worker as. -/
def ImapCommand.forWorker : ImapCommand → Option WorkerCommand
  | .fetchBody mailbox uid reqId => some (.fetchBody mailbox uid reqId)
  | .bulkDownload mailbox => some (.bulkDownload mailbox)
  | .exportMessage mailbox uid path => some (.exportMessage mailbox uid path)
  | _ => none

/-- A command nobody waits for: a poll, and the count of the unread. -/
def ImapCommand.background : ImapCommand → Bool
  | .pollMailbox _ | .fetchNewHeaders _ _ | .fetchUnreadCounts _ => true
  | _ => false

/-- The events that a part of the log sends. -/
def Entry.event : Entry → Option ImapEvent
  | .sent event => some event
  | _ => none

def sentOf (segment : List Entry) : List ImapEvent := segment.filterMap Entry.event

/-- What may be sent before a command's own answer: that the connection was lost, and that it is back;
and that an append has begun. -/
inductive Passing : ImapCommand → List ImapEvent → Prop
  | none (cmd : ImapCommand) : Passing cmd []
  | lost (cmd : ImapCommand) : Passing cmd [.disconnected]
  | back (cmd : ImapCommand) : Passing cmd [.disconnected, .connected]
  | append (mailbox : String) (raw : List UInt8) : Passing (.append mailbox raw) [.appending]
  | backAppend (mailbox : String) (raw : List UInt8) :
    Passing (.append mailbox raw) [.disconnected, .connected, .appending]

/-- The part of the log that serves one command.  A command for the worker is handed to it, or refused;
every other one has one answer, behind what passes, except that one nobody waits for may have none. -/
def Served (cmd : ImapCommand) (segment : List Entry) : Prop :=
  match cmd.forWorker with
  | some forWorker => (∃ worker, segment = [.handed worker forWorker]) ∨
      ∃ event, Answers cmd event ∧ segment = [.sent event]
  | none => ∃ passing, Passing cmd passing ∧
      ((∃ event, Answers cmd event ∧ sentOf segment = passing ++ [event]) ∨
        cmd.background = true ∧ sentOf segment = passing)

@[simp] theorem sentOf_append (first second : List Entry) :
    sentOf (first ++ second) = sentOf first ++ sentOf second := List.filterMap_append ..

@[simp] theorem sentOf_sent (event : ImapEvent) : sentOf [.sent event] = [event] := rfl

@[simp] theorem sentOf_used (credentials : Credentials) : sentOf [.used credentials] = [] := rfl

@[simp] theorem sentOf_reconnecting (credentials : Credentials) :
    sentOf [.reconnecting credentials] = [] := rfl

namespace ImapActor

variable (outside : Outside σ Session)

@[simp] theorem note_log (s : ImapActor σ Session) (entry : Entry) :
    (s.note entry).log = s.log ++ [entry] := rfl

@[simp] theorem note_credentials (s : ImapActor σ Session) (entry : Entry) :
    (s.note entry).credentials = s.credentials := rfl

@[simp] theorem note_workers (s : ImapActor σ Session) (entry : Entry) :
    (s.note entry).workers = s.workers := rfl

@[simp] theorem send_log (s : ImapActor σ Session) (event : ImapEvent) :
    (s.send event).log = s.log ++ [.sent event] := rfl

theorem connect_log (credentials : Credentials) (s : ImapActor σ Session) :
    (connect outside credentials s).2.log = s.log := by
  unfold connect
  rcases outside.connectSession credentials s.outside with ⟨_ | _, w⟩ <;> rfl

/-- The attempts of a reconnect send nothing, until one succeeds. -/
theorem reconnect_log (credentials : Credentials) :
    ∀ (left : Nat) (lastErr : Option Error) (s : ImapActor σ Session),
      ∃ attempts, sentOf attempts = [] ∧
        ((∃ opened, (reconnect outside credentials left lastErr s).1 = .ok opened ∧
            (reconnect outside credentials left lastErr s).2.log =
              s.log ++ attempts ++ [.sent .connected]) ∨
          ∃ e, (reconnect outside credentials left lastErr s).1 = .error e ∧
            (reconnect outside credentials left lastErr s).2.log = s.log ++ attempts)
  | 0, lastErr, s => ⟨[], rfl, .inr ⟨_, rfl, by simp [reconnect]⟩⟩
  | left + 1, lastErr, s => by
    have hlog := connect_log outside credentials (s.note (.reconnecting credentials))
    rw [reconnect]
    generalize connect outside credentials (s.note (.reconnecting credentials)) = r at hlog ⊢
    rcases r with ⟨e | opened, s'⟩
    · simp only at hlog ⊢
      by_cases hpermanent : e.permanent = true
      · rw [if_pos hpermanent]
        exact ⟨[.reconnecting credentials], rfl, .inr ⟨_, rfl, hlog⟩⟩
      · rw [if_neg hpermanent]
        obtain ⟨attempts, hsilent, h⟩ := reconnect_log credentials left (some e.error) s'
        refine ⟨.reconnecting credentials :: attempts, hsilent, ?_⟩
        simpa [hlog] using h
    · replace hlog : s'.log = s.log ++ [.reconnecting credentials] := hlog
      exact ⟨[.reconnecting credentials], rfl, .inl ⟨opened, rfl, by simp [hlog]⟩⟩

/-- What `ensure_connected` sends. -/
theorem ensureConnected_log (s : ImapActor σ Session) :
    ∃ passing, (ensureConnected outside s).2.log = s.log ++ passing ∧
      ((∃ opened, (ensureConnected outside s).1 = .ok opened ∧
          (sentOf passing = [] ∨ sentOf passing = [.disconnected, .connected])) ∨
        ∃ e, (ensureConnected outside s).1 = .error e ∧
          (sentOf passing = [] ∨ sentOf passing = [.disconnected])) := by
  unfold ensureConnected
  split
  · exact ⟨[], by simp, .inl ⟨_, rfl, .inl rfl⟩⟩
  · split
    · exact ⟨[], by simp, .inr ⟨_, rfl, .inl rfl⟩⟩
    · rename_i credentials _
      obtain ⟨attempts, hsilent, ⟨opened, hok, hlog⟩ | ⟨e, herr, hlog⟩⟩ :=
        reconnect_log outside credentials maxReconnectAttempts none (s.send .disconnected)
      · refine ⟨.sent .disconnected :: (attempts ++ [.sent .connected]), by simp [hlog],
          .inl ⟨opened, hok, .inr ?_⟩⟩
        rw [← List.singleton_append, sentOf_append, sentOf_append, hsilent]
        rfl
      · refine ⟨.sent .disconnected :: attempts, by simp [hlog], .inr ⟨e, herr, .inr ?_⟩⟩
        rw [← List.singleton_append, sentOf_append, hsilent]
        rfl

theorem ask_log (opened : Opened Session) (run : Session → σ → Except Error α × σ)
    (reply : α → ImapEvent) (failed : Error → ImapEvent) (s : ImapActor σ Session) :
    ∃ event, ((∃ a, event = reply a) ∨ ∃ e, event = failed e) ∧
      (s.ask opened run reply failed).log = s.log ++ [.used opened.credentials, .sent event] := by
  unfold ask
  rcases run opened.session s.outside with ⟨e | a, w⟩
  · exact ⟨failed e, .inr ⟨e, rfl⟩, by simp⟩
  · exact ⟨reply a, .inl ⟨a, rfl⟩, by simp⟩

/-- An arm that begins with `ensure_connected` serves its command. -/
theorem onSession_served {cmd : ImapCommand} (hcmd : cmd.forWorker = none)
    {run : Session → σ → Except Error α × σ} {reply : α → ImapEvent} {failed : Error → ImapEvent}
    {first : Option ImapEvent} (hreply : ∀ a, Answers cmd (reply a))
    (hfailed : ∀ e, Answers cmd (failed e))
    (hfirst : first = none ∨ first = some .appending ∧ ∃ mailbox raw, cmd = .append mailbox raw)
    (s : ImapActor σ Session) :
    ∃ segment, (s.onSession outside run reply failed first).log = s.log ++ segment ∧
      Served cmd segment := by
  obtain ⟨passing, hlog, ⟨opened, hok, hsent⟩ | ⟨e, herr, hsent⟩⟩ := ensureConnected_log outside s
  · unfold onSession
    generalize ensureConnected outside s = r at hlog hok ⊢
    obtain ⟨_, s'⟩ := r
    cases hok
    simp only at hlog ⊢
    obtain ⟨event, hevent, hasked⟩ := ask_log opened run reply failed (first.elim s' s'.send)
    have hanswer : Answers cmd event := by
      rcases hevent with ⟨a, rfl⟩ | ⟨e, rfl⟩
      · exact hreply a
      · exact hfailed e
    rcases hfirst with rfl | ⟨rfl, mailbox, raw, rfl⟩
    · refine ⟨passing ++ [.used opened.credentials, .sent event], by simpa [hlog] using hasked, ?_⟩
      simp only [Served, hcmd]
      rcases hsent with hsent | hsent
      · exact ⟨[], .none cmd, .inl ⟨event, hanswer, by rw [sentOf_append, hsent]; rfl⟩⟩
      · exact ⟨_, .back cmd, .inl ⟨event, hanswer, by rw [sentOf_append, hsent]; rfl⟩⟩
    · refine ⟨passing ++ [.sent .appending, .used opened.credentials, .sent event],
        by simpa [hlog] using hasked, ?_⟩
      simp only [Served, hcmd]
      rcases hsent with hsent | hsent
      · exact ⟨_, .append mailbox raw, .inl ⟨event, hanswer, by rw [sentOf_append, hsent]; rfl⟩⟩
      · exact ⟨_, .backAppend mailbox raw, .inl ⟨event, hanswer, by rw [sentOf_append, hsent]; rfl⟩⟩
  · unfold onSession
    generalize ensureConnected outside s = r at hlog herr ⊢
    obtain ⟨_, s'⟩ := r
    cases herr
    replace hlog : s'.log = s.log ++ passing := hlog
    refine ⟨passing ++ [.sent (failed e)], by simp [hlog], ?_⟩
    simp only [Served, hcmd]
    rcases hsent with hsent | hsent
    · exact ⟨[], .none cmd, .inl ⟨_, hfailed e, by rw [sentOf_append, hsent]; rfl⟩⟩
    · exact ⟨_, .lost cmd, .inl ⟨_, hfailed e, by rw [sentOf_append, hsent]; rfl⟩⟩

/-- A poll serves its command, or passes it over. -/
theorem onLive_served {cmd : ImapCommand} (hcmd : cmd.forWorker = none)
    (hbackground : cmd.background = true) {run : Session → σ → Except Error α × σ}
    {reply : α → ImapEvent} (hreply : ∀ a, Answers cmd (reply a))
    (hfailed : ∀ error, Answers cmd (.pollFailed error)) (s : ImapActor σ Session) :
    ∃ segment, (s.onLive run reply).log = s.log ++ segment ∧ Served cmd segment := by
  unfold onLive
  simp only [Served, hcmd]
  split
  · exact ⟨[], by simp, [], .none cmd, .inr ⟨hbackground, rfl⟩⟩
  · rename_i opened _
    obtain ⟨event, hevent, hasked⟩ := ask_log opened run reply (fun e => .pollFailed e.message) s
    refine ⟨_, hasked, [], .none cmd, .inl ⟨event, ?_, rfl⟩⟩
    rcases hevent with ⟨a, rfl⟩ | ⟨e, rfl⟩
    · exact hreply a
    · exact hfailed e.message

/-- A command for the worker is handed over, or refused. -/
theorem handOver_served {cmd : ImapCommand} {forWorker : WorkerCommand} {missing : ImapEvent}
    (hcmd : cmd.forWorker = some forWorker) (hmissing : Answers cmd missing) (s : ImapActor σ Session) :
    ∃ segment, (s.handOver forWorker missing).log = s.log ++ segment ∧ Served cmd segment := by
  unfold handOver
  simp only [Served, hcmd]
  split
  · exact ⟨_, rfl, .inr ⟨_, hmissing, rfl⟩⟩
  · exact ⟨_, rfl, .inl ⟨_, rfl⟩⟩

/-- One turn of the loop serves its command. -/
theorem serve_served (cmd : ImapCommand) (s : ImapActor σ Session) :
    ∃ segment, (serve outside cmd s).log = s.log ++ segment ∧ Served cmd segment := by
  cases cmd with
  | connect credentials =>
    have hlog := connect_log outside credentials (s.note (.connecting credentials))
    simp only [serve]
    generalize connect outside credentials (s.note (.connecting credentials)) = r at hlog ⊢
    obtain ⟨r, s'⟩ := r
    replace hlog : s'.log = s.log ++ [.connecting credentials] := hlog
    rcases r with e | opened
    · exact ⟨[.connecting credentials, .sent (.error e.error.message)], by simp [hlog],
        [], .none _, .inl ⟨_, .notConnected _ _, rfl⟩⟩
    · exact ⟨[.connecting credentials, .signedIn credentials, .sent .connected], by simp [hlog],
        [], .none _, .inl ⟨_, .connected _, rfl⟩⟩
  | fetchMailboxes =>
    exact onSession_served outside rfl .mailboxes (fun _ => .noMailboxes _) (.inl rfl) s
  | fetchHeaders mailbox page reqId =>
    exact onSession_served outside rfl (fun _ => .headers mailbox _ page _ reqId _)
      (fun _ => .noHeaders _ _ _ _) (.inl rfl) s
  | fetchBody mailbox uid reqId => exact handOver_served rfl (.noBody mailbox uid reqId _) s
  | bulkDownload mailbox => exact handOver_served rfl (.noDownload mailbox _) s
  | exportMessage mailbox uid path => exact handOver_served rfl (.noExport mailbox uid path _) s
  | pollMailbox mailbox =>
    exact onLive_served rfl rfl (fun _ => .polled mailbox _) (.notPolled mailbox) s
  | fetchNewHeaders mailbox firstUid =>
    exact onLive_served rfl rfl (.newHeaders mailbox firstUid) (.noNewHeaders mailbox firstUid) s
  | fetchHeadersFrom mailbox firstUid =>
    exact onSession_served outside rfl (.headersFrom mailbox firstUid)
      (fun _ => .noHeadersFrom _ _ _) (.inl rfl) s
  | append mailbox raw =>
    exact onSession_served outside rfl (fun _ => .appended mailbox raw)
      (fun _ => .notAppended mailbox raw _) (.inr ⟨rfl, _, _, rfl⟩) s
  | storeFlags mailbox uid add remove reqId =>
    exact onSession_served outside rfl (fun _ => .flagged mailbox uid add remove _ reqId)
      (fun _ => .notFlagged mailbox uid add remove _ reqId) (.inl rfl) s
  | moveMessage mailbox uid dest reqId =>
    exact onSession_served outside rfl (fun _ => .moved mailbox uid dest reqId)
      (fun _ => .notMoved mailbox uid dest _ reqId) (.inl rfl) s
  | fetchUnreadCounts mailboxes =>
    obtain ⟨passing, hlog, ⟨opened, hok, hsent⟩ | ⟨e, herr, hsent⟩⟩ := ensureConnected_log outside s
    · simp only [serve]
      generalize ensureConnected outside s = r at hlog hok ⊢
      obtain ⟨_, s'⟩ := r
      cases hok
      replace hlog : s'.log = s.log ++ passing := hlog
      refine ⟨passing ++ [.used opened.credentials, .sent (.unreadCounts
        (fetchUnreadCounts outside opened.session mailboxes Table.empty s'.outside).1)],
        by simp [hlog], ?_⟩
      rcases hsent with hsent | hsent
      · exact ⟨[], .none _, .inl ⟨_, .unread _ _, by rw [sentOf_append, hsent]; rfl⟩⟩
      · exact ⟨_, .back _, .inl ⟨_, .unread _ _, by rw [sentOf_append, hsent]; rfl⟩⟩
    · simp only [serve]
      generalize ensureConnected outside s = r at hlog herr ⊢
      obtain ⟨_, s'⟩ := r
      cases herr
      refine ⟨passing, hlog, ?_⟩
      rcases hsent with hsent | hsent
      · exact ⟨[], .none _, .inr ⟨rfl, hsent⟩⟩
      · exact ⟨_, .lost _, .inr ⟨rfl, hsent⟩⟩

theorem run_served (cmds : List ImapCommand) (s : ImapActor σ Session) :
    ∃ segments, (run outside cmds s).log = s.log ++ segments.flatten ∧
      List.Forall₂ Served cmds segments := by
  induction cmds generalizing s with
  | nil => exact ⟨[], by simp [run], .nil⟩
  | cons cmd cmds ih =>
    obtain ⟨segment, hlog, hsegment⟩ := serve_served outside cmd s
    obtain ⟨segments, hlog', hsegments⟩ := ih (serve outside cmd s)
    refine ⟨segment :: segments, ?_, .cons hsegment hsegments⟩
    rw [List.flatten_cons, ← List.append_assoc, ← hlog]
    exact hlog'

end ImapActor

/-! ## 4. One account at a time -/

/-- The credentials of a `Connect` that has succeeded. -/
def Entry.signsIn : Entry → Option Credentials
  | .signedIn credentials => some credentials
  | _ => none

/-- The command that a worker was handed. -/
def Entry.handedTo (worker : Nat) : Entry → Option WorkerCommand
  | .handed worker' cmd => if worker' = worker then some cmd else none
  | _ => none

/-- The sign-ins of a log, in order. -/
def signInsOf (log : List Entry) : List Credentials := log.filterMap Entry.signsIn

/-- What a worker was handed, in order. -/
def handedOf (worker : Nat) (log : List Entry) : List WorkerCommand :=
  log.filterMap (Entry.handedTo worker)

/-- Why an entry may follow the log before it: what is done is done for the account that signed in last,
and a command is handed to the worker of that sign-in. -/
def Justified (before : List Entry) : Entry → Prop
  | .connecting _ | .sent _ => True
  | .signedIn credentials => before.getLast? = some (.connecting credentials)
  | .reconnecting credentials | .used credentials => (signInsOf before).getLast? = some credentials
  | .handed worker _ => (signInsOf before).length = worker + 1

/-- An entry that changes neither the account nor a worker's queue. -/
def Entry.aside : Entry → Bool
  | .signedIn _ | .handed _ _ => false
  | _ => true

@[simp] theorem signInsOf_append (first second : List Entry) :
    signInsOf (first ++ second) = signInsOf first ++ signInsOf second := List.filterMap_append ..

@[simp] theorem handedOf_append (worker : Nat) (first second : List Entry) :
    handedOf worker (first ++ second) = handedOf worker first ++ handedOf worker second :=
  List.filterMap_append ..

theorem signInsOf_aside {entry : Entry} (h : entry.aside = true) : signInsOf [entry] = [] := by
  cases entry <;> first | rfl | exact absurd h (by simp [Entry.aside])

theorem handedOf_aside {entry : Entry} (h : entry.aside = true) (worker : Nat) :
    handedOf worker [entry] = [] := by
  cases entry <;> first | rfl | exact absurd h (by simp [Entry.aside])

namespace ImapActor

/-- The session, the credentials and the workers are those of the sign-ins in the log. -/
structure Inv (s : ImapActor σ Session) : Prop where
  session : ∀ opened, s.session = some opened → s.credentials = some opened.credentials
  credentials : s.credentials = (signInsOf s.log).getLast?
  workers : s.workers.map BodyWorker.credentials = signInsOf s.log
  queues : ∀ n worker, s.workers[n]? = some worker → worker.queue = handedOf n s.log
  sound : Ledger.Sound Justified s.log

/-- What an entry aside leaves as it is. -/
theorem Inv.note {s : ImapActor σ Session} (h : s.Inv) {entry : Entry} (haside : entry.aside = true)
    (hentry : Justified s.log entry) : (s.note entry).Inv where
  session := h.session
  credentials := by simpa [signInsOf_aside haside] using h.credentials
  workers := by simpa [signInsOf_aside haside] using h.workers
  queues := by simpa [handedOf_aside haside] using h.queues
  sound := h.sound.concat hentry

theorem Inv.send {s : ImapActor σ Session} (h : s.Inv) (event : ImapEvent) : (s.send event).Inv :=
  h.note rfl trivial

/-- A session that is dropped, or opened with the credentials that there are. -/
theorem Inv.setSession {s : ImapActor σ Session} (h : s.Inv) (w : σ) (session : Option (Opened Session))
    (hsession : ∀ opened, session = some opened → s.credentials = some opened.credentials) :
    { s with outside := w, session }.Inv :=
  ⟨hsession, h.credentials, h.workers, h.queues, h.sound⟩

variable (outside : Outside σ Session)

/-- A reconnect keeps the account, and opens a session of it. -/
theorem Inv.reconnect {credentials : Credentials} :
    ∀ (left : Nat) (lastErr : Option Error) {s : ImapActor σ Session}, s.Inv →
      s.credentials = some credentials →
      (reconnect outside credentials left lastErr s).2.Inv ∧
        (reconnect outside credentials left lastErr s).2.credentials = some credentials ∧
        ∀ opened, (reconnect outside credentials left lastErr s).1 = .ok opened →
          opened.credentials = credentials
  | 0, _, _, h, hcreds => ⟨h, hcreds, nofun⟩
  | left + 1, _, s, h, hcreds => by
    have htried : (s.note (.reconnecting credentials)).Inv :=
      h.note rfl (h.credentials.symm.trans hcreds)
    rw [ImapActor.reconnect, ImapActor.connect]
    rcases outside.connectSession credentials (s.note (.reconnecting credentials)).outside with
      ⟨e | session, w⟩
    · have hrest : { s.note (.reconnecting credentials) with outside := w }.Inv :=
        htried.setSession w _ htried.session
      simp only
      split
      · exact ⟨hrest, hcreds, nofun⟩
      · exact Inv.reconnect left (some e.error) hrest hcreds
    · refine ⟨(htried.setSession w _ ?_).send _, hcreds, ?_⟩
      · rintro opened ⟨⟩
        exact hcreds
      · rintro opened ⟨⟩
        rfl

theorem Inv.ensureConnected {s : ImapActor σ Session} (h : s.Inv) :
    (ensureConnected outside s).2.Inv ∧ ∀ opened, (ensureConnected outside s).1 = .ok opened →
      (ensureConnected outside s).2.credentials = some opened.credentials := by
  unfold ImapActor.ensureConnected
  split
  · rename_i opened hsession
    refine ⟨h, ?_⟩
    rintro _ ⟨⟩
    exact h.session opened hsession
  · split
    · exact ⟨h, nofun⟩
    · rename_i credentials hcreds
      obtain ⟨hinv, hkept, hopened⟩ :=
        Inv.reconnect outside maxReconnectAttempts none (h.send .disconnected) hcreds
      exact ⟨hinv, fun opened hok => hopened opened hok ▸ hkept⟩

theorem Inv.ask {s : ImapActor σ Session} (h : s.Inv) {opened : Opened Session}
    (hopened : s.credentials = some opened.credentials) (run : Session → σ → Except Error α × σ)
    (reply : α → ImapEvent) (failed : Error → ImapEvent) : (s.ask opened run reply failed).Inv := by
  have hused : Justified s.log (.used opened.credentials) := h.credentials.symm.trans hopened
  unfold ImapActor.ask
  rcases run opened.session s.outside with ⟨e | a, w⟩
  · exact ((h.setSession w none nofun).note rfl hused).send _
  · exact ((h.setSession w s.session h.session).note rfl hused).send _

theorem Inv.onSession {s : ImapActor σ Session} (h : s.Inv)
    (run : Session → σ → Except Error α × σ) (reply : α → ImapEvent) (failed : Error → ImapEvent)
    (first : Option ImapEvent) : (s.onSession outside run reply failed first).Inv := by
  obtain ⟨hinv, hopened⟩ := h.ensureConnected outside
  unfold ImapActor.onSession
  generalize ImapActor.ensureConnected outside s = r at hinv hopened ⊢
  rcases r with ⟨e | opened, s'⟩
  · exact Inv.send hinv _
  · cases first with
    | none => exact Inv.ask hinv (hopened opened rfl) run reply failed
    | some event => exact Inv.ask (Inv.send hinv event) (hopened opened rfl) run reply failed

theorem Inv.onLive {s : ImapActor σ Session} (h : s.Inv) (run : Session → σ → Except Error α × σ)
    (reply : α → ImapEvent) : (s.onLive run reply).Inv := by
  unfold ImapActor.onLive
  split
  · exact h
  · rename_i opened hsession
    exact h.ask (h.session opened hsession) run reply _

/-- The queue of the last worker grows, and the other workers stay as they are. -/
theorem enqueue_concat (cmd : WorkerCommand) (workers : List BodyWorker) (worker : BodyWorker) :
    enqueue cmd (workers ++ [worker]) = workers ++ [{ worker with queue := worker.queue ++ [cmd] }] := by
  induction workers with
  | nil => rfl
  | cons first workers ih =>
    cases workers with
    | nil => rfl
    | cons second workers => simpa [enqueue] using ih

/-- A command in the queue of the last worker. -/
theorem Inv.hand {s : ImapActor σ Session} (h : s.Inv) {workers : List BodyWorker}
    {worker : BodyWorker} (hworkers : s.workers = workers ++ [worker]) (cmd : WorkerCommand) :
    Inv { s with
      workers := workers ++ [{ worker with queue := worker.queue ++ [cmd] }]
      log := s.log ++ [.handed workers.length cmd] } := by
  have hsigned : signInsOf [.handed workers.length cmd] = [] := rfl
  have hcount : (signInsOf s.log).length = workers.length + 1 := by simp [← h.workers, hworkers]
  refine ⟨h.session, ?_, ?_, ?_, h.sound.concat hcount⟩
  · simpa [hsigned] using h.credentials
  · simpa [hsigned, hworkers] using h.workers
  · intro n found hfound
    have hqueues := h.queues n
    rw [hworkers] at hqueues
    rcases Nat.lt_trichotomy n workers.length with hlt | rfl | hgt
    · have hother : handedOf n [.handed workers.length cmd] = [] := by
        simp [handedOf, Entry.handedTo, Nat.ne_of_gt hlt]
      rw [List.getElem?_append_left hlt] at hqueues
      rw [handedOf_append, hother, List.append_nil]
      exact hqueues found ((List.getElem?_append_left hlt).symm.trans hfound)
    · have hown : handedOf workers.length [.handed workers.length cmd] = [cmd] := by
        simp [handedOf, Entry.handedTo]
      have hlast : { worker with queue := worker.queue ++ [cmd] } = found := by
        simpa using hfound
      rw [handedOf_append, hown, ← hlast, hqueues worker (by simp)]
    · have hnone : (workers ++ [{ worker with queue := worker.queue ++ [cmd] }])[n]? = none :=
        List.getElem?_eq_none (by simp; omega)
      cases hnone.symm.trans hfound

theorem Inv.handOver {s : ImapActor σ Session} (h : s.Inv) (cmd : WorkerCommand)
    (missing : ImapEvent) : (s.handOver cmd missing).Inv := by
  unfold ImapActor.handOver
  split
  · exact h.send missing
  · rename_i hsome
    obtain ⟨workers, worker, hworkers⟩ :=
      (List.eq_nil_or_concat s.workers).resolve_left (by simpa using hsome)
    rw [List.concat_eq_append] at hworkers
    have hhand := h.hand hworkers cmd
    simpa [hworkers, enqueue_concat, ImapActor.note] using hhand

/-- Nothing was handed to a worker that is not there yet. -/
theorem Inv.handedOf_eq_nil {s : ImapActor σ Session} (h : s.Inv) {n : Nat}
    (hn : s.workers.length ≤ n) : handedOf n s.log = [] := by
  refine List.filterMap_eq_nil_iff.mpr fun entry hentry => ?_
  obtain ⟨before, hbefore, hjust⟩ := h.sound.of_mem hentry
  cases entry with
  | handed worker cmd =>
    have hcount : (signInsOf before).length = worker + 1 := hjust
    have hle := (hbefore.filterMap Entry.signsIn).length_le
    have hworkers : (signInsOf s.log).length = s.workers.length := by simp [← h.workers]
    have hlt : worker < n := by
      unfold signInsOf at hcount hworkers
      omega
    simp [Entry.handedTo, Nat.ne_of_lt hlt]
  | connecting _ | signedIn _ | reconnecting _ | used _ | sent _ => rfl

/-- A `Connect` has succeeded. -/
theorem Inv.signIn {s : ImapActor σ Session} (h : s.Inv) {credentials : Credentials}
    (htried : s.log.getLast? = some (.connecting credentials)) (w : σ) (session : Session) :
    Inv { s with
      outside := w, session := some ⟨session, credentials⟩, credentials := some credentials
      workers := s.workers ++ [⟨credentials, []⟩], log := s.log ++ [.signedIn credentials] } := by
  have hsigned : signInsOf [.signedIn credentials] = [credentials] := rfl
  refine ⟨?_, ?_, ?_, ?_, h.sound.concat htried⟩
  · rintro opened ⟨⟩
    rfl
  · simp [hsigned]
  · simp [hsigned, h.workers]
  · intro n found hfound
    have hnone : handedOf n [.signedIn credentials] = [] := rfl
    rw [handedOf_append, hnone, List.append_nil]
    rcases Nat.lt_or_ge n s.workers.length with hlt | hge
    · exact h.queues n found ((List.getElem?_append_left hlt).symm.trans hfound)
    · have hnew : found.queue = [] := by
        rw [List.getElem?_append_right hge] at hfound
        have hmem := List.mem_of_getElem? hfound
        rw [List.mem_singleton.mp hmem]
      rw [hnew, h.handedOf_eq_nil hge]

/-- One turn of the loop keeps to the account. -/
theorem Inv.serve {s : ImapActor σ Session} (h : s.Inv) (cmd : ImapCommand) :
    (serve outside cmd s).Inv := by
  cases cmd with
  | connect credentials =>
    have htried : (s.note (.connecting credentials)).Inv := h.note rfl trivial
    simp only [ImapActor.serve, ImapActor.connect]
    rcases outside.connectSession credentials (s.note (.connecting credentials)).outside with
      ⟨e | session, w⟩
    · exact (htried.setSession w _ htried.session).send _
    · exact (htried.signIn (by simp) w session).send _
  | fetchMailboxes => exact h.onSession outside ..
  | fetchHeaders mailbox page reqId => exact h.onSession outside ..
  | fetchBody mailbox uid reqId => exact h.handOver ..
  | bulkDownload mailbox => exact h.handOver ..
  | exportMessage mailbox uid path => exact h.handOver ..
  | pollMailbox mailbox => exact h.onLive ..
  | fetchNewHeaders mailbox firstUid => exact h.onLive ..
  | fetchHeadersFrom mailbox firstUid => exact h.onSession outside ..
  | append mailbox raw => exact h.onSession outside ..
  | storeFlags mailbox uid add remove reqId => exact h.onSession outside ..
  | moveMessage mailbox uid dest reqId => exact h.onSession outside ..
  | fetchUnreadCounts mailboxes =>
    obtain ⟨hinv, hopened⟩ := h.ensureConnected outside
    simp only [ImapActor.serve]
    generalize ImapActor.ensureConnected outside s = r at hinv hopened ⊢
    rcases r with ⟨e | opened, s'⟩
    · exact hinv
    · refine Inv.send (Inv.note (Inv.setSession hinv _ s'.session hinv.session) rfl ?_) _
      exact hinv.credentials.symm.trans (hopened opened rfl)

theorem Inv.run {s : ImapActor σ Session} (h : s.Inv) (cmds : List ImapCommand) :
    (run outside cmds s).Inv := by
  induction cmds generalizing s with
  | nil => exact h
  | cons cmd cmds ih => exact ih (h.serve outside cmd)

theorem Inv.spawned (w : σ) : Inv { outside := w : ImapActor σ Session } :=
  ⟨nofun, rfl, rfl, fun n worker h => by simp at h, Ledger.sound_nil⟩

/-! ## 5. What holds of every queue -/

/-- Whatever is queued, and whatever the server and the network answer: each session that is used, each
reconnect and each command handed over is of the account that signed in last, and the workers have the
credentials of the sign-ins, in their order. -/
theorem one_account_at_a_time (cmds : List ImapCommand) (w : σ) :
    Ledger.Sound Justified (run outside cmds { outside := w }).log ∧
      (run outside cmds { outside := w }).credentials =
        (signInsOf (run outside cmds { outside := w }).log).getLast? ∧
      (run outside cmds { outside := w }).workers.map BodyWorker.credentials =
        signInsOf (run outside cmds { outside := w }).log :=
  have hinv := (Inv.spawned w).run outside cmds
  ⟨hinv.sound, hinv.credentials, hinv.workers⟩

/-- Whatever is queued, and whatever the server, the network and the disk answer: command by command and
in their order, each has its one answer, or is handed to the body worker of the account, or is one that
nobody waits for; and every worker, over a connection of its own, gets through what it was handed with
one answer to each. -/
theorem commands_answered (cmds : List ImapCommand) (w : σ) {τ S : Type}
    (bodies : Credentials → Fetching.Outside τ S) (world : τ) :
    ∃ segments, (run outside cmds { outside := w }).log = segments.flatten ∧
      List.Forall₂ Served cmds segments ∧
      ∀ n worker, (run outside cmds { outside := w }).workers[n]? = some worker →
        worker.queue = handedOf n segments.flatten ∧
        ∃ s' answers, (∀ more, Fetching.serve (bodies worker.credentials) (more + 2) worker.queue
            { outside := world } = some s') ∧
          s'.log = answers.flatten ∧ List.Forall₂ Fetching.Answered worker.queue answers := by
  obtain ⟨segments, hlog, hserved⟩ := run_served outside cmds { outside := w }
  rw [List.nil_append] at hlog
  refine ⟨segments, hlog, hserved, fun n worker hworker => ⟨?_, ?_⟩⟩
  · rw [← hlog]
    exact ((Inv.spawned w).run outside cmds).queues n worker hworker
  · obtain ⟨s', answers, hserve, hanswers, hall⟩ :=
      Fetching.serve_answered (bodies worker.credentials) worker.queue { outside := world }
    exact ⟨s', answers, hserve, hanswers, hall⟩

end ImapActor

end

end Esmail.Fetching.Acting
