/-
# The body worker: one answer to every command

`spawn_body_worker` of `imap.rs`: a task that serves a queue of commands over a connection of its own.
A command that fails on its session is run once more, on a new one; a connection that cannot be opened
fails the command at once.

What the network, the server and the disk answer is a function of a state that every question may
change (`Outside`), so every sequence of outcomes is the sequence of some `Outside`.  The `log` is what
the worker does that others can see, and, besides the source, every run of a command.

`answered_once`: the worker gets through any queue, and the log is, command by command and in their order,
at most two runs of the command and then its one terminal event.

A turn of the retry loop breaks, or it was the first one (`turn_breaks`); what the two cases log is said
once for the commands that ask for one message and once for a bulk download (`turn_single`, `turn_bulk`).
The loop has no bound in the source; here it has fuel, and two turns are always enough (`retryLoop_eq`),
so that nothing is said only of runs that end.

How long a turn takes is left open: a network that never answers is no `Outside`.
-/
import Esmail.Cache.Tables

namespace Esmail.Fetching

/-! ## 1. Commands, events, and what is outside -/

/-- `WorkerCommand`. -/
inductive WorkerCommand
  | fetchBody (mailbox : String) (uid reqId : Nat)
  | bulkDownload (mailbox : String)
  | exportMessage (mailbox : String) (uid : Nat) (path : String)
  deriving DecidableEq, Repr

/-- What a bulk download reports as it goes. -/
inductive BulkEvent
  | progress (current total : Nat)
  | mailData (mailbox : String) (header : MailHeader) (body : String) (attachments : List Attachment)
  deriving DecidableEq, Repr

/-- `ImapEvent`, as far as the worker sends it. -/
inductive ImapEvent
  | body (uid : Nat) (html : String) (attachments : List Attachment) (reqId : Nat)
  | bodyFailed (uid reqId : Nat) (error : String)
  | exported (path : String)
  | exportFailed (error : String)
  | bulk (event : BulkEvent)
  | error (text : String)
  deriving DecidableEq, Repr

/-- `anyhow::Error`: a message, and the causes under it. -/
structure Error where
  message : String
  causes : List String := []
  deriving DecidableEq, Repr

/-- `{error:#}`: the message with its causes. -/
def Error.alternate (e : Error) : String := ": ".intercalate (e.message :: e.causes)

/-- Why `connect_session` failed; `permanent` is `SignInExpired`. -/
structure ConnectError where
  error : Error
  permanent : Bool
  deriving DecidableEq, Repr

/-- The network, the server, the disk, and the code that renders a message. -/
structure Outside (σ Session : Type) where
  connectSession : σ → Except ConnectError Session × σ
  examine : Session → String → σ → Except Error Unit × σ
  /-- The first message of the reply to `UID FETCH`, with its body. -/
  uidFetch : Session → Nat → σ → Except Error (Option (Except Error (Option (List UInt8)))) × σ
  write : String → List UInt8 → σ → Except String Unit × σ
  bulkDownload : Session → String → σ → List BulkEvent × Except Error Unit × σ
  renderMessage : List UInt8 → String
  extractAttachments : List UInt8 → List Attachment

/-- What the worker does: it runs a command, or it sends an event. -/
inductive Entry
  | ran (cmd : WorkerCommand)
  | sent (event : ImapEvent)
  deriving DecidableEq, Repr

/-- `MAX_RECONNECT_ATTEMPTS`. -/
def maxReconnectAttempts : Nat := 5

section Worker

variable {σ Session : Type} (outside : Outside σ Session)

/-! ## 2. The worker, as the source has it -/

/-- The loop of `ensure_worker_connected`, with the attempts that are left. -/
def connectAttempts : Nat → Option Error → σ → Except Error Session × σ
  | 0, lastErr, w => (.error (lastErr.getD ⟨"reconnect failed", []⟩), w)
  | left + 1, _, w =>
    match outside.connectSession w with
    | (.ok session, w) => (.ok session, w)
    | (.error e, w) => if e.permanent then (.error e.error, w) else connectAttempts left (some e.error) w

/-- `ensure_worker_connected`. -/
def ensureWorkerConnected (w : σ) : Except Error Session × σ :=
  connectAttempts outside maxReconnectAttempts none w

/-- `fetch_raw`. -/
def fetchRaw (session : Session) (mailbox : String) (uid : Nat) (w : σ) :
    Except Error (List UInt8) × σ :=
  match outside.examine session mailbox w with
  | (.error e, w) => (.error e, w)
  | (.ok (), w) =>
    match outside.uidFetch session uid w with
    | (.error e, w) => (.error e, w)
    | (.ok none, w) => (.error ⟨"Message not found or no body", []⟩, w)
    | (.ok (some (.error e)), w) => (.error e, w)
    | (.ok (some (.ok none)), w) => (.error ⟨"No body", []⟩, w)
    | (.ok (some (.ok (some body))), w) => (.ok body, w)

/-- `fetch_body`. -/
def fetchBody (session : Session) (mailbox : String) (uid : Nat) (w : σ) :
    Except Error (String × List Attachment) × σ :=
  match fetchRaw outside session mailbox uid w with
  | (.error e, w) => (.error e, w)
  | (.ok raw, w) => (.ok (outside.renderMessage raw, outside.extractAttachments raw), w)

/-- `run_worker_command`: what it sends, and whether it failed in a way that implicates the
session. -/
def runWorkerCommand (cmd : WorkerCommand) (session : Session) (w : σ) :
    List ImapEvent × Except Error Unit × σ :=
  match cmd with
  | .fetchBody mailbox uid reqId =>
    match fetchBody outside session mailbox uid w with
    | (.error e, w) => ([], .error e, w)
    | (.ok (html, attachments), w) => ([.body uid html attachments reqId], .ok (), w)
  | .exportMessage mailbox uid path =>
    match fetchRaw outside session mailbox uid w with
    | (.error e, w) => ([], .error e, w)
    | (.ok raw, w) =>
      match outside.write path raw w with
      | (.ok (), w) => ([.exported path], .ok (), w)
      | (.error e, w) => ([.exportFailed s!"could not write {path}: {e}"], .ok (), w)
  | .bulkDownload mailbox =>
    let r := outside.bulkDownload session mailbox w
    (r.1.map .bulk, r.2)

/-- `report_worker_failure`. -/
def reportWorkerFailure (cmd : WorkerCommand) (e : Error) : ImapEvent :=
  match cmd with
  | .fetchBody _ uid reqId => .bodyFailed uid reqId e.message
  | .bulkDownload _ => .error e.message
  | .exportMessage _ _ _ => .exportFailed e.alternate

/-- The worker's variables, and the state outside it. -/
structure Worker (σ Session : Type) where
  outside : σ
  session : Option Session := none
  retried : Bool := false
  log : List Entry := []

/-- The session of a turn: the one that is open, or a new one. -/
def sessionOf (s : Worker σ Session) : Except Error Session × σ :=
  match s.session with
  | some session => (.ok session, s.outside)
  | none => ensureWorkerConnected outside s.outside

/-- One turn of the retry loop, and whether it breaks. -/
def turn (cmd : WorkerCommand) (s : Worker σ Session) : Worker σ Session × Bool :=
  match sessionOf outside s with
  | (.error e, w) =>
    let err : Error := ⟨s!"could not open a connection for this request: {e.message}", []⟩
    ({ s with outside := w, log := s.log ++ [.sent (reportWorkerFailure cmd err)] }, true)
  | (.ok session, w) =>
    let r := runWorkerCommand outside cmd session w
    let log := s.log ++ .ran cmd :: r.1.map .sent
    match r.2 with
    | (.ok (), w) => ({ s with outside := w, session := some session, log := log }, true)
    | (.error e, w) =>
      if s.retried then
        ({ s with outside := w, session := none, log := log ++ [.sent (reportWorkerFailure cmd e)] }, true)
      else ({ s with outside := w, session := none, retried := true, log := log }, false)

/-- The retry loop of a command, as far as the fuel goes. -/
def retryLoop (cmd : WorkerCommand) : Nat → Worker σ Session → Option (Worker σ Session)
  | 0, _ => none
  | fuel + 1, s =>
    let r := turn outside cmd s
    if r.2 then some r.1 else retryLoop cmd fuel r.1

/-- `spawn_body_worker`: the commands in the order of the queue. -/
def serve (fuel : Nat) : List WorkerCommand → Worker σ Session → Option (Worker σ Session)
  | [], s => some s
  | cmd :: cmds, s => (retryLoop outside cmd fuel { s with retried := false }).bind (serve fuel cmds)

/-! ## 3. What a command is answered with -/

/-- The terminal events of a command. -/
inductive Answers : WorkerCommand → ImapEvent → Prop
  | body (mailbox : String) (uid reqId : Nat) (html : String) (attachments : List Attachment) :
    Answers (.fetchBody mailbox uid reqId) (.body uid html attachments reqId)
  | bodyFailed (mailbox : String) (uid reqId : Nat) (error : String) :
    Answers (.fetchBody mailbox uid reqId) (.bodyFailed uid reqId error)
  | exported (mailbox : String) (uid : Nat) (path : String) :
    Answers (.exportMessage mailbox uid path) (.exported path)
  | exportFailed (mailbox : String) (uid : Nat) (path error : String) :
    Answers (.exportMessage mailbox uid path) (.exportFailed error)

/-- What is no terminal event of any command. -/
def ImapEvent.passing : ImapEvent → Bool
  | .bulk _ | .error _ => true
  | _ => false

/-- The part of the log that serves one command: at most two runs of it, and at the end one terminal
event.  A bulk download has none, and sends none of another command. -/
def Answered (cmd : WorkerCommand) (segment : List Entry) : Prop :=
  match cmd with
  | .bulkDownload _ => segment.count (.ran cmd) ≤ 2 ∧
      ∀ entry ∈ segment, entry = .ran cmd ∨ ∃ event, entry = .sent event ∧ event.passing = true
  | _ => ∃ runs ≤ 2, ∃ event, Answers cmd event ∧
      segment = List.replicate runs (.ran cmd) ++ [.sent event]

/-- A command that asks for one message. -/
def WorkerCommand.single : WorkerCommand → Bool
  | .bulkDownload _ => false
  | _ => true

theorem answers_report {cmd : WorkerCommand} (hcmd : cmd.single = true) (e : Error) :
    Answers cmd (reportWorkerFailure cmd e) := by
  cases cmd with
  | fetchBody mailbox uid reqId => exact .bodyFailed mailbox uid reqId _
  | bulkDownload mailbox => exact absurd hcmd (by simp [WorkerCommand.single])
  | exportMessage mailbox uid path => exact .exportFailed mailbox uid path _

/-- A run sends its terminal event, or it fails and has sent nothing. -/
theorem runWorkerCommand_answers {cmd : WorkerCommand} (hcmd : cmd.single = true) (session : Session)
    (w : σ) :
    ((runWorkerCommand outside cmd session w).2.1 = .ok () ∧
        ∃ event, Answers cmd event ∧ (runWorkerCommand outside cmd session w).1 = [event]) ∨
      ∃ e, (runWorkerCommand outside cmd session w).2.1 = .error e ∧
        (runWorkerCommand outside cmd session w).1 = [] := by
  cases cmd with
  | fetchBody mailbox uid reqId =>
    simp only [runWorkerCommand]
    split
    · exact .inr ⟨_, rfl, rfl⟩
    · exact .inl ⟨rfl, _, .body mailbox uid reqId _ _, rfl⟩
  | bulkDownload mailbox => exact absurd hcmd (by simp [WorkerCommand.single])
  | exportMessage mailbox uid path =>
    simp only [runWorkerCommand]
    split
    · exact .inr ⟨_, rfl, rfl⟩
    · split
      · exact .inl ⟨rfl, _, .exported mailbox uid path, rfl⟩
      · exact .inl ⟨rfl, _, .exportFailed mailbox uid path _, rfl⟩

/-! ## 4. One turn, and the loop -/

/-- All that a turn can do: the connection cannot be opened, or the run succeeds, or it fails for good,
or it fails for the first time. -/
theorem turn_cases (cmd : WorkerCommand) (s : Worker σ Session) :
    (∃ e, (turn outside cmd s).2 = true ∧
        (turn outside cmd s).1.log = s.log ++ [.sent (reportWorkerFailure cmd e)]) ∨
      ∃ session w, let r := runWorkerCommand outside cmd session w
        (r.2.1 = .ok () ∧ (turn outside cmd s).2 = true ∧
            (turn outside cmd s).1.log = s.log ++ .ran cmd :: r.1.map .sent) ∨
          ∃ e, r.2.1 = .error e ∧
            ((turn outside cmd s).2 = true ∧ (turn outside cmd s).1.log =
                s.log ++ .ran cmd :: (r.1.map .sent ++ [.sent (reportWorkerFailure cmd e)]) ∨
              s.retried = false ∧ (turn outside cmd s).2 = false ∧
                (turn outside cmd s).1.retried = true ∧
                (turn outside cmd s).1.log = s.log ++ .ran cmd :: r.1.map .sent) := by
  unfold turn
  rcases sessionOf outside s with ⟨e | session, w⟩
  · exact .inl ⟨_, rfl, rfl⟩
  · refine .inr ⟨session, w, ?_⟩
    dsimp only
    rcases runWorkerCommand outside cmd session w with ⟨events, e | ⟨⟩, w'⟩
    · refine .inr ⟨e, rfl, ?_⟩
      cases hretried : s.retried with
      | true => exact .inl ⟨rfl, by simp⟩
      | false => exact .inr ⟨rfl, rfl, rfl, rfl⟩
    · exact .inl ⟨rfl, rfl, rfl⟩

/-- A turn breaks, or it was the first one and the next one is the retry. -/
theorem turn_breaks (cmd : WorkerCommand) (s : Worker σ Session) :
    (turn outside cmd s).2 = true ∨ s.retried = false ∧ (turn outside cmd s).1.retried = true := by
  rcases turn_cases outside cmd s with ⟨e, hbreak, -⟩ | ⟨session, w, h⟩
  · exact .inl hbreak
  · rcases h with ⟨-, hbreak, -⟩ | ⟨e, -, ⟨hbreak, -⟩ | ⟨hfirst, -, hretried, -⟩⟩
    · exact .inl hbreak
    · exact .inl hbreak
    · exact .inr ⟨hfirst, hretried⟩

/-- What a turn logs of a command that asks for one message. -/
theorem turn_single {cmd : WorkerCommand} (hcmd : cmd.single = true) (s : Worker σ Session) :
    ((turn outside cmd s).2 = true ∧ ∃ runs ≤ 1, ∃ event, Answers cmd event ∧
        (turn outside cmd s).1.log = s.log ++ (List.replicate runs (.ran cmd) ++ [.sent event])) ∨
      (turn outside cmd s).2 = false ∧ (turn outside cmd s).1.log = s.log ++ [.ran cmd] := by
  rcases turn_cases outside cmd s with ⟨e, hbreak, hlog⟩ | ⟨session, w, h⟩
  · exact .inl ⟨hbreak, 0, Nat.zero_le 1, _, answers_report hcmd e, hlog⟩
  · rcases h with ⟨hok, hbreak, hlog⟩ | ⟨e, herr, hfail⟩
    · rcases runWorkerCommand_answers outside hcmd session w with ⟨-, event, hevent, hsent⟩ | ⟨e, herr, -⟩
      · rw [hsent] at hlog
        exact .inl ⟨hbreak, 1, Nat.le_refl 1, event, hevent, hlog⟩
      · exact absurd (hok.symm.trans herr) (by simp)
    · rcases runWorkerCommand_answers outside hcmd session w with ⟨hok, -⟩ | ⟨-, -, hsent⟩
      · exact absurd (hok.symm.trans herr) (by simp)
      · rw [hsent] at hfail
        rcases hfail with ⟨hbreak, hlog⟩ | ⟨-, hgoes, -, hlog⟩
        · exact .inl ⟨hbreak, 1, Nat.le_refl 1, _, answers_report hcmd e, hlog⟩
        · exact .inr ⟨hgoes, hlog⟩

/-- What a turn logs of a bulk download. -/
theorem turn_bulk (mailbox : String) (s : Worker σ Session) :
    ∃ segment, (turn outside (.bulkDownload mailbox) s).1.log = s.log ++ segment ∧
      segment.count (.ran (.bulkDownload mailbox)) ≤ 1 ∧
      ∀ entry ∈ segment, entry = .ran (.bulkDownload mailbox) ∨
        ∃ event, entry = .sent event ∧ event.passing = true := by
  -- The events of a run are the download's own, and its failure is an `Error`.
  have hpassing : ∀ (events : List BulkEvent) (tail : List ImapEvent), (∀ e ∈ tail, e.passing = true) →
      ∀ entry ∈ Entry.ran (.bulkDownload mailbox) :: ((events.map ImapEvent.bulk) ++ tail).map .sent,
        entry = .ran (.bulkDownload mailbox) ∨ ∃ event, entry = .sent event ∧ event.passing = true := by
    intro events tail htail entry hentry
    rcases List.mem_cons.mp hentry with rfl | hentry
    · exact .inl rfl
    · obtain ⟨event, hevent, rfl⟩ := List.mem_map.mp hentry
      rcases List.mem_append.mp hevent with hevent | hevent
      · obtain ⟨bulk, -, rfl⟩ := List.mem_map.mp hevent
        exact .inr ⟨_, rfl, rfl⟩
      · exact .inr ⟨_, rfl, htail event hevent⟩
  have hcount : ∀ events : List ImapEvent,
      (Entry.ran (.bulkDownload mailbox) :: events.map Entry.sent).count (.ran (.bulkDownload mailbox)) ≤ 1 := by
    intro events
    rw [List.count_cons_self, List.count_eq_zero_of_not_mem (by simp)]
  rcases turn_cases outside (.bulkDownload mailbox) s with ⟨e, -, hlog⟩ | ⟨session, w, h⟩
  · exact ⟨_, hlog, by simp, fun entry hentry => .inr ⟨_, List.mem_singleton.mp hentry, rfl⟩⟩
  · rcases h with ⟨-, -, hlog⟩ | ⟨e, -, ⟨-, hlog⟩ | ⟨-, -, -, hlog⟩⟩
    · refine ⟨_, hlog, hcount _, ?_⟩
      have hall := hpassing (outside.bulkDownload session mailbox w).1 [] (by simp)
      rwa [List.append_nil] at hall
    · refine ⟨_, hlog, ?_, ?_⟩
      · have hall := hcount ((runWorkerCommand outside (.bulkDownload mailbox) session w).1 ++
          [reportWorkerFailure (.bulkDownload mailbox) e])
        rwa [List.map_append] at hall
      · have hall := hpassing (outside.bulkDownload session mailbox w).1
          [reportWorkerFailure (.bulkDownload mailbox) e] (by simp [reportWorkerFailure, ImapEvent.passing])
        rwa [List.map_append] at hall
    · refine ⟨_, hlog, hcount _, ?_⟩
      have hall := hpassing (outside.bulkDownload session mailbox w).1 [] (by simp)
      rwa [List.append_nil] at hall

/-- The worker behind the loop: behind the first turn, or behind the retry. -/
def afterLoop (cmd : WorkerCommand) (s : Worker σ Session) : Worker σ Session :=
  if (turn outside cmd s).2 then (turn outside cmd s).1
  else (turn outside cmd (turn outside cmd s).1).1

/-- The loop is over after two turns at most. -/
theorem retryLoop_eq (cmd : WorkerCommand) (s : Worker σ Session) (more : Nat) :
    retryLoop outside cmd (more + 2) s = some (afterLoop outside cmd s) := by
  rw [retryLoop, afterLoop]
  cases hfirst : (turn outside cmd s).2 with
  | true => rfl
  | false =>
    have hretried := ((turn_breaks outside cmd s).resolve_left (by simp [hfirst])).2
    have hsecond : (turn outside cmd (turn outside cmd s).1).2 = true :=
      (turn_breaks outside cmd _).resolve_right (by simp [hretried])
    simp only [Bool.false_eq_true, if_false]
    rw [retryLoop]
    simp only [hsecond, if_true]

theorem answered_of_single {cmd : WorkerCommand} (hcmd : cmd.single = true) {segment : List Entry}
    (h : ∃ runs ≤ 2, ∃ event, Answers cmd event ∧
      segment = List.replicate runs (.ran cmd) ++ [.sent event]) : Answered cmd segment := by
  cases cmd with
  | bulkDownload mailbox => exact absurd hcmd (by simp [WorkerCommand.single])
  | fetchBody _ _ _ | exportMessage _ _ _ => exact h

/-- What the loop logs of a command. -/
theorem afterLoop_answered (cmd : WorkerCommand) (s : Worker σ Session) :
    ∃ segment, (afterLoop outside cmd s).log = s.log ++ segment ∧ Answered cmd segment := by
  unfold afterLoop
  cases hcmd : cmd.single with
  | true =>
    rcases turn_single outside hcmd s with ⟨hbreak, runs, hruns, event, hevent, hlog⟩ | ⟨hgoes, hlog⟩
    · rw [if_pos hbreak]
      exact ⟨_, hlog, answered_of_single hcmd ⟨runs, by omega, event, hevent, rfl⟩⟩
    · rw [if_neg (by simp [hgoes])]
      have hretried := ((turn_breaks outside cmd s).resolve_left (by simp [hgoes])).2
      have hsecond : (turn outside cmd (turn outside cmd s).1).2 = true :=
        (turn_breaks outside cmd _).resolve_right (by simp [hretried])
      rcases turn_single outside hcmd (turn outside cmd s).1 with
        ⟨-, runs, hruns, event, hevent, hlog'⟩ | ⟨hgoes', -⟩
      · refine ⟨List.replicate (runs + 1) (.ran cmd) ++ [.sent event], ?_, answered_of_single hcmd
          ⟨runs + 1, by omega, event, hevent, rfl⟩⟩
        rw [hlog', hlog]
        simp [List.replicate_succ]
      · exact absurd (hsecond.symm.trans hgoes') (by simp)
  | false =>
    cases cmd with
    | fetchBody _ _ _ | exportMessage _ _ _ => exact absurd hcmd (by simp [WorkerCommand.single])
    | bulkDownload mailbox =>
      obtain ⟨first, hlog, hcount, hall⟩ := turn_bulk outside mailbox s
      obtain ⟨second, hlog', hcount', hall'⟩ :=
        turn_bulk outside mailbox (turn outside (.bulkDownload mailbox) s).1
      split
      · exact ⟨first, hlog, Nat.le_succ_of_le hcount, hall⟩
      · refine ⟨first ++ second, by rw [hlog', hlog, List.append_assoc], ?_, fun entry hentry => ?_⟩
        · rw [List.count_append]
          omega
        · rcases List.mem_append.mp hentry with hentry | hentry
          · exact hall entry hentry
          · exact hall' entry hentry

/-! ## 5. The queue -/

theorem serve_answered (cmds : List WorkerCommand) (s : Worker σ Session) :
    ∃ s' segments, (∀ more, serve outside (more + 2) cmds s = some s') ∧
      s'.log = s.log ++ segments.flatten ∧ List.Forall₂ Answered cmds segments := by
  induction cmds generalizing s with
  | nil => exact ⟨s, [], fun _ => rfl, by simp, .nil⟩
  | cons cmd cmds ih =>
    obtain ⟨segment, hlog, hsegment⟩ := afterLoop_answered outside cmd { s with retried := false }
    obtain ⟨s', segments, hserve, hlog', hsegments⟩ := ih (afterLoop outside cmd { s with retried := false })
    refine ⟨s', segment :: segments, fun more => ?_, ?_, .cons hsegment hsegments⟩
    · rw [serve, retryLoop_eq, Option.bind_some]
      exact hserve more
    · rw [hlog', hlog, List.flatten_cons, List.append_assoc]

/-- Whatever is queued and whatever the network, the server and the disk answer: the worker gets through
the queue, and what it does is, command by command and in their order, at most two runs of the command
and then its one terminal event. -/
theorem answered_once (cmds : List WorkerCommand) (w : σ) :
    ∃ s' segments, (∀ more, serve outside (more + 2) cmds { outside := w } = some s') ∧
      s'.log = segments.flatten ∧ List.Forall₂ Answered cmds segments := by
  obtain ⟨s', segments, hserve, hlog, hsegments⟩ := serve_answered outside cmds { outside := w }
  exact ⟨s', segments, hserve, hlog, hsegments⟩

end Worker

end Esmail.Fetching
