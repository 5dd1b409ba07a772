/-
# One account's new mail: the forwarder, its actor and the mailbox

`forward_and_watch` of `session.rs`, and the commands of `imap.rs` that it sends.  The forwarder polls
the watched mailbox, and has the headers fetched of what a poll reports as new; the actor serves its
queue one command after the other, and answers on a channel.  Everything the server and the network do
is an action of the machine: which mail arrives and leaves, what a poll's reply says of UIDNEXT, which
command fails.

The watermark moves when a reply is HEARD: before the fetch it orders is queued, and long before it has
succeeded.  And a fetch is of everything from a UID on, mail included that no poll has reported.  So a
message may be announced twice, or never (`announced_twice_or_never`).

`new_mail_announced_once` is about the runs in which neither comes to bear (`undisturbed`): each message
that arrived between two polls is fetched, or has left before it could be, or a fetch of it is still to be
made; and it is announced at most once.

`Sound` is three invariants.  `Truthful` says that the replies that wait are true; `Covered`, that what
arrived is seen to, up to the watermark, by fetches that were made or are COMING (queued, or ordered by a
reply that waits); `Once`, that at most one fetch is coming, which asks for nothing that was fetched.
What the replies that wait will order is computed from the watermark (`toOrder`), so that hearing one
moves a fetch from what is ordered to what is queued and changes nothing else (`Sound.hearReply`).
-/
import Esmail.Cache.Sync
import Esmail.Watching.Notify

namespace Esmail.Watching.Forwarding

open Transition

/-! ## 1. The forwarder -/

/-- `ImapCommand`.  Only the forwarder sends the first two, and only for the mailbox it watches: that
mailbox is not named here. -/
inductive ImapCommand
  | pollMailbox
  | fetchNewHeaders (firstUid : Nat)
  | connect
  /-- Any command that begins with `ensure_connected`. -/
  | onSession
  /-- Any command that is handed to the body worker. -/
  | handedOn
  deriving DecidableEq, Repr

/-- The first UID of a fetch of new headers. -/
def ImapCommand.firstUid : ImapCommand → Option Nat
  | .fetchNewHeaders firstUid => some firstUid
  | _ => none

/-- Whether the forwarder alone sends it. -/
def ImapCommand.ofForwarder : ImapCommand → Bool
  | .pollMailbox | .fetchNewHeaders _ => true
  | _ => false

/-- `ImapEvent`, as far as the forwarder does more than pass it on. -/
inductive ImapEvent
  | connected
  | disconnected
  | mailboxPolled (state : MailboxState)
  | newHeaders (headers : List MailHeader)
  | other
  deriving DecidableEq, Repr

/-- The UIDs of the headers that an event brings for a toast. -/
def ImapEvent.uids : ImapEvent → List Nat
  | .newHeaders headers => Esmail.uids headers
  | _ => []

/-- An event that brings no report and no headers. -/
def ImapEvent.quiet : ImapEvent → Bool
  | .mailboxPolled _ | .newHeaders _ => false
  | _ => true

/-- What `forward_and_watch` keeps. -/
structure Forwarder where
  connected : Bool := false
  watermark : Option MailWatermark := none
  deriving DecidableEq, Repr

/-- What it does about an event: the command that it tries to send, and the toast that it shows. -/
structure Reaction where
  forwarder : Forwarder
  command : Option ImapCommand := none
  toast : Option (String × String) := none

/-- The first branch of its loop. -/
def Forwarder.react (f : Forwarder) (label : String) : ImapEvent → Reaction
  | .connected => { forwarder := { f with connected := true, watermark := none } }
  | .disconnected => { forwarder := { f with connected := false } }
  | .mailboxPolled state =>
    let (next, update) := updateWatermark f.watermark ⟨state.uidValidity, state.uidNext⟩
    { forwarder := { f with watermark := some next }
      command := update.firstNewUid.map .fetchNewHeaders }
  | .newHeaders headers => { forwarder := f, toast := buildAccountNotification label headers }
  | .other => { forwarder := f }

/-! ## 2. The actor -/

/-- `ImapActor`: whether it has a session, and whether it has connected before. -/
structure ImapActor where
  session : Bool := false
  credentials : Bool := false
  deriving DecidableEq, Repr

/-- How the server, or the network, answers a command. -/
inductive Answer
  | done
  /-- `EXAMINE` is answered; the reply may lack UIDNEXT. -/
  | examined (uidNext : Option Nat)
  | failed
  /-- A session cannot be made. -/
  | unreachable
  deriving DecidableEq, Repr

namespace ImapActor

/-- `ensure_connected`. -/
def ensureConnected (a : ImapActor) (reached : Bool) : ImapActor × List ImapEvent :=
  if a.session then (a, [])
  else if a.credentials then
    if reached then ({ a with session := true }, [.disconnected, .connected])
    else (a, [.disconnected])
  else (a, [])

/-- One turn of `run`: the actor, and the events that it sends, less those the forwarder only passes
on. -/
def serve (a : ImapActor) (mailbox : Mailbox) :
    ImapCommand → Answer → Option (ImapActor × List ImapEvent)
  | .pollMailbox, answer =>
    if a.session then
      match answer with
      | .examined uidNext => some (a, [.mailboxPolled ⟨mailbox.uidValidity, uidNext.getD 0⟩])
      | .failed => some ({ a with session := false }, [])
      | _ => none
    else some (a, [])
  | .fetchNewHeaders firstUid, answer =>
    if a.session then
      match answer with
      | .done => some (a, [.newHeaders (Cache.fetchNewHeaders mailbox firstUid)])
      | .failed => some ({ a with session := false }, [])
      | _ => none
    else some (a, [])
  | .connect, .done => some (⟨true, true⟩, [.connected])
  | .connect, .failed => some (a, [])
  | .connect, _ => none
  | .onSession, .unreachable => some (a.ensureConnected false)
  | .onSession, .done => some (a.ensureConnected true)
  | .onSession, .failed =>
    some ({ (a.ensureConnected true).1 with session := false }, (a.ensureConnected true).2)
  | .onSession, .examined _ => none
  | .handedOn, _ => some (a, [])

end ImapActor

/-! ## 3. The machine -/

/-- How many commands wait for the actor at most. -/
def commandQueue : Nat := 32

/-- An account's session, the watched mailbox on its server, and what has happened to its mail.  Each
event stands with the UIDNEXT that the mailbox had when the event was sent. -/
structure Account where
  label : String
  mailbox : Mailbox
  actor : ImapActor := {}
  serving : Option ImapCommand := none
  commands : List ImapCommand := [.connect]
  events : List (ImapEvent × Nat) := []
  forwarder : Forwarder := {}
  toasts : List (String × String) := []
  /-- The UIDs of the messages that arrived. -/
  arrived : List Nat := []
  /-- Those of messages that left before they were fetched. -/
  missed : List Nat := []
  /-- The UIDs that fetches of new headers brought. -/
  fetched : List Nat := []
  /-- Those that toasts were shown about. -/
  announced : List Nat := []
  /-- The UIDNEXT of the mailbox at the first poll since `Connected`. -/
  first : Option Nat := none
  /-- For each later poll, that UIDNEXT and the one at this poll. -/
  later : List (Nat × Nat) := []

namespace Account

/-- `try_send`. -/
def trySend (s : Account) (command : ImapCommand) : Account :=
  if s.commands.length < commandQueue then { s with commands := s.commands ++ [command] } else s

/-- Events are sent to the forwarder. -/
def send (s : Account) (sent : List ImapEvent) : Account :=
  { s with events := s.events ++ sent.map fun event => (event, s.mailbox.uidNext) }

/-- Which polls there have been, after an event. -/
def note (s : Account) : ImapEvent → Nat → Account
  | .connected, _ => { s with first := none }
  | .mailboxPolled _, uidNext =>
    match s.first with
    | none => { s with first := some uidNext }
    | some first => { s with later := s.later ++ [(first, uidNext)] }
  | _, _ => s

/-- The forwarder hears an event. -/
def hear (s : Account) (event : ImapEvent) (uidNext : Nat) : Account :=
  let reaction := s.forwarder.react s.label event
  let s :=
    { s.note event uidNext with
      forwarder := reaction.forwarder
      toasts := s.toasts ++ reaction.toast.toList
      announced := if reaction.toast.isSome then s.announced ++ event.uids else s.announced }
  match reaction.command with
  | none => s
  | some command => s.trySend command

end Account

inductive Action
  | arrive (header : MailHeader)
  | expunge (uid : Nat)
  /-- Anyone else sends a command. -/
  | order (command : ImapCommand)
  /-- The timer of the polls ticks, or `IDLE` wakes the forwarder. -/
  | wake
  /-- The actor takes the next command. -/
  | take
  /-- The command it has taken is answered. -/
  | serve (answer : Answer)
  /-- Another event is sent, by the actor or by the body worker. -/
  | send
  /-- The forwarder takes the next event. -/
  | hear

namespace Account

def step (s : Account) : Action → Option Account
  | .arrive header =>
    (s.mailbox.arrive header).map fun mailbox =>
      { s with mailbox := mailbox, arrived := s.arrived ++ [header.uid] }
  | .expunge uid =>
    some
      { s with
        mailbox := s.mailbox.expunge uid
        missed := if s.mailbox.has uid ∧ uid ∉ s.fetched then s.missed ++ [uid] else s.missed }
  | .order command => if command.ofForwarder then none else some (s.trySend command)
  | .wake => some (if s.forwarder.connected then s.trySend .pollMailbox else s)
  | .take =>
    match s.serving, s.commands with
    | none, command :: commands => some { s with serving := some command, commands := commands }
    | _, _ => none
  | .serve answer =>
    match s.serving with
    | none => none
    | some command =>
      (s.actor.serve s.mailbox command answer).map fun (actor, sent) =>
        { s.send sent with
          actor := actor
          serving := none
          fetched := s.fetched ++ sent.flatMap ImapEvent.uids }
  | .send => some (s.send [.other])
  | .hear =>
    match s.events with
    | [] => none
    | (event, uidNext) :: events => some ({ s with events := events }.hear event uidNext)

/-- A session that was spawned, and any mailbox. -/
def machine : Machine Account Action := ⟨fun s => ∃ label mailbox, s = { label, mailbox }, step⟩

end Account

/-! ## 4. When all goes well -/

/-- Whether one of the replies that wait reports more than the one before it, or than was reported
last. -/
def reportsNew : Option Nat → List ImapEvent → Bool
  | _, [] => false
  | _, .connected :: events => reportsNew none events
  | last, .mailboxPolled state :: events =>
    last.any (· < state.uidNext) || reportsNew (some state.uidNext) events
  | last, _ :: events => reportsNew last events

namespace Account

/-- The commands that the actor has not finished. -/
def unserved (s : Account) : List ImapCommand := s.serving.toList ++ s.commands

/-- From which UIDs on a fetch of new headers is still to be made. -/
def asked (s : Account) : List Nat := s.unserved.filterMap ImapCommand.firstUid

/-- The events that wait. -/
def waiting (s : Account) : List ImapEvent := s.events.map Prod.fst

/-- The UIDNEXT that was heard last. -/
def lastHeard (s : Account) : Option Nat := s.forwarder.watermark.map MailWatermark.uidNext

/-- A poll is answered with the UIDNEXT that the mailbox has.  No mail arrives from a poll that finds
new mail to the fetch it leads to.  The queue has room for that fetch; it is made on a session, and
succeeds; and the last message is one that it asks for, or was not fetched before. -/
def undisturbed (s : Account) : Action → Bool
  | .arrive _ => s.asked.isEmpty && !reportsNew s.lastHeard s.waiting
  | .serve answer =>
    match s.serving, answer with
    | some .pollMailbox, .examined uidNext => uidNext = some s.mailbox.uidNext
    | some (.fetchNewHeaders firstUid), answer =>
      s.actor.session && answer = .done &&
        s.mailbox.messages.getLast?.all fun last => firstUid ≤ last.uid || last.uid ∉ s.fetched
    | _, _ => true
  | .hear =>
    match s.events with
    | (.mailboxPolled state, _) :: _ =>
      !s.lastHeard.any (· < state.uidNext) || s.commands.length < commandQueue
    | _ => true
  | _ => true

end Account

/-! ## 5. The replies that wait, and what they will order -/

/-- From which UIDs on the forwarder will have headers fetched, when it hears these events. -/
def toOrder : Option Nat → List ImapEvent → List Nat
  | _, [] => []
  | _, .connected :: events => toOrder none events
  | last, .mailboxPolled state :: events =>
    last.toList.filter (· < state.uidNext) ++ toOrder (some state.uidNext) events
  | last, _ :: events => toOrder last events

/-- The report that it will have heard last. -/
def lastAfter : Option Nat → List ImapEvent → Option Nat
  | last, [] => last
  | _, .connected :: events => lastAfter none events
  | _, .mailboxPolled state :: events => lastAfter (some state.uidNext) events
  | last, _ :: events => lastAfter last events

theorem toOrder_append (last : Option Nat) (es fs : List ImapEvent) :
    toOrder last (es ++ fs) = toOrder last es ++ toOrder (lastAfter last es) fs := by
  induction es generalizing last with
  | nil => rfl
  | cons e es ih =>
    cases e with
    | connected => exact ih none
    | disconnected => exact ih last
    | mailboxPolled state =>
      simp only [List.cons_append, toOrder, lastAfter, ih, List.append_assoc]
    | newHeaders headers => exact ih last
    | other => exact ih last

theorem lastAfter_append (last : Option Nat) (es fs : List ImapEvent) :
    lastAfter last (es ++ fs) = lastAfter (lastAfter last es) fs := by
  induction es generalizing last with
  | nil => rfl
  | cons e es ih =>
    cases e with
    | connected => exact ih none
    | disconnected => exact ih last
    | mailboxPolled state => exact ih (some state.uidNext)
    | newHeaders headers => exact ih last
    | other => exact ih last

/-- Replies that report nothing new order nothing. -/
theorem toOrder_of_reportsNew {last : Option Nat} {es : List ImapEvent}
    (h : reportsNew last es = false) : toOrder last es = [] := by
  induction es generalizing last with
  | nil => rfl
  | cons e es ih =>
    cases e with
    | connected => exact ih h
    | disconnected => exact ih h
    | mailboxPolled state =>
      simp only [reportsNew, Bool.or_eq_false_iff] at h
      have hlast : last.toList.filter (· < state.uidNext) = [] := by
        cases last with
        | none => rfl
        | some n => simpa using h.1
      simp only [toOrder, hlast, ih h.2, List.nil_append]
    | newHeaders headers => exact ih h
    | other => exact ih h

theorem toOrder_quiet {last : Option Nat} {es : List ImapEvent} (h : ∀ e ∈ es, e.quiet = true) :
    toOrder last es = [] ∧ (lastAfter last es = last ∨ lastAfter last es = none) := by
  induction es generalizing last with
  | nil => exact ⟨rfl, .inl rfl⟩
  | cons e es ih =>
    have hes := fun e he => h e (List.mem_cons_of_mem _ he)
    cases e with
    | connected => exact ⟨(ih hes).1, .inr ((ih hes).2.elim id id)⟩
    | disconnected => exact ih hes
    | mailboxPolled state => exact absurd (h _ List.mem_cons_self) (by simp [ImapEvent.quiet])
    | newHeaders headers => exact absurd (h _ List.mem_cons_self) (by simp [ImapEvent.quiet])
    | other => exact ih hes

theorem flatMap_uids_quiet {es : List ImapEvent} (h : ∀ e ∈ es, e.quiet = true) :
    es.flatMap ImapEvent.uids = [] := by
  refine List.flatMap_eq_nil_iff.mpr fun e he => ?_
  have hquiet := h e he
  cases e <;> first | rfl | exact absurd hquiet (by simp [ImapEvent.quiet])

namespace Account

/-- The fetches that are still to be made, in the order in which they will be. -/
def coming (s : Account) : List Nat := s.asked ++ toOrder s.lastHeard s.waiting

/-- The report that the forwarder will have heard last, when nothing waits any more. -/
def lastReport (s : Account) : Option Nat := lastAfter s.lastHeard s.waiting

/-! ## 6. What the runs keep -/

/-- A fetch brought the message, or it had left before one could, or one that asks for it is still to
be made. -/
def SeenTo (s : Account) (uid : Nat) : Prop :=
  uid ∈ s.fetched ∨ uid ∈ s.missed ∨ ∃ first ∈ s.asked, first ≤ uid

/-- The replies are true, and so is what was made of them. -/
structure Truthful (s : Account) : Prop where
  replies : ∀ state uidNext, (.mailboxPolled state, uidNext) ∈ s.events →
    state = ⟨s.mailbox.uidValidity, uidNext⟩ ∧ uidNext ≤ s.mailbox.uidNext
  watermark : ∀ w, s.forwarder.watermark = some w →
    w.uidValidity = s.mailbox.uidValidity ∧ w.uidNext ≤ s.mailbox.uidNext
  first : s.forwarder.watermark = none → s.first = none
  later : ∀ p ∈ s.later, p.2 ≤ s.mailbox.uidNext

/-- What arrived between two polls is seen to; so is what arrived since the first one, up to the
watermark. -/
structure Covered (s : Account) : Prop where
  kept : ∀ uid ∈ s.arrived, s.mailbox.has uid ∨ uid ∈ s.fetched ∨ uid ∈ s.missed
  later : ∀ p ∈ s.later, ∀ uid ∈ s.arrived, p.1 ≤ uid → uid < p.2 → s.SeenTo uid
  current : ∀ first last, s.first = some first → s.lastHeard = some last →
    ∀ uid ∈ s.arrived, first ≤ uid → uid < last → s.SeenTo uid

/-- At most one fetch is still to be made, and it asks for nothing that was fetched; the next one will
not either. -/
structure Once (s : Account) : Prop where
  nodup : s.fetched.Nodup
  assigned : ∀ uid ∈ s.fetched, uid < s.mailbox.uidNext
  reported : ∀ last, s.lastReport = some last → ∀ uid ∈ s.fetched, uid < last
  coming : s.coming = [] ∨ ∃ first, s.coming = [first] ∧ (∀ uid ∈ s.fetched, uid < first) ∧
    ∀ last, s.lastReport = some last → last = s.mailbox.uidNext
  announced : s.fetched = s.announced ++ s.waiting.flatMap ImapEvent.uids

/-- All of it. -/
structure Sound (s : Account) : Prop where
  truthful : Truthful s
  covered : Covered s
  once : Once s

theorem SeenTo.mono {s s' : Account} {uid : Nat} (h : s.SeenTo uid)
    (hfetched : ∀ u ∈ s.fetched, u ∈ s'.fetched) (hmissed : ∀ u ∈ s.missed, u ∈ s'.missed)
    (hasked : ∀ first ∈ s.asked, first ∈ s'.asked) : s'.SeenTo uid := by
  rcases h with h | h | ⟨first, hmem, hle⟩
  · exact .inl (hfetched _ h)
  · exact .inr (.inl (hmissed _ h))
  · exact .inr (.inr ⟨first, hasked first hmem, hle⟩)

/-! ### The queue -/

theorem asked_of_serving {s : Account} {command : ImapCommand} (h : s.serving = some command) :
    s.asked = command.firstUid.toList ++ s.commands.filterMap ImapCommand.firstUid := by
  simp only [asked, unserved, h, Option.toList_some, List.singleton_append, List.filterMap_cons]
  cases command.firstUid <;> rfl

theorem asked_of_idle {s : Account} (h : s.serving = none) :
    s.asked = s.commands.filterMap ImapCommand.firstUid := by
  simp only [asked, unserved, h, Option.toList_none, List.nil_append]

/-- A command that is accepted, or that asks for nothing. -/
theorem asked_trySend {s : Account} {command : ImapCommand}
    (h : s.commands.length < commandQueue ∨ command.firstUid = none) :
    (s.trySend command).asked = s.asked ++ command.firstUid.toList := by
  unfold trySend
  split
  · simp only [asked, unserved, List.filterMap_append, List.append_assoc, List.filterMap_cons,
      List.filterMap_nil]
    cases command.firstUid <;> rfl
  · next hfull => simp only [h.resolve_left hfull, Option.toList_none, List.append_nil]

/-- The queue may change, as long as the same is asked for. -/
theorem Sound.requeue {s : Account} (h : Sound s) (actor : ImapActor) (serving : Option ImapCommand)
    (commands : List ImapCommand)
    (hasked : ({ s with actor, serving, commands } : Account).asked = s.asked) :
    Sound { s with actor, serving, commands } := by
  have hseen : ∀ uid, s.SeenTo uid →
      ({ s with actor, serving, commands } : Account).SeenTo uid := fun uid hseen =>
    hseen.mono (fun _ hu => hu) (fun _ hu => hu) fun first hmem => hasked ▸ hmem
  have hcoming : ({ s with actor, serving, commands } : Account).coming = s.coming :=
    congrArg (· ++ toOrder s.lastHeard s.waiting) hasked
  refine ⟨⟨h.truthful.replies, h.truthful.watermark, h.truthful.first, h.truthful.later⟩,
    ⟨h.covered.kept, fun p hp uid hmem hle hlt => hseen uid (h.covered.later p hp uid hmem hle hlt),
      fun first last hfirst hlast uid hmem hle hlt =>
        hseen uid (h.covered.current first last hfirst hlast uid hmem hle hlt)⟩,
    ⟨h.once.nodup, h.once.assigned, h.once.reported, ?_, h.once.announced⟩⟩
  rw [hcoming]
  exact h.once.coming

theorem Sound.trySend {s : Account} (h : Sound s) {command : ImapCommand}
    (hcommand : command.firstUid = none) : Sound (s.trySend command) := by
  have hasked := asked_trySend (s := s) (.inr hcommand)
  rw [hcommand, Option.toList_none, List.append_nil] at hasked
  unfold Account.trySend at hasked ⊢
  split
  · next hroom =>
    rw [if_pos hroom] at hasked
    exact h.requeue s.actor s.serving _ hasked
  · exact h

/-! ### The channel -/

@[simp] theorem waiting_send (s : Account) (sent : List ImapEvent) :
    (s.send sent).waiting = s.waiting ++ sent := by
  simp [waiting, send, Function.comp_def]

@[simp] theorem lastReport_send (s : Account) (sent : List ImapEvent) :
    (s.send sent).lastReport = lastAfter s.lastReport sent := by
  rw [lastReport, waiting_send, lastAfter_append]
  rfl

@[simp] theorem coming_send (s : Account) (sent : List ImapEvent) :
    (s.send sent).coming = s.coming ++ toOrder s.lastReport sent := by
  rw [coming, waiting_send, toOrder_append, ← List.append_assoc]
  rfl

theorem Covered.send {s : Account} (h : Covered s) (sent : List ImapEvent) :
    Covered (s.send sent) := ⟨h.kept, h.later, h.current⟩

theorem Truthful.send {s : Account} (h : Truthful s) {sent : List ImapEvent}
    (hsent : ∀ state, .mailboxPolled state ∈ sent →
      state = ⟨s.mailbox.uidValidity, s.mailbox.uidNext⟩) : Truthful (s.send sent) := by
  refine ⟨fun state uidNext hmem => ?_, h.watermark, h.first, h.later⟩
  rcases List.mem_append.mp hmem with hmem | hmem
  · exact h.replies state uidNext hmem
  · obtain ⟨e, he, heq⟩ := List.mem_map.mp hmem
    obtain ⟨rfl, rfl⟩ := Prod.mk.inj heq
    exact ⟨hsent state he, le_refl _⟩

/-- Events that bring nothing. -/
theorem Sound.sendQuiet {s : Account} (h : Sound s) {sent : List ImapEvent}
    (hsent : ∀ e ∈ sent, e.quiet = true) : Sound (s.send sent) := by
  obtain ⟨horder, hlast⟩ := @toOrder_quiet s.lastReport sent hsent
  have hreport : ∀ last, (s.send sent).lastReport = some last → s.lastReport = some last := by
    intro last hsome
    rw [lastReport_send] at hsome
    rcases hlast with hsame | hnone
    · exact hsame.symm.trans hsome
    · exact absurd (hnone.symm.trans hsome) (by simp)
  refine ⟨h.truthful.send fun state hmem => absurd (hsent _ hmem) (by simp [ImapEvent.quiet]),
    h.covered.send sent, ⟨h.once.nodup, h.once.assigned,
      fun last hsome => h.once.reported last (hreport last hsome), ?_, ?_⟩⟩
  · rw [coming_send, horder, List.append_nil]
    rcases h.once.coming with hnone | ⟨first, hone, hbelow, hlast⟩
    · exact .inl hnone
    · exact .inr ⟨first, hone, hbelow, fun last hsome => hlast last (hreport last hsome)⟩
  · rw [waiting_send, List.flatMap_append, flatMap_uids_quiet hsent, List.append_nil]
    exact h.once.announced

/-- A poll is answered. -/
theorem Sound.sendReply {s : Account} (h : Sound s) :
    Sound (s.send [.mailboxPolled ⟨s.mailbox.uidValidity, s.mailbox.uidNext⟩]) := by
  have hlast := lastReport_send s [.mailboxPolled ⟨s.mailbox.uidValidity, s.mailbox.uidNext⟩]
  have hnow : ∀ last,
      (s.send [.mailboxPolled ⟨s.mailbox.uidValidity, s.mailbox.uidNext⟩]).lastReport = some last →
      last = s.mailbox.uidNext := fun last hsome => (Option.some.inj (hlast.symm.trans hsome)).symm
  refine ⟨h.truthful.send fun state hmem =>
      ImapEvent.mailboxPolled.inj (List.mem_singleton.mp hmem),
    h.covered.send _, ⟨h.once.nodup, h.once.assigned, fun last hsome uid hmem => ?_, ?_, ?_⟩⟩
  · rw [hnow last hsome]
    exact h.once.assigned uid hmem
  · rw [coming_send]
    cases hreport : s.lastReport with
    | none =>
      rcases h.once.coming with hnone | ⟨first, hone, hbelow, -⟩
      · exact .inl (by rw [hnone]; rfl)
      · exact .inr ⟨first, by rw [hone]; rfl, hbelow, hnow⟩
    | some last =>
      rcases h.once.coming with hnone | ⟨first, hone, hbelow, hsame⟩
      · by_cases hnew : last < s.mailbox.uidNext
        · exact .inr ⟨last, by simp [hnone, toOrder, hnew], h.once.reported last hreport, hnow⟩
        · exact .inl (by simp [hnone, toOrder, hnew])
      · obtain rfl := hsame last hreport
        exact .inr ⟨first, by simp [hone, toOrder], hbelow, hnow⟩
  · rw [waiting_send, List.flatMap_append]
    exact h.once.announced.trans (congrArg (s.announced ++ ·) (List.append_nil _).symm)

/-! ### A fetch -/

theorem fetchNewHeaders_sublist (m : Mailbox) (first : Nat) :
    (Cache.fetchNewHeaders m first).Sublist m.messages := by
  unfold Cache.fetchNewHeaders
  split
  · cases hlast : m.messages.getLast? with
    | none => exact List.nil_sublist _
    | some last => exact List.singleton_sublist.mpr (List.mem_of_getLast? hlast)
  · exact List.filter_sublist

/-- Only the last message is fetched without being asked for. -/
theorem asked_or_last {m : Mailbox} {first : Nat} {header : MailHeader}
    (h : header ∈ Cache.fetchNewHeaders m first) :
    first ≤ header.uid ∨ m.messages.getLast? = some header := by
  unfold Cache.fetchNewHeaders at h
  split at h
  · exact .inr (Option.mem_toList.mp h)
  · exact .inl (by simpa using (List.mem_filter.mp h).2)

/-- What a fetch of new headers makes of the state. -/
def fetch (s : Account) (firstUid : Nat) : Account :=
  { s.send [.newHeaders (Cache.fetchNewHeaders s.mailbox firstUid)] with
    serving := none
    fetched := s.fetched ++ uids (Cache.fetchNewHeaders s.mailbox firstUid) }

theorem waiting_fetch (s : Account) (firstUid : Nat) : (s.fetch firstUid).waiting =
    s.waiting ++ [.newHeaders (Cache.fetchNewHeaders s.mailbox firstUid)] := waiting_send s _

/-- While a fetch is served, no other one waits, and none will be ordered by what waits. -/
theorem Once.alone {s : Account} (h : Once s) {firstUid : Nat}
    (hserving : s.serving = some (.fetchNewHeaders firstUid)) :
    s.asked = [firstUid] ∧ s.commands.filterMap ImapCommand.firstUid = [] ∧
      toOrder s.lastHeard s.waiting = [] ∧ (∀ uid ∈ s.fetched, uid < firstUid) ∧
        ∀ last, s.lastReport = some last → last = s.mailbox.uidNext := by
  have hasked : s.asked = firstUid :: s.commands.filterMap ImapCommand.firstUid :=
    asked_of_serving hserving
  have hcoming := h.coming
  rw [Account.coming, hasked, List.cons_append] at hcoming
  rcases hcoming with hnone | ⟨first, hone, hbelow, hreport⟩
  · exact absurd hnone (by simp)
  · obtain ⟨rfl, hnil⟩ := List.cons.inj hone
    obtain ⟨hrest, horder⟩ := List.append_eq_nil_iff.mp hnil
    exact ⟨by rw [hasked, hrest], hrest, horder, hbelow, hreport⟩

theorem has_of_fetched {m : Mailbox} {first uid : Nat}
    (h : uid ∈ uids (Cache.fetchNewHeaders m first)) : m.has uid :=
  ((fetchNewHeaders_sublist m first).map MailHeader.uid).subset h

theorem Covered.fetch {s : Account} (h : Covered s) {firstUid : Nat}
    (hasked : s.asked = [firstUid]) : Covered (s.fetch firstUid) := by
  have hseen : ∀ uid ∈ s.arrived, s.SeenTo uid → (s.fetch firstUid).SeenTo uid := by
    intro uid harrived hseen
    rcases hseen with hmem | hmem | ⟨first, hmem, hle⟩
    · exact .inl (List.mem_append_left _ hmem)
    · exact .inr (.inl hmem)
    · rw [hasked, List.mem_singleton] at hmem
      rcases h.kept uid harrived with hhas | hmem' | hmem'
      · exact .inl (List.mem_append_right _ (Cache.mem_fetchNewHeaders hhas (hmem ▸ hle)))
      · exact .inl (List.mem_append_left _ hmem')
      · exact .inr (.inl hmem')
  refine ⟨fun uid hmem => ?_, fun p hp uid hmem hle hlt => hseen uid hmem (h.later p hp uid hmem hle hlt),
    fun first last hfirst hheard uid hmem hle hlt =>
      hseen uid hmem (h.current first last hfirst hheard uid hmem hle hlt)⟩
  rcases h.kept uid hmem with hhas | hfetched | hmissed
  · exact .inl hhas
  · exact .inr (.inl (List.mem_append_left _ hfetched))
  · exact .inr (.inr hmissed)

/-- A fetch of new headers succeeds. -/
theorem Once.fetch {s : Account} (h : Once s) {firstUid : Nat}
    (hserving : s.serving = some (.fetchNewHeaders firstUid))
    (hlast : ∀ last, s.mailbox.messages.getLast? = some last →
      firstUid ≤ last.uid ∨ last.uid ∉ s.fetched) : Once (s.fetch firstUid) := by
  obtain ⟨-, hrest, horder, hbelow, hreport⟩ := h.alone hserving
  have hfresh : ∀ uid ∈ uids (Cache.fetchNewHeaders s.mailbox firstUid), uid ∉ s.fetched := by
    intro uid hmem hfetched
    obtain ⟨header, hheader, rfl⟩ := mem_uids.mp hmem
    have hlt := hbelow _ hfetched
    have hold : ¬firstUid ≤ header.uid := by omega
    exact (hlast header ((asked_or_last hheader).resolve_left hold)).elim hold (· hfetched)
  refine ⟨?_, fun uid hmem => ?_, fun last hsome uid hmem => ?_, .inl ?_, ?_⟩
  · refine List.nodup_append.mpr ⟨h.nodup, ?_, fun a ha b hb hab => hfresh b hb (hab ▸ ha)⟩
    exact ((fetchNewHeaders_sublist _ _).map MailHeader.uid).nodup
      (s.mailbox.ascending.imp fun hlt => Nat.ne_of_lt hlt)
  · rcases List.mem_append.mp hmem with hmem | hmem
    · exact h.assigned uid hmem
    · exact s.mailbox.assigned uid (has_of_fetched hmem)
  · have hsome : s.lastReport = some last :=
      (lastReport_send s [.newHeaders (Cache.fetchNewHeaders s.mailbox firstUid)]).symm.trans hsome
    rcases List.mem_append.mp hmem with hmem | hmem
    · exact h.reported last hsome uid hmem
    · rw [hreport last hsome]
      exact s.mailbox.assigned uid (has_of_fetched hmem)
  · refine List.append_eq_nil_iff.mpr ⟨hrest, ?_⟩
    rw [waiting_fetch, toOrder_append]
    exact List.append_eq_nil_iff.mpr ⟨horder, rfl⟩
  · rw [waiting_fetch, List.flatMap_append, List.flatMap_singleton, ← List.append_assoc]
    exact congrArg (· ++ uids (Cache.fetchNewHeaders s.mailbox firstUid)) h.announced

theorem Sound.fetch {s : Account} (h : Sound s) {firstUid : Nat}
    (hserving : s.serving = some (.fetchNewHeaders firstUid))
    (hlast : ∀ last, s.mailbox.messages.getLast? = some last →
      firstUid ≤ last.uid ∨ last.uid ∉ s.fetched) : Sound (s.fetch firstUid) := by
  have htruthful : Truthful (s.send [.newHeaders (Cache.fetchNewHeaders s.mailbox firstUid)]) :=
    h.truthful.send fun state hmem => absurd (List.mem_singleton.mp hmem) (by simp)
  exact ⟨⟨htruthful.replies, htruthful.watermark, htruthful.first, htruthful.later⟩,
    h.covered.fetch (h.once.alone hserving).1, h.once.fetch hserving hlast⟩

/-! ### The mailbox -/

theorem Truthful.lastHeard_le {s : Account} (h : Truthful s) {last : Nat}
    (hlast : s.lastHeard = some last) : last ≤ s.mailbox.uidNext := by
  obtain ⟨w, hw, rfl⟩ := Option.map_eq_some_iff.mp hlast
  exact (h.watermark w hw).2

theorem uidValidity_arrive {m m' : Mailbox} {header : MailHeader} (h : m.arrive header = some m') :
    m'.uidValidity = m.uidValidity := by
  unfold Mailbox.arrive at h
  split at h
  · exact (Option.some.inj h) ▸ rfl
  · exact absurd h (by simp)

/-- A message arrives, and no fetch is still to be made. -/
theorem Sound.arrive {s : Account} (h : Sound s) {header : MailHeader} {mailbox : Mailbox}
    (harrive : s.mailbox.arrive header = some mailbox) (hcoming : s.coming = []) :
    Sound { s with mailbox, arrived := s.arrived ++ [header.uid] } := by
  obtain ⟨hnew, hnext⟩ := Mailbox.uidNext_arrive harrive
  have hmono : s.mailbox.uidNext ≤ mailbox.uidNext := by omega
  have hvalid := uidValidity_arrive harrive
  have hhas := fun uid => Mailbox.has_arrive harrive (u := uid)
  refine ⟨⟨fun state uidNext hmem => ?_, fun w hw => ?_, h.truthful.first, fun p hp => ?_⟩,
    ⟨fun uid hmem => ?_, fun p hp uid hmem hle hlt => ?_,
      fun first last hfirst hheard uid hmem hle hlt => ?_⟩,
    ⟨h.once.nodup, fun uid hmem => ?_, h.once.reported, .inl hcoming, h.once.announced⟩⟩
  · obtain ⟨hstate, hbound⟩ := h.truthful.replies state uidNext hmem
    exact ⟨hstate.trans (by rw [hvalid]), hbound.trans hmono⟩
  · obtain ⟨hw1, hw2⟩ := h.truthful.watermark w hw
    exact ⟨hw1.trans hvalid.symm, hw2.trans hmono⟩
  · exact (h.truthful.later p hp).trans hmono
  · rcases List.mem_append.mp hmem with hmem | hmem
    · exact (h.covered.kept uid hmem).imp_left fun hold => (hhas uid).mpr (.inl hold)
    · exact .inl ((hhas uid).mpr (.inr (List.mem_singleton.mp hmem)))
  · rcases List.mem_append.mp hmem with hmem | hmem
    · exact h.covered.later p hp uid hmem hle hlt
    · -- what was polled before is below its UID
      have hbound := h.truthful.later p hp
      obtain rfl := List.mem_singleton.mp hmem
      omega
  · rcases List.mem_append.mp hmem with hmem | hmem
    · exact h.covered.current first last hfirst hheard uid hmem hle hlt
    · have hbound := h.truthful.lastHeard_le hheard
      obtain rfl := List.mem_singleton.mp hmem
      omega
  · exact (h.once.assigned uid hmem).trans_le hmono

/-- A message leaves. -/
theorem Sound.expunge {s : Account} (h : Sound s) (uid : Nat) :
    Sound
      { s with
        mailbox := s.mailbox.expunge uid
        missed := if s.mailbox.has uid ∧ uid ∉ s.fetched then s.missed ++ [uid] else s.missed } := by
  have hmissed : ∀ u ∈ s.missed,
      u ∈ if s.mailbox.has uid ∧ uid ∉ s.fetched then s.missed ++ [uid] else s.missed := by
    intro u hu
    split
    · exact List.mem_append_left _ hu
    · exact hu
  have hseen : ∀ u, s.SeenTo u →
      SeenTo
        { s with
          mailbox := s.mailbox.expunge uid
          missed := if s.mailbox.has uid ∧ uid ∉ s.fetched then s.missed ++ [uid] else s.missed }
        u := fun u hseen => hseen.mono (fun _ hu => hu) hmissed fun _ hf => hf
  refine ⟨⟨h.truthful.replies, h.truthful.watermark, h.truthful.first, h.truthful.later⟩,
    ⟨fun u hmem => ?_, fun p hp u hmem hle hlt => hseen u (h.covered.later p hp u hmem hle hlt),
      fun first last hfirst hheard u hmem hle hlt =>
        hseen u (h.covered.current first last hfirst hheard u hmem hle hlt)⟩,
    ⟨h.once.nodup, h.once.assigned, h.once.reported, h.once.coming, h.once.announced⟩⟩
  rcases h.covered.kept u hmem with hhas | hfetched | hmiss
  · by_cases hu : u = uid
    · obtain rfl := hu
      by_cases hfetched : u ∈ s.fetched
      · exact .inr (.inl hfetched)
      · refine .inr (.inr ?_)
        simp only [hhas, hfetched, not_false_eq_true, and_self, if_true]
        exact List.mem_append_right _ List.mem_cons_self
    · exact .inl (Mailbox.has_expunge.mpr ⟨hhas, hu⟩)
  · exact .inr (.inl hfetched)
  · exact .inr (.inr (hmissed u hmiss))

/-! ### What is heard -/

/-- An event that leaves the watermark as it is. -/
theorem Sound.hearPlain {s : Account} (h : Sound s) {e : ImapEvent} {uidNext : Nat}
    {rest : List (ImapEvent × Nat)} (hevents : s.events = (e, uidNext) :: rest)
    (hplain : ∀ last es, toOrder last (e :: es) = toOrder last es ∧
      lastAfter last (e :: es) = lastAfter last es)
    (connected : Bool) (toasts : List (String × String)) :
    Sound
      { s with
        events := rest
        forwarder := { s.forwarder with connected }
        toasts
        announced := s.announced ++ e.uids } := by
  have hwaiting : s.waiting = e :: rest.map Prod.fst := by rw [waiting, hevents]; rfl
  refine ⟨⟨fun state t hmem => h.truthful.replies state t (hevents ▸ List.mem_cons_of_mem _ hmem),
      h.truthful.watermark, h.truthful.first, h.truthful.later⟩,
    ⟨h.covered.kept, h.covered.later, h.covered.current⟩,
    ⟨h.once.nodup, h.once.assigned, ?_, ?_, ?_⟩⟩
  · have hreported := h.once.reported
    rw [lastReport, hwaiting, (hplain _ _).2] at hreported
    exact hreported
  · have hcoming := h.once.coming
    rw [coming, lastReport, hwaiting, (hplain _ _).1, (hplain _ _).2] at hcoming
    exact hcoming
  · rw [h.once.announced, hwaiting, List.flatMap_cons, ← List.append_assoc]
    rfl

/-- The account is connected again. -/
theorem Sound.hearConnected {s : Account} (h : Sound s) {uidNext : Nat}
    {rest : List (ImapEvent × Nat)} (hevents : s.events = (.connected, uidNext) :: rest)
    (toasts : List (String × String)) :
    Sound
      { s with
        events := rest
        first := none
        forwarder := { s.forwarder with connected := true, watermark := none }
        toasts } := by
  have hwaiting : s.waiting = .connected :: rest.map Prod.fst := by rw [waiting, hevents]; rfl
  refine ⟨⟨fun state t hmem => h.truthful.replies state t (hevents ▸ List.mem_cons_of_mem _ hmem),
      fun w hw => absurd hw (by simp), fun _ => rfl, h.truthful.later⟩,
    ⟨h.covered.kept, h.covered.later, fun first _ hfirst => absurd hfirst (by simp)⟩,
    ⟨h.once.nodup, h.once.assigned, ?_, ?_, ?_⟩⟩
  · have hreported := h.once.reported
    rw [lastReport, hwaiting] at hreported
    exact hreported
  · have hcoming := h.once.coming
    rw [coming, lastReport, hwaiting] at hcoming
    exact hcoming
  · rw [h.once.announced, hwaiting]
    rfl

/-- Which polls there have been, after one more. -/
theorem note_reply (s : Account) (state : MailboxState) (uidNext : Nat) :
    ∃ first later, s.note (.mailboxPolled state) uidNext = { s with first, later } ∧
      (∀ n, first = some n → s.first = some n ∨ n = uidNext) ∧
        ∀ p ∈ later, p ∈ s.later ∨ s.first = some p.1 ∧ p.2 = uidNext := by
  cases hfirst : s.first with
  | none =>
    refine ⟨some uidNext, s.later, by simp only [note, hfirst], fun n hn => ?_, fun p hp => .inl hp⟩
    exact .inr (Option.some.inj hn).symm
  | some first =>
    refine ⟨some first, s.later ++ [(first, uidNext)], by simp only [note, hfirst],
      fun n hn => .inl hn, fun p hp => ?_⟩
    rcases List.mem_append.mp hp with hp | hp
    · exact .inl hp
    · obtain rfl := List.mem_singleton.mp hp
      exact .inr ⟨rfl, rfl⟩

/-- What a reply makes of the queue and the watermark, where the queue has room. -/
theorem hear_reply {s : Account} {state : MailboxState} (uidNext : Nat)
    (hvalid : ∀ w, s.forwarder.watermark = some w → w.uidValidity = state.uidValidity)
    (hroom : ∀ last, s.lastHeard = some last → last < state.uidNext →
      s.commands.length < commandQueue) :
    ∃ commands first later, s.hear (.mailboxPolled state) uidNext =
        { s with
          commands
          forwarder := { s.forwarder with watermark := some ⟨state.uidValidity, state.uidNext⟩ }
          first
          later } ∧
      ({ s with commands } : Account).asked =
        s.asked ++ s.lastHeard.toList.filter (· < state.uidNext) ∧
      (∀ n, first = some n → s.first = some n ∨ n = uidNext) ∧
        ∀ p ∈ later, p ∈ s.later ∨ s.first = some p.1 ∧ p.2 = uidNext := by
  obtain ⟨first, later, hnote, hfirst, hlater⟩ := note_reply s state uidNext
  cases hw : s.forwarder.watermark with
  | none =>
    refine ⟨s.commands, first, later, ?_, by simp [lastHeard, hw], hfirst, hlater⟩
    simp [hear, Forwarder.react, hw, firstNewUid_none, hnote, updateWatermark_keeps]
  | some w =>
    have hupdate := @firstNewUid_some w ⟨state.uidValidity, state.uidNext⟩ (hvalid w hw)
    by_cases hnew : w.uidNext < state.uidNext
    · have hfree := hroom w.uidNext (by simp [lastHeard, hw]) hnew
      refine ⟨s.commands ++ [.fetchNewHeaders w.uidNext], first, later, ?_, ?_, hfirst, hlater⟩
      · simp [hear, Forwarder.react, hw, hupdate, hnew, hnote, updateWatermark_keeps, trySend, hfree]
      · have hasked : (s.trySend (.fetchNewHeaders w.uidNext)).asked = s.asked ++ [w.uidNext] :=
          asked_trySend (.inl hfree)
        rw [trySend, if_pos hfree] at hasked
        simpa [lastHeard, hw, hnew, ImapCommand.firstUid] using hasked
    · refine ⟨s.commands, first, later, ?_, by simp [lastHeard, hw, hnew], hfirst, hlater⟩
      simp [hear, Forwarder.react, hw, hupdate, hnew, hnote, updateWatermark_keeps]

/-- A reply is heard, and the queue has room for the fetch it leads to. -/
theorem Sound.hearReply {s : Account} (h : Sound s) {state : MailboxState} {uidNext : Nat}
    {rest : List (ImapEvent × Nat)} (hevents : s.events = (.mailboxPolled state, uidNext) :: rest)
    {commands : List ImapCommand} (hasked : ({ s with commands } : Account).asked =
      s.asked ++ s.lastHeard.toList.filter (· < state.uidNext))
    {first : Option Nat} (hfirst : ∀ n, first = some n → s.first = some n ∨ n = uidNext)
    {later : List (Nat × Nat)}
    (hlater : ∀ p ∈ later, p ∈ s.later ∨ s.first = some p.1 ∧ p.2 = uidNext) :
    Sound
      { s with
        events := rest
        commands
        forwarder :=
          { s.forwarder with watermark := some ⟨state.uidValidity, state.uidNext⟩ }
        first
        later } := by
  have hwaiting : s.waiting = .mailboxPolled state :: rest.map Prod.fst := by
    rw [waiting, hevents]; rfl
  obtain ⟨rfl, hbound⟩ := h.truthful.replies state uidNext (hevents ▸ List.mem_cons_self)
  have hmono : ∀ uid, s.SeenTo uid → ({ s with commands } : Account).SeenTo uid := fun uid hseen =>
    hseen.mono (fun _ hu => hu) (fun _ hu => hu) fun f hf => hasked ▸ List.mem_append_left _ hf
  -- what arrived since the first poll is seen to: below the watermark it was, above it is asked for
  have hsince : ∀ b, s.first = some b → ∀ uid ∈ s.arrived, b ≤ uid → uid < uidNext →
      ({ s with commands } : Account).SeenTo uid := by
    intro b hb uid hmem hle hlt
    cases hheard : s.lastHeard with
    | none =>
      have hnone := h.truthful.first (Option.map_eq_none_iff.mp hheard)
      exact absurd (hnone.symm.trans hb) (by simp)
    | some last =>
      by_cases hold : uid < last
      · exact hmono uid (h.covered.current b last hb hheard uid hmem hle hold)
      · refine .inr (.inr ⟨last, ?_, by omega⟩)
        rw [hasked, hheard]
        exact List.mem_append_right _ (by simp; omega)
  refine ⟨⟨fun st t hmem => h.truthful.replies st t (hevents ▸ List.mem_cons_of_mem _ hmem),
      fun w hw => ?_, fun hnone => absurd hnone (by simp), fun p hp => ?_⟩,
    ⟨h.covered.kept, fun p hp uid hmem hle hlt => ?_, fun b last hb hheard uid hmem hle hlt => ?_⟩,
    ⟨h.once.nodup, h.once.assigned, ?_, ?_, ?_⟩⟩
  · obtain rfl := Option.some.inj hw
    exact ⟨rfl, hbound⟩
  · rcases hlater p hp with hold | ⟨-, hnow⟩
    · exact h.truthful.later p hold
    · exact hnow.trans_le hbound
  · rcases hlater p hp with hold | ⟨hb, hnow⟩
    · exact hmono uid (h.covered.later p hold uid hmem hle hlt)
    · exact hsince p.1 hb uid hmem hle (hnow ▸ hlt)
  · obtain rfl := Option.some.inj hheard
    rcases hfirst b hb with hold | rfl
    · exact hsince b hold uid hmem hle hlt
    · exact absurd hlt (by simpa using hle)
  · have hreported := h.once.reported
    rw [lastReport, hwaiting] at hreported
    exact hreported
  · have hcoming := h.once.coming
    rw [coming, lastReport, hwaiting, toOrder, ← List.append_assoc, ← hasked] at hcoming
    exact hcoming
  · rw [h.once.announced, hwaiting]
    rfl

/-- What was fetched is announced; there is no toast where nothing was. -/
theorem announced_newHeaders (announced : List Nat) (label : String) (headers : List MailHeader) :
    (if (buildAccountNotification label headers).isSome then
        announced ++ ImapEvent.uids (.newHeaders headers)
      else announced) = announced ++ ImapEvent.uids (.newHeaders headers) := by
  rw [isSome_buildAccountNotification]
  cases headers with
  | nil => exact (List.append_nil _).symm
  | cons header headers => rfl

theorem Sound.hear {s : Account} (h : Sound s) {e : ImapEvent} {uidNext : Nat}
    {rest : List (ImapEvent × Nat)} (hevents : s.events = (e, uidNext) :: rest)
    (hroom : ∀ state last, e = .mailboxPolled state → s.lastHeard = some last →
      last < state.uidNext → s.commands.length < commandQueue) :
    Sound (({ s with events := rest } : Account).hear e uidNext) := by
  cases e with
  | connected => exact h.hearConnected hevents _
  | disconnected =>
    have hplain := h.hearPlain hevents (fun _ _ => ⟨rfl, rfl⟩) false (s.toasts ++ [])
    rw [show s.announced ++ ImapEvent.disconnected.uids = s.announced from List.append_nil _] at hplain
    exact hplain
  | other =>
    have hplain := h.hearPlain hevents (fun _ _ => ⟨rfl, rfl⟩) s.forwarder.connected (s.toasts ++ [])
    rw [show s.announced ++ ImapEvent.other.uids = s.announced from List.append_nil _] at hplain
    exact hplain
  | newHeaders headers =>
    have hplain := h.hearPlain hevents (fun _ _ => ⟨rfl, rfl⟩) s.forwarder.connected
      (s.toasts ++ (buildAccountNotification s.label headers).toList)
    rw [← announced_newHeaders s.announced s.label headers] at hplain
    exact hplain
  | mailboxPolled state =>
    obtain ⟨hstate, -⟩ := h.truthful.replies state uidNext (hevents ▸ List.mem_cons_self)
    obtain ⟨commands, first, later, heq, hasked, hfirst, hlater⟩ := hear_reply (s := { s with events := rest }) uidNext
      (fun w hw => (h.truthful.watermark w hw).1.trans (by rw [hstate]))
      (fun last hlast hlt => hroom state last rfl hlast hlt)
    rw [heq]
    exact h.hearReply hevents hasked hfirst hlater

/-! ## 7. Each message is fetched, and announced once -/

theorem asked_of_undisturbed {s : Account} {header : MailHeader}
    (h : s.undisturbed (.arrive header) = true) : s.coming = [] := by
  obtain ⟨hasked, hreports⟩ := Bool.and_eq_true_iff.mp h
  refine List.append_eq_nil_iff.mpr ⟨List.isEmpty_iff.mp hasked, toOrder_of_reportsNew ?_⟩
  simpa using hreports

/-- A command that is no fetch is served: the events it sends bring nothing, or are the answer of a
poll. -/
theorem Sound.serveOther {s : Account} (h : Sound s) {command : ImapCommand}
    (hserving : s.serving = some command) (hcommand : command.firstUid = none) (actor : ImapActor)
    {sent : List ImapEvent}
    (hsent : (∀ e ∈ sent, e.quiet = true) ∨
      sent = [.mailboxPolled ⟨s.mailbox.uidValidity, s.mailbox.uidNext⟩]) :
    Sound
      { s.send sent with
        actor
        serving := none
        fetched := s.fetched ++ sent.flatMap ImapEvent.uids } := by
  have hnothing : sent.flatMap ImapEvent.uids = [] := by
    rcases hsent with hquiet | rfl
    · exact flatMap_uids_quiet hquiet
    · rfl
  have hafter : Sound (s.send sent) := hsent.elim h.sendQuiet fun heq => heq ▸ h.sendReply
  have hasked := asked_of_serving (s := s.send sent) hserving
  rw [hcommand, Option.toList_none, List.nil_append] at hasked
  rw [hnothing, List.append_nil]
  exact hafter.requeue actor none s.commands ((asked_of_idle rfl).trans hasked.symm)

/-- The events of a command that begins with `ensure_connected`. -/
theorem quiet_ensureConnected (a : ImapActor) (reached : Bool) :
    ∀ e ∈ (a.ensureConnected reached).2, e.quiet = true := by
  unfold ImapActor.ensureConnected
  split
  · simp
  · split
    · split <;> simp [ImapEvent.quiet]
    · simp

/-- What a command that is no fetch sends. -/
theorem sent_of_serve {a a' : ImapActor} {mailbox : Mailbox} {command : ImapCommand}
    {answer : Answer} {sent : List ImapEvent} (hcommand : command.firstUid = none)
    (h : a.serve mailbox command answer = some (a', sent)) :
    (∀ e ∈ sent, e.quiet = true) ∨ ∃ uidNext, command = .pollMailbox ∧ answer = .examined uidNext ∧
      sent = [.mailboxPolled ⟨mailbox.uidValidity, uidNext.getD 0⟩] := by
  cases command with
  | fetchNewHeaders firstUid => exact absurd hcommand (by simp [ImapCommand.firstUid])
  | pollMailbox =>
    simp only [ImapActor.serve] at h
    split at h
    · cases answer with
      | examined uidNext => exact .inr ⟨uidNext, rfl, rfl, (Prod.mk.inj (Option.some.inj h)).2.symm⟩
      | failed => exact .inl ((Prod.mk.inj (Option.some.inj h)).2 ▸ by simp)
      | done => exact absurd h (by simp)
      | unreachable => exact absurd h (by simp)
    · exact .inl ((Prod.mk.inj (Option.some.inj h)).2 ▸ by simp)
  | connect =>
    cases answer with
    | done => exact .inl ((Prod.mk.inj (Option.some.inj h)).2 ▸ by simp [ImapEvent.quiet])
    | failed => exact .inl ((Prod.mk.inj (Option.some.inj h)).2 ▸ by simp)
    | examined uidNext => exact absurd h (by simp [ImapActor.serve])
    | unreachable => exact absurd h (by simp [ImapActor.serve])
  | onSession =>
    cases answer with
    | done =>
      have hsent : (a.ensureConnected true).2 = sent := congrArg Prod.snd (Option.some.inj h)
      exact .inl (hsent ▸ quiet_ensureConnected a true)
    | failed =>
      have hsent : (a.ensureConnected true).2 = sent := congrArg Prod.snd (Option.some.inj h)
      exact .inl (hsent ▸ quiet_ensureConnected a true)
    | unreachable =>
      have hsent : (a.ensureConnected false).2 = sent := congrArg Prod.snd (Option.some.inj h)
      exact .inl (hsent ▸ quiet_ensureConnected a false)
    | examined uidNext => exact absurd h (by simp [ImapActor.serve])
  | handedOn => exact .inl ((Prod.mk.inj (Option.some.inj h)).2 ▸ by simp)

theorem Sound.serve {s s' : Account} {answer : Answer} (h : Sound s)
    (hok : s.undisturbed (.serve answer) = true) (hst : s.step (.serve answer) = some s') :
    Sound s' := by
  cases hserving : s.serving with
  | none => simp [Account.step, hserving] at hst
  | some command =>
    simp only [Account.step, hserving] at hst
    obtain ⟨⟨actor, sent⟩, hserve, rfl⟩ := Option.map_eq_some_iff.mp hst
    cases hcommand : command.firstUid with
    | none =>
      refine h.serveOther hserving hcommand actor ?_
      rcases sent_of_serve hcommand hserve with hquiet | ⟨uidNext, rfl, rfl, rfl⟩
      · exact .inl hquiet
      · simp only [undisturbed, hserving, decide_eq_true_eq] at hok
        exact .inr (by rw [hok]; rfl)
    | some firstUid =>
      obtain rfl : command = .fetchNewHeaders firstUid := by
        cases command <;> simp_all [ImapCommand.firstUid]
      simp only [undisturbed, hserving, Bool.and_eq_true, decide_eq_true_eq] at hok
      obtain ⟨⟨hsession, rfl⟩, hlast⟩ := hok
      simp only [ImapActor.serve, hsession, if_true, Option.some.injEq, Prod.mk.injEq] at hserve
      obtain ⟨rfl, rfl⟩ := hserve
      rw [List.flatMap_singleton]
      refine h.fetch hserving fun last hend => ?_
      simpa [hend] using hlast

theorem Sound.step {s s' : Account} {a : Action} (h : Sound s) (hok : s.undisturbed a = true)
    (hst : s.step a = some s') : Sound s' := by
  cases a with
  | arrive header =>
    obtain ⟨mailbox, harrive, rfl⟩ := Option.map_eq_some_iff.mp hst
    exact h.arrive harrive (asked_of_undisturbed hok)
  | expunge uid => exact Option.some.inj hst ▸ h.expunge uid
  | order command =>
    cases hforwarder : command.ofForwarder with
    | true => exact absurd hst (by simp [Account.step, hforwarder])
    | false =>
      have hcommand : command.firstUid = none := by
        cases command with
        | fetchNewHeaders firstUid => exact absurd hforwarder (by simp [ImapCommand.ofForwarder])
        | pollMailbox | connect | onSession | handedOn => rfl
      simp only [Account.step, hforwarder, Bool.false_eq_true, if_false] at hst
      exact Option.some.inj hst ▸ h.trySend hcommand
  | wake =>
    obtain rfl := Option.some.inj hst
    split
    · exact h.trySend rfl
    · exact h
  | take =>
    simp only [Account.step] at hst
    split at hst
    · next command commands hserving hcommands =>
      obtain rfl := Option.some.inj hst
      refine h.requeue s.actor (some command) commands ?_
      rw [asked_of_idle hserving, hcommands]
      exact (asked_of_serving rfl).trans (by cases hc : command.firstUid <;> simp [hc])
    · exact absurd hst (by simp)
  | serve answer => exact h.serve hok hst
  | send =>
    exact Option.some.inj hst ▸ h.sendQuiet fun e he => (List.mem_singleton.mp he) ▸ rfl
  | hear =>
    simp only [Account.step] at hst
    split at hst
    · exact absurd hst (by simp)
    · next e uidNext rest hevents =>
      obtain rfl := Option.some.inj hst
      refine h.hear hevents fun state last he hlast hlt => ?_
      subst he
      simpa [undisturbed, hevents, hlast, hlt] using hok

theorem Sound.of_reach {s : Account} (h : machine.Reach (fun s a => s.undisturbed a = true) s) :
    Sound s := by
  refine h.invariant (P := Sound) ?_ fun s a s' _ hsound hok hst => hsound.step hok hst
  rintro s ⟨label, mailbox, rfl⟩
  exact
    { truthful := ⟨fun _ _ hmem => absurd hmem (by simp), fun _ hw => absurd hw (by simp),
        fun _ => rfl, fun _ hp => absurd hp (by simp)⟩
      covered := ⟨fun _ hmem => absurd hmem (by simp), fun _ hp => absurd hp (by simp),
        fun _ _ hfirst => absurd hfirst (by simp)⟩
      once := ⟨List.nodup_nil, fun _ hmem => absurd hmem (by simp),
        fun _ _ _ hmem => absurd hmem (by simp), .inl rfl, rfl⟩ }

/-- Every message that arrived after the first poll since the account was connected, and before a later
one, is fetched, or has left before it could be, or a fetch of it is still to be made; and it is
announced at most once. -/
theorem new_mail_announced_once {s : Account}
    (h : machine.Reach (fun s a => s.undisturbed a = true) s) :
    ∀ p ∈ s.later, ∀ uid ∈ s.arrived, p.1 ≤ uid → uid < p.2 →
      (uid ∈ s.fetched ∨ uid ∈ s.missed ∨ ∃ first ∈ s.asked, first ≤ uid) ∧
        s.announced.count uid ≤ 1 := by
  have hsound := Sound.of_reach h
  intro p hp uid hmem hle hlt
  refine ⟨hsound.covered.later p hp uid hmem hle hlt, ?_⟩
  have hcount := List.nodup_iff_count_le_one.mp hsound.once.nodup uid
  rw [hsound.once.announced, List.count_append] at hcount
  omega

/-- The session of an account, and its mailbox of one message. -/
def spawned : Account := { label := "Work", mailbox := numbered 1 (by decide) }

/-- It connects, the mailbox is polled, a message arrives, and the next poll is answered. -/
def untilReply : List Action :=
  [.take, .serve .done, .hear, .wake, .take, .serve (.examined (some 2)), .hear,
    .arrive (plainHeader 2), .wake, .take, .serve (.examined (some 3))]

/-- The message is fetched and announced. -/
def untilToast : List Action :=
  untilReply ++ ([.hear, .take, .serve .done, .hear] : List Action)

/-- Such a run, to the announcement of a message. -/
theorem new_mail_announced_once_of_message : ∃ s : Account,
    s.later = [(2, 3)] ∧ s.arrived = [2] ∧ s.announced = [2] ∧
      ∀ p ∈ s.later, ∀ uid ∈ s.arrived, p.1 ≤ uid → uid < p.2 →
        (uid ∈ s.fetched ∨ uid ∈ s.missed ∨ ∃ first ∈ s.asked, first ≤ uid) ∧
          s.announced.count uid ≤ 1 := by
  have ht : (machine.trace (fun s a => s.undisturbed a = true) spawned untilToast).any
      (fun s => decide (s.later = [(2, 3)] ∧ s.arrived = [2] ∧ s.announced = [2])) = true := by
    decide
  obtain ⟨s, hr, hp⟩ := Machine.exists_reach_of_trace machine _ _ _ ⟨_, _, rfl⟩ ht
  obtain ⟨hlater, harrived, hannounced⟩ := of_decide_eq_true hp
  exact ⟨s, hlater, harrived, hannounced, new_mail_announced_once hr⟩

/-- A reply without UIDNEXT comes between two with it, and the message is announced again; the queue is
full when a poll has found the message, and nothing fetches it any more. -/
theorem announced_twice_or_never :
    (∃ s : Account, machine.Reach Machine.any s ∧
      ∃ p ∈ s.later, ∃ uid ∈ s.arrived, p.1 ≤ uid ∧ uid < p.2 ∧ s.announced.count uid = 2) ∧
    ∃ s : Account, machine.Reach Machine.any s ∧
      ∃ p ∈ s.later, ∃ uid ∈ s.arrived, p.1 ≤ uid ∧ uid < p.2 ∧ s.mailbox.has uid ∧
        uid ∉ s.fetched ∧ s.coming = [] := by
  constructor
  · have ht : (machine.trace Machine.any spawned (untilToast ++
        ([.wake, .take, .serve (.examined none), .hear, .wake, .take, .serve (.examined (some 3)),
          .hear, .take, .serve .done, .hear] : List Action))).any
        (fun s => decide ((2, 3) ∈ s.later ∧ 2 ∈ s.arrived ∧ s.announced.count 2 = 2)) = true := by
      decide
    obtain ⟨s, hr, hp⟩ := Machine.exists_reach_of_trace machine _ _ _ ⟨_, _, rfl⟩ ht
    obtain ⟨hlater, harrived, hcount⟩ := of_decide_eq_true hp
    exact ⟨s, hr, _, hlater, 2, harrived, le_refl _, by decide, hcount⟩
  · have ht : (machine.trace Machine.any spawned
        (untilReply ++ List.replicate 32 (.order .handedOn) ++ [.hear])).any
        (fun s => decide ((2, 3) ∈ s.later ∧ 2 ∈ s.arrived ∧ s.mailbox.has 2 ∧ 2 ∉ s.fetched ∧
          s.coming = [])) = true := by
      decide +kernel
    obtain ⟨s, hr, hp⟩ := Machine.exists_reach_of_trace machine _ _ _ ⟨_, _, rfl⟩ ht
    obtain ⟨hlater, harrived, hhas, hfetched, hcoming⟩ := of_decide_eq_true hp
    exact ⟨s, hr, _, hlater, 2, harrived, le_refl _, by decide, hhas, hfetched, hcoming⟩

end Account

end Esmail.Watching.Forwarding
