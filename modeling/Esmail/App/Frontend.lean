/-
# A frontend at work

The frontend calls the core and sets the public fields of it that are its own (the selection, a search
and its results), and between its calls the pump brings in what the sessions have sent.  A run is any
order of these, one event at a time.

What is remembered beside the core is not in the program: of which account each session was, the bulk
action begun last and which of its messages have been answered for, which sessions are downloading
and which of them the bar was last set by, and what the last search found.
-/
import Esmail.App.Desk
import Esmail.App.Sessions

namespace Esmail.App

open Transition

/-! ## 1. What is remembered -/

/-- A bulk action that was begun, and the messages that have been answered for since. -/
structure Tracked where
  account : AccountId
  mailbox : String
  kind : ProgressKind
  targets : List Nat
  answered : Finset Nat
  deriving DecidableEq

/-- What a reply to `StoreFlags` or `MoveMessage` answers for: the kind of the action, the mailbox and
the message. -/
def ImapEvent.answers : ImapEvent → Option (ProgressKind × String × Nat)
  | .flagsUpdated mailbox uid _ _ | .flagsUpdateFailed mailbox uid _ _ => some (.flags, mailbox, uid)
  | .moved mailbox uid _ _ | .moveFailed mailbox uid _ _ => some (.move, mailbox, uid)
  | _ => none

/-- A reply of the action's kind, account and mailbox answers for its message. -/
def Tracked.hear (t : Tracked) (account : AccountId) (evt : ImapEvent) : Tracked :=
  match evt.answers with
  | some (kind, mailbox, uid) =>
    if kind = t.kind ∧ account = t.account ∧ mailbox = t.mailbox then
      { t with answered := insert uid t.answered }
    else t
  | none => t

/-- A result of a search, with the account and the mailbox it was found in. -/
abbrev Found := MailHeader × AccountId × String

structure Frontend where
  core : AppCore
  opened : List AccountId
  tracked : Option Tracked
  shownBy : Option Nat
  downloading : Finset Nat
  found : List Found

/-- What the frontend does, and the events of the sessions. -/
inductive Call
  | activate (account : AccountId) (mailbox : String)
  | openSession (account : AccountConfig) (auth : Auth)
      (pendingPersist : Option (AccountConfig × Auth))
  | disconnectAccount (account : AccountId)
  | beginBulkAction (kind : ProgressKind) (targets : List Nat)
  | search (results : List MailHeader) (origins : List (AccountId × String))
  | closeSearch
  | select (uid : Option Nat) (uids : Finset Nat)
  | event (number : Nat) (evt : ImapEvent)
  | takeChanges

namespace Frontend

/-! ## 2. The machine -/

/-- Whether the session is the one that the account has. -/
def live (s : Frontend) (number : Nat) (account : AccountId) : Bool :=
  System.number s.core account = some number

/-- The sessions that go on downloading when those of an account are gone. -/
def withoutAccount (s : Frontend) (account : AccountId) : Finset Nat :=
  s.downloading.filter fun n => s.opened[n]? ≠ some account

/-- The sessions that are downloading after an event: the last report and an error end a download. -/
def downloadingAfter (s : Frontend) (number : Nat) (account : AccountId) : ImapEvent → Finset Nat
  | .progress .index update =>
    if Desk.finished update then s.downloading.erase number
    else if s.live number account then insert number s.downloading
    else s.downloading
  | .error _ => s.downloading.erase number
  | _ => s.downloading

/-- Whether the index bar is set by the report. -/
def setsBar (s : Frontend) (account : AccountId) : ImapEvent → Bool
  | .progress .index update =>
    !Desk.finished update && (s.core.view account).isSome && s.core.active = some account
  | _ => false

/-- One event of the pump. -/
def hear (out : Outside) (s : Frontend) (number : Nat) (account : AccountId) (evt : ImapEvent) :
    Frontend where
  core := s.core.handleImapEvent out account evt
  opened := s.opened
  tracked := s.tracked.map fun t => t.hear account evt
  shownBy := if s.setsBar account evt then some number else s.shownBy
  downloading := s.downloadingAfter number account evt
  found := s.found

/-- A bulk action is begun for messages of the mailbox on screen, whose account has a session. -/
def step (out : Outside) (s : Frontend) : Call → Option Frontend
  | .activate account mailbox => some { s with core := s.core.activate account mailbox }
  | .openSession account auth pendingPersist =>
    some { s with
      core := s.core.openSession s.opened.length account auth pendingPersist
      opened := s.opened ++ [account.id]
      downloading := s.withoutAccount account.id }
  | .disconnectAccount account =>
    some { s with
      core := s.core.disconnectAccount account
      downloading := s.withoutAccount account }
  | .beginBulkAction kind targets =>
    match s.core.active with
    | none => none
    | some account =>
      if (s.core.view account).isSome ∧ (kind = .flags ∨ kind = .move) then
        some { s with
          core := s.core.beginBulkAction kind targets
          tracked :=
            if targets.length < 2 then s.tracked
            else some ⟨account, s.core.selectedMailbox, kind, targets, ∅⟩ }
      else none
  | .search results origins =>
    if results.length = origins.length ∧ ∀ o ∈ origins, (s.core.view o.1).isSome then
      some { s with
        core := { s.core with searchResults := some results, searchOrigins := origins }
        found := results.zip origins }
    else none
  | .closeSearch =>
    some { s with core := { s.core with searchResults := none, searchOrigins := [] }, found := [] }
  | .select uid uids =>
    some { s with core := { s.core with selectedUid := uid, selectedUids := uids } }
  | .event number evt => s.opened[number]?.map fun account => s.hear out number account evt
  | .takeChanges => some { s with core := s.core.takeChanges.1 }

/-- `AppCore::new`, before any session is opened. -/
def Fresh (s : Frontend) : Prop :=
  s = ⟨{ dbCapacity := s.core.dbCapacity }, [], none, none, ∅, []⟩

def machine (out : Outside) : Machine Frontend Call := ⟨Fresh, step out⟩

/-- A program in which nothing has happened yet. -/
def fresh : Frontend := ⟨{ dbCapacity := 32 }, [], none, none, ∅, []⟩

/-! ## 3. What the calls leave alone -/

theorem desk_beginBulkAction (core : AppCore) (kind : ProgressKind) (targets : List Nat) :
    (core.beginBulkAction kind targets).desk =
      if targets.length < 2 then core.desk
      else
        { core.desk with
          progress := some ⟨kind, .counted 0 targets.length⟩
          bulkAction := some ⟨kind, targets.length, targets.toFinset⟩ } := by
  unfold AppCore.beginBulkAction
  split <;> rfl

theorem view_beginBulkAction (core : AppCore) (kind : ProgressKind) (targets : List Nat)
    (account : AccountId) : (core.beginBulkAction kind targets).view account = core.view account := by
  unfold AppCore.beginBulkAction
  split <;> rfl

/-- An account has a session where the sessions say so. -/
theorem isSome_view (core : AppCore) (account : AccountId) :
    (core.view account).isSome = (core.sessions.find? fun s => s.1 = account).isSome := by
  rw [← AppCore.owner_view, Option.isSome_map]

theorem isSome_view_of_sessions {core core' : AppCore} (h : core'.sessions = core.sessions)
    (account : AccountId) : (core'.view account).isSome = (core.view account).isSome := by
  rw [isSome_view, isSome_view, h]

theorem isSome_view_activate (core : AppCore) (a : AccountId) (mailbox : String)
    (account : AccountId) :
    ((core.activate a mailbox).view account).isSome = (core.view account).isSome :=
  isSome_view_of_sessions (core.activate_spec a mailbox).2.2.2.1 account

theorem isSome_view_handle (out : Outside) (core : AppCore) (a : AccountId) (evt : ImapEvent)
    (account : AccountId) :
    ((core.handleImapEvent out a evt).view account).isSome = (core.view account).isSome :=
  isSome_view_of_sessions (AppCore.handled_handleImapEvent out core a evt).sessions account

/-- An account that has a session keeps one when another is opened. -/
theorem isSome_view_openSession {core : AppCore} {n : Nat} {config : AccountConfig} {auth : Auth}
    {p : Option (AccountConfig × Auth)} {account : AccountId}
    (h : (core.view account).isSome = true) :
    ((core.openSession n config auth p).view account).isSome = true := by
  by_cases ha : account = config.id
  · refine List.find?_isSome.mpr ⟨_, List.mem_append_right _ (List.mem_singleton_self _), ?_⟩
    exact decide_eq_true ha.symm
  · rw [System.view_openSession_ne ha]
    exact h

/-- Only the account that is disconnected loses its session. -/
theorem isSome_view_disconnect {core : AppCore} {a account : AccountId} (hne : account ≠ a) :
    ((core.disconnectAccount a).view account).isSome = (core.view account).isSome := by
  rw [isSome_view, isSome_view, (core.disconnectAccount_spec a).1,
    System.find_filter_ne Prod.fst _ hne]

end Frontend

end Esmail.App
