/-
# The core, its sessions and their channel

The program runs on several threads: the frontend calls the core, and each account's session sends
what it hears from its server over one channel.  Dropping a session stops it, but takes nothing back
that it has sent.  A run is any order of the frontend's calls and of the sessions' sendings.

A sending is tagged with its account only.  The number of the session that made it is kept beside it
here, and so are three histories: which sessions were opened, which of them have said that they
connected, and which accounts the frontend was asked to save, with what it was to save of them.

The result is about the list: `headers_owned`, that each header in it came with a reply for the account
and the mailbox on screen.  `Handled` says of any event that each header was there before or is of what
is on screen; so it depends on the frontend's calls, and of these only `activate` changes what is on
screen.  It empties the list for another account, and keeps it for another mailbox of the same one,
until the reply comes (`archive_shows_inbox`); `listGone` leaves that step out.

A header is listed with the account and the mailbox of the reply that brought it.  The core has no such
field, and nothing it does reads this one.
-/
import Esmail.Library.Machine
import Esmail.App.Pump

namespace Esmail.App

open Transition

/-! ## 1. The machine -/

/-- A session that was opened. -/
structure Opened where
  account : AccountId
  pendingPersist : Option (AccountConfig × Auth)
  deriving DecidableEq, Repr

/-- A sending, and the session it comes from. -/
structure Sending where
  number : Nat
  account : AccountId
  event : ImapEvent
  deriving DecidableEq

structure System where
  core : AppCore
  channel : List Sending
  opened : List Opened
  connected : List Nat
  announced : List (AccountId × Option (AccountConfig × Auth))

/-- What the frontend calls, and what a session sends. -/
inductive Action
  | activate (account : AccountId) (mailbox : String)
  | openSession (account : AccountConfig) (auth : Auth)
      (pendingPersist : Option (AccountConfig × Auth))
  | disconnectAccount (account : AccountId)
  | fetchHeaders (mailbox : String) (page : Nat)
  | takePendingPersist (account : AccountId)
  | send (number : Nat) (event : ImapEvent)
  | pump

namespace System

/-- What `try_recv` brings out of the channel. -/
def events (s : System) : List (AccountId × ImapEvent) := s.channel.map fun e => (e.account, e.event)

def step (out : Outside) (s : System) : Action → Option System
  | .activate account mailbox => some { s with core := s.core.activate account mailbox }
  | .openSession account auth pendingPersist =>
    some { s with
      core := s.core.openSession s.opened.length account auth pendingPersist
      opened := s.opened ++ [⟨account.id, pendingPersist⟩] }
  | .disconnectAccount account => some { s with core := s.core.disconnectAccount account }
  | .fetchHeaders mailbox page => some { s with core := s.core.fetchHeaders mailbox page }
  | .takePendingPersist account => some { s with core := (s.core.takePendingPersist account).1 }
  | .send number event =>
    s.opened[number]?.map fun session =>
      { s with
        channel := s.channel ++ [⟨number, session.account, event⟩]
        connected := if event = .connected then s.connected ++ [number] else s.connected }
  | .pump =>
    let (core, changes) := AppCore.pump out s.core s.events
    some { s with
      core := core
      channel := []
      announced := s.announced ++ changes.persistAccounts.map fun account =>
        (account, (core.view account).bind AccountView.pendingPersist) }

/-- `AppCore::new`, before any session is opened. -/
def Fresh (s : System) : Prop :=
  s.core = { dbCapacity := s.core.dbCapacity } ∧ s.channel = [] ∧ s.opened = [] ∧ s.connected = [] ∧
    s.announced = []

def machine (out : Outside) : Machine System Action := ⟨Fresh, step out⟩

/-! ## 2. What is on screen is what was asked for -/

/-- Every header in the list came with a reply for the account and the mailbox that are on screen. -/
def Owned (core : AppCore) : Prop :=
  ∀ h ∈ core.headers, core.active = some h.source.1 ∧ core.selectedMailbox = h.source.2

theorem Owned.of_nil {core : AppCore} (h : core.headers = []) : Owned core := by
  intro x hx
  rw [h] at hx
  cases hx

theorem Owned.of_same {core core' : AppCore} (h : Owned core) (hheaders : core'.headers = core.headers)
    (hactive : core'.active = core.active) (hmailbox : core'.selectedMailbox = core.selectedMailbox) :
    Owned core' := by
  intro x hx
  rw [hactive, hmailbox]
  exact h x (hheaders ▸ hx)

theorem Owned.handled {core core' : AppCore} {account : AccountId} {evt : ImapEvent} (h : Owned core)
    (hh : AppCore.Handled core core' account evt) : Owned core' := by
  rcases hh.screen with ⟨-, hempty⟩ | ⟨hactive, hmailbox, hsource⟩
  · exact Owned.of_nil hempty
  · intro x hx
    rw [hactive, hmailbox]
    rcases hsource x hx with ⟨x₀, hx₀, he⟩ | hnew
    · exact he ▸ h x₀ hx₀
    · exact hnew

/-- Another mailbox of the account on screen is opened only where the list is empty. -/
def listGone (s : System) : Action → Prop
  | .activate account mailbox =>
    s.core.active = some account → s.core.selectedMailbox = mailbox ∨ s.core.headers = []
  | _ => True

theorem Owned.step {out : Outside} {s s' : System} {a : Action} (h : Owned s.core)
    (hok : listGone s a) (hst : s.step out a = some s') : Owned s'.core := by
  cases a with
  | activate account mailbox =>
    obtain rfl := Option.some.inj hst
    obtain ⟨hactive, hmailbox, hheaders, -, -⟩ := s.core.activate_spec account mailbox
    by_cases hsame : s.core.active = some account
    · rw [if_pos hsame] at hheaders
      rcases hok hsame with hstays | hempty
      · exact h.of_same hheaders (hactive.trans hsame.symm) (hmailbox.trans hstays.symm)
      · exact Owned.of_nil (hheaders.trans hempty)
    · rw [if_neg hsame] at hheaders
      exact Owned.of_nil hheaders
  | openSession account auth pendingPersist =>
    obtain rfl := Option.some.inj hst
    exact h
  | disconnectAccount account =>
    obtain rfl := Option.some.inj hst
    obtain ⟨-, -, hempty | ⟨hheaders, hactive, hmailbox⟩⟩ := s.core.disconnectAccount_spec account
    · exact Owned.of_nil hempty
    · exact h.of_same hheaders hactive hmailbox
  | fetchHeaders mailbox page =>
    obtain rfl := Option.some.inj hst
    have hquiet := s.core.quiet_fetchHeaders mailbox page
    exact h.of_same hquiet.headers hquiet.active hquiet.selectedMailbox
  | takePendingPersist account =>
    obtain rfl := Option.some.inj hst
    exact h
  | send number event =>
    obtain ⟨session, -, rfl⟩ := Option.map_eq_some_iff.mp hst
    exact h
  | pump =>
    obtain rfl := Option.some.inj hst
    exact AppCore.foldl_handled (P := Owned) s.events (fun _ _ _ _ howned hh => howned.handled hh) h

/-- In a run that opens another mailbox of the account on screen only where the list is empty, every
header in the list came with a reply for the account and the mailbox on screen.

Events of any session, in any order, are in these runs; a reply that comes late is compared with what is on
screen when it comes. -/
theorem headers_owned {out : Outside} {s : System} (h : (machine out).Reach listGone s) :
    ∀ h ∈ s.core.headers, s.core.active = some h.source.1 ∧ s.core.selectedMailbox = h.source.2 := by
  refine h.invariant (P := fun s => Owned s.core) ?_ ?_
  · rintro s ⟨hcore, -⟩
    exact Owned.of_nil (by rw [hcore])
  · intro s a s' _ howned hok hst
    exact howned.step hok hst

instance (s : System) : (a : Action) → Decidable (listGone s a)
  | .activate account mailbox =>
    inferInstanceAs (Decidable
      (s.core.active = some account → s.core.selectedMailbox = mailbox ∨ s.core.headers = []))
  | .openSession .. | .disconnectAccount _ | .fetchHeaders .. | .takePendingPersist _ | .send .. | .pump =>
    isTrue trivial

/-- A program in which nothing has happened yet. -/
def fresh : System := ⟨{ dbCapacity := 32 }, [], [], [], []⟩

/-- Texts as they are, and no mailbox tree. -/
def plainOutside : Outside := ⟨id, fun _ => []⟩

/-- Two accounts, and a header of the first one's INBOX. -/
def me : AccountConfig := ⟨"me", "Me"⟩

def other : AccountConfig := ⟨"other", "Other"⟩

def greeting (uid : Nat) : MailHeader := ⟨uid, "Hello", "you", "me", "today", "<1>", []⟩

/-- Such a run: `Archive` is opened before the reply for `INBOX` is there, which is then not shown; the
list of `Archive` is, while the other account connects. -/
theorem headers_owned_of_late_reply : ∃ s : System, s.core.headers.map ListedHeader.header = [greeting 7] ∧
    ∀ h ∈ s.core.headers, s.core.active = some h.source.1 ∧ s.core.selectedMailbox = h.source.2 := by
  obtain ⟨s, hr, hp⟩ := Machine.exists_reach_of_trace (machine plainOutside) listGone
    [.openSession me (.password "p") none, .send 0 .connected, .pump, .activate "me" "Archive",
      .send 0 (.headers "INBOX" [greeting 1] 1 1 1 ⟨1, 2⟩), .openSession other (.password "q") none,
      .send 0 (.headers "Archive" [greeting 7] 1 1 2 ⟨1, 8⟩), .send 1 .connected, .pump]
    (fun s => decide (s.core.headers.map ListedHeader.header = [greeting 7]))
    (⟨rfl, rfl, rfl, rfl, rfl⟩ : Fresh fresh) (by decide)
  exact ⟨s, of_decide_eq_true hp, headers_owned hr⟩

/-- The list of `INBOX` is on screen and `Archive` is opened: until its reply comes, `Archive` is the
selected mailbox, and the list still that of `INBOX`. -/
theorem archive_shows_inbox : ¬ ∀ s : System, (machine plainOutside).Reach Machine.any s →
    ∀ h ∈ s.core.headers, s.core.active = some h.source.1 ∧ s.core.selectedMailbox = h.source.2 := by
  intro hall
  obtain ⟨s, hr, hp⟩ := Machine.exists_reach_of_trace (machine plainOutside) Machine.any
    [.openSession me (.password "p") none, .send 0 .connected, .pump,
      .send 0 (.headers "INBOX" [greeting 1] 1 1 1 ⟨1, 2⟩), .pump, .activate "me" "Archive"]
    (fun s => decide (s.core.headers = [⟨greeting 1, "me", "INBOX"⟩] ∧
      s.core.selectedMailbox = "Archive"))
    (⟨rfl, rfl, rfl, rfl, rfl⟩ : Fresh fresh) (by decide)
  obtain ⟨hheaders, hmailbox⟩ := of_decide_eq_true hp
  have howned := (hall s hr ⟨greeting 1, "me", "INBOX"⟩ (by rw [hheaders]; simp)).2
  rw [hmailbox] at howned
  exact absurd howned (by decide)

end System

end Esmail.App
