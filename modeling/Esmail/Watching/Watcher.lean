/-
# Watching accounts without a window

`Watcher` of `watcher.rs`: one session for each account, and what the tray shows of it.  The sessions send
what they hear over one channel, tagged with the account only.  Dropping a session stops it, and takes
nothing back that it has sent; so the watcher may hear of a session that it has replaced, and take it for
the new one (`connected_by_the_old_session`).

`replaced_session_ignored` is about the runs in which a session is started only where nothing of its
account waits but what is passed over anyway (`fallsSilent`): no event of a session that is gone is
returned as a change, or changes what the tray shows of any account.

`Settled` is the invariant: what waits in the channel of a session that is gone is passed over, or is of
an account that is not watched any more.  Hearing an event leaves every account its session
(`sessionOf_handle`), so only the two calls that start one have to be looked at; `apply_accounts` is a
loop, which starts them one after the other.

The numbers of the sessions and the list of those that were spawned are not in the program; nothing it
decides reads them.
-/
import Esmail.App.System
import Esmail.Settings.Config
import Mathlib.Algebra.GroupWithZero.Nat

namespace Esmail.Watching

open Transition
open Settings (AccountConfig)
open App (Auth AccountSession ImapCommand ImapEvent Sending)

/-! ## 1. The watcher -/

/-- `AccountState`. -/
inductive AccountState
  | connecting
  | connected
  | watching
  | failed (reason : String)
  deriving DecidableEq, Repr

/-- `AccountState::is_up`. -/
def AccountState.isUp (state : AccountState) : Bool := state = .connected || state = .watching

/-- `Change`. -/
inductive Change
  | state (account : AccountId) (state : AccountState)
  | unread (account : AccountId) (unread total : Nat)
  deriving DecidableEq, Repr

/-- `Watched`. -/
structure Watched where
  config : AccountConfig
  watchMailbox : String
  session : AccountSession
  state : AccountState
  unread : Nat
  deriving DecidableEq, Repr

/-- `Watcher`, and of which account each session was that it has spawned. -/
structure Watcher where
  accounts : Table AccountId Watched
  spawned : List AccountId

/-- `DEFAULT_WATCH_MAILBOX`. -/
def defaultWatchMailbox : String := "INBOX"

/-- The mailbox that is watched of an account. -/
def watchMailboxOf (config : AccountConfig) : String :=
  config.watchMailbox.getD defaultWatchMailbox

namespace Watcher

/-- `Watcher::new`. -/
def new : Watcher := ⟨Table.empty, []⟩

/-- `Watcher::restart_account`. -/
def restartAccount (w : Watcher) (config : AccountConfig) (_auth : Auth) : Watcher where
  accounts := (w.accounts.deleteWhere fun id => id = config.id).upsert config.id
    ⟨config, watchMailboxOf config,
      ⟨config.id, config.displayName, [.connect], w.spawned.length⟩, .connecting, 0⟩
  spawned := w.spawned ++ [config.id]

/-- Whether the account is watched with this configuration. -/
def unchanged (w : Watcher) (config : AccountConfig) : Bool :=
  (w.accounts.lookup config.id).any fun watched => watched.config = config

/-- The loop of `apply_accounts`. -/
def startAll (w : Watcher) : List (AccountConfig × Auth) → Watcher
  | [] => w
  | (config, auth) :: desired =>
    if w.unchanged config then w.startAll desired
    else (w.restartAccount config auth).startAll desired

/-- What `apply_accounts` drops first. -/
def retain (w : Watcher) (desired : List (AccountConfig × Auth)) : Watcher :=
  { w with accounts := w.accounts.deleteWhere fun id => id ∉ desired.map fun d => d.1.id }

/-- `Watcher::apply_accounts`. -/
def applyAccounts (w : Watcher) (desired : List (AccountConfig × Auth)) : Watcher :=
  (w.retain desired).startAll desired

/-- `Watcher::total_unread`, a sum of `u32`. -/
def totalUnread (w : Watcher) : Nat := (w.accounts.rows.map fun r => r.2.unread).sum % 2 ^ 32

/-- `Watcher::request_unread`. -/
def requestUnread (watched : Watched) : Watched :=
  { watched with session := watched.session.trySend (.fetchUnreadCounts [watched.watchMailbox]) }

/-- The watched account after a change. -/
def put (w : Watcher) (account : AccountId) (watched : Watched) : Watcher :=
  { w with accounts := w.accounts.update account fun _ => watched }

/-- `Watcher::handle` for an account that is watched. -/
def handleWatched (w : Watcher) (account : AccountId) (watched : Watched) :
    ImapEvent → Watcher × Option Change
  | .connected =>
    (w.put account (requestUnread { watched with state := .connected }),
      some (.state account .connected))
  | .disconnected =>
    (w.put account { watched with state := .connecting }, some (.state account .connecting))
  | .error reason =>
    if watched.state.isUp then (w, none)
    else (w.put account { watched with state := .failed reason }, some (.state account (.failed reason)))
  | .mailboxPolled mailbox _ =>
    if mailbox = watched.watchMailbox then
      if watched.state = .connected then
        (w.put account { requestUnread watched with state := .watching },
          some (.state account .watching))
      else (w.put account (requestUnread watched), none)
    else (w, none)
  | .unreadCounts counts =>
    match counts.lookup watched.watchMailbox with
    | none => (w, none)
    | some unread =>
      if unread = watched.unread then (w, none)
      else
        let w := w.put account { watched with unread := unread }
        (w, some (.unread account unread w.totalUnread))
  | _ => (w, none)

/-- `Watcher::handle`. -/
def handle (w : Watcher) (account : AccountId) (event : ImapEvent) : Watcher × Option Change :=
  match w.accounts.lookup account with
  | none => (w, none)
  | some watched => w.handleWatched account watched event

/-- What the tray shows of an account. -/
def standing (w : Watcher) (account : AccountId) : Option (AccountState × Nat) :=
  (w.accounts.lookup account).map fun watched => (watched.state, watched.unread)

end Watcher

/-! ## 2. The machine -/

/-- The watcher, the channel its sessions send over, and what `next_change` has returned. -/
structure Background where
  watcher : Watcher
  channel : List Sending
  changes : List Change

/-- How many events wait in the channel at most. -/
def eventQueue : Nat := 64

/-- What the caller does, and what a session sends. -/
inductive Action
  | applyAccounts (desired : List (AccountConfig × Auth))
  | restartAccount (config : AccountConfig) (auth : Auth)
  | send (number : Nat) (event : ImapEvent)
  | next

namespace Background

/-- `next` is one turn of the loop in `next_change`. -/
def step (s : Background) : Action → Option Background
  | .applyAccounts desired => some { s with watcher := s.watcher.applyAccounts desired }
  | .restartAccount config auth => some { s with watcher := s.watcher.restartAccount config auth }
  | .send number event =>
    if s.channel.length < eventQueue then
      s.watcher.spawned[number]?.map fun account =>
        { s with channel := s.channel ++ [⟨number, account, event⟩] }
    else none
  | .next =>
    match s.channel with
    | [] => none
    | e :: channel =>
      let (watcher, change) := s.watcher.handle e.account e.event
      some ⟨watcher, channel, s.changes ++ change.toList⟩

def machine : Machine Background Action := ⟨fun s => s = ⟨Watcher.new, [], []⟩, step⟩

end Background

/-! ## 3. What the watcher passes over -/

/-- Whether `handle` does nothing about the event, where this mailbox is watched. -/
def passesOver (mailbox : String) : ImapEvent → Bool
  | .connected | .disconnected | .error _ => false
  | .mailboxPolled polled _ => polled ≠ mailbox
  | .unreadCounts counts => (counts.lookup mailbox).isNone
  | _ => true

namespace Watcher

/-- Which session an account has, and what it watches. -/
def sessionOf (w : Watcher) (account : AccountId) : Option (Nat × String) :=
  (w.accounts.lookup account).map fun watched => (watched.session.number, watched.watchMailbox)

/-- Whether a sending comes from the session that its account has now. -/
def current (w : Watcher) (e : Sending) : Bool :=
  (w.sessionOf e.account).any fun p => p.1 = e.number

theorem handleWatched_of_passesOver (w : Watcher) (account : AccountId) {watched : Watched}
    {event : ImapEvent} (h : passesOver watched.watchMailbox event = true) :
    w.handleWatched account watched event = (w, none) := by
  cases event with
  | connected => exact absurd h (by simp [passesOver])
  | disconnected => exact absurd h (by simp [passesOver])
  | error reason => exact absurd h (by simp [passesOver])
  | mailboxPolled mailbox state =>
    have hother : mailbox ≠ watched.watchMailbox := of_decide_eq_true h
    simp only [handleWatched, if_neg hother]
  | unreadCounts counts =>
    have hnone : counts.lookup watched.watchMailbox = none := Option.isNone_iff_eq_none.mp h
    simp only [handleWatched, hnone]
  | _ => rfl

/-- An event that the watcher passes over, or of an account that it does not watch. -/
theorem handle_of_passesOver {w : Watcher} {account : AccountId} {event : ImapEvent}
    (h : ∀ p ∈ w.sessionOf account, passesOver p.2 event = true) :
    w.handle account event = (w, none) := by
  unfold handle
  split
  · rfl
  · next watched hwatched =>
    refine handleWatched_of_passesOver w account
      (h (watched.session.number, watched.watchMailbox) ?_)
    rw [sessionOf, hwatched]
    rfl

theorem sessionOf_put {w : Watcher} {account : AccountId} {watched : Watched}
    (hwatched : w.accounts.lookup account = some watched) (watched' : Watched)
    (hnumber : watched'.session.number = watched.session.number)
    (hmailbox : watched'.watchMailbox = watched.watchMailbox) (a : AccountId) :
    (w.put account watched').sessionOf a = w.sessionOf a := by
  rw [sessionOf, sessionOf, put, Table.lookup_update]
  split
  · next ha =>
    rw [ha, hwatched, Option.map_some, Option.map_some, Option.map_some, hnumber, hmailbox]
  · rfl

theorem number_trySend (session : AccountSession) (cmd : ImapCommand) :
    (session.trySend cmd).number = session.number := by
  unfold AccountSession.trySend
  split <;> rfl

/-- Hearing of a session leaves every account its session. -/
theorem sessionOf_handle (w : Watcher) (account : AccountId) (event : ImapEvent) (a : AccountId) :
    (w.handle account event).1.sessionOf a = w.sessionOf a := by
  unfold handle
  split
  · rfl
  · next watched hwatched =>
    have hput := fun watched' hnumber hmailbox => sessionOf_put hwatched watched' hnumber hmailbox a
    cases event with
    | connected =>
      exact hput (requestUnread { watched with state := .connected }) (number_trySend _ _) rfl
    | disconnected => exact hput { watched with state := .connecting } rfl rfl
    | error reason =>
      simp only [handleWatched]
      split
      · rfl
      · exact hput { watched with state := .failed reason } rfl rfl
    | mailboxPolled mailbox state =>
      simp only [handleWatched]
      split
      · split
        · exact hput { requestUnread watched with state := .watching } (number_trySend _ _) rfl
        · exact hput (requestUnread watched) (number_trySend _ _) rfl
      · rfl
    | unreadCounts counts =>
      simp only [handleWatched]
      split
      · rfl
      · next unread _ =>
        split
        · rfl
        · exact hput { watched with unread := unread } rfl rfl
    | _ => rfl

theorem sessionOf_restartAccount (w : Watcher) (config : AccountConfig) (auth : Auth)
    (a : AccountId) :
    (w.restartAccount config auth).sessionOf a =
      if a = config.id then some (w.spawned.length, watchMailboxOf config) else w.sessionOf a := by
  rw [sessionOf, restartAccount, Table.lookup_upsert, Table.lookup_deleteWhere]
  split
  · rfl
  · next ha =>
    rw [if_neg (by simpa using ha)]
    rfl

theorem mem_sessionOf_retain {w : Watcher} {desired : List (AccountConfig × Auth)} {a : AccountId}
    {p : Nat × String} (h : p ∈ (w.retain desired).sessionOf a) : p ∈ w.sessionOf a := by
  rw [sessionOf, retain, Table.lookup_deleteWhere] at h
  split at h
  · cases h
  · exact h

/-- The configurations that the loop of `apply_accounts` starts a session for. -/
def restarted (w : Watcher) : List (AccountConfig × Auth) → List AccountConfig
  | [] => []
  | (config, auth) :: desired =>
    if w.unchanged config then w.restarted desired
    else config :: (w.restartAccount config auth).restarted desired

end Watcher

/-! ## 4. Sessions that are gone -/

namespace Background

open Watcher

/-- Nothing of the account waits in the channel but what is passed over under this configuration. -/
def drained (channel : List Sending) (config : AccountConfig) : Prop :=
  ∀ e ∈ channel, e.account = config.id → passesOver (watchMailboxOf config) e.event = true

/-- A session is started only where nothing of its account waits in the channel but what is passed
over; and one that is gone sends nothing else while its account has another. -/
def fallsSilent (s : Background) : Action → Prop
  | .applyAccounts desired =>
    ∀ config ∈ (s.watcher.retain desired).restarted desired, drained s.channel config
  | .restartAccount config _ => drained s.channel config
  | .send number event =>
    ∀ account ∈ s.watcher.spawned[number]?, ∀ p ∈ s.watcher.sessionOf account,
      p.1 = number ∨ passesOver p.2 event = true
  | .next => True

/-- What waits in the channel is of the session its account has now, or passed over. -/
def Settled (w : Watcher) (channel : List Sending) : Prop :=
  ∀ e ∈ channel, ∀ p ∈ w.sessionOf e.account, p.1 = e.number ∨ passesOver p.2 e.event = true

theorem Settled.restartAccount {w : Watcher} {channel : List Sending} {config : AccountConfig}
    (auth : Auth) (h : Settled w channel) (hdrained : drained channel config) :
    Settled (w.restartAccount config auth) channel := by
  intro e he p hp
  rw [sessionOf_restartAccount] at hp
  split at hp
  · next haccount =>
    obtain rfl := Option.some.inj hp
    exact .inr (hdrained e he haccount)
  · exact h e he p hp

theorem Settled.startAll {w : Watcher} {channel : List Sending}
    (desired : List (AccountConfig × Auth)) (h : Settled w channel)
    (hdrained : ∀ config ∈ w.restarted desired, drained channel config) :
    Settled (w.startAll desired) channel := by
  induction desired generalizing w with
  | nil => exact h
  | cons d desired ih =>
    simp only [Watcher.startAll]
    simp only [restarted] at hdrained
    split
    · next hsame =>
      rw [if_pos hsame] at hdrained
      exact ih h hdrained
    · next hchanged =>
      rw [if_neg hchanged] at hdrained
      refine ih (h.restartAccount d.2 (hdrained d.1 List.mem_cons_self)) ?_
      exact fun config hconfig => hdrained config (List.mem_cons_of_mem _ hconfig)

theorem Settled.step {s s' : Background} {a : Action} (h : Settled s.watcher s.channel)
    (hok : fallsSilent s a) (hst : s.step a = some s') : Settled s'.watcher s'.channel := by
  cases a with
  | applyAccounts desired =>
    obtain rfl := Option.some.inj hst
    have hretained : Settled (s.watcher.retain desired) s.channel := fun e he p hp =>
      h e he p (mem_sessionOf_retain hp)
    exact hretained.startAll desired hok
  | restartAccount config auth =>
    obtain rfl := Option.some.inj hst
    exact h.restartAccount auth hok
  | send number event =>
    simp only [Background.step] at hst
    split at hst
    · obtain ⟨account, haccount, rfl⟩ := Option.map_eq_some_iff.mp hst
      intro e he p hp
      rcases List.mem_append.mp he with he | he
      · exact h e he p hp
      · obtain rfl := List.mem_singleton.mp he
        exact hok account haccount p hp
    · cases hst
  | next =>
    simp only [Background.step] at hst
    split at hst
    · cases hst
    · next e channel hchannel =>
      obtain rfl := Option.some.inj hst
      intro e' he' p hp
      rw [sessionOf_handle] at hp
      exact h e' (hchannel ▸ List.mem_cons_of_mem _ he') p hp

/-- In a run that starts a session only where nothing of its account waits but what is passed over,
no event of a session that was replaced or dropped is returned as a change, or changes what the tray
shows of any account. -/
theorem replaced_session_ignored {s : Background} (h : machine.Reach fallsSilent s) :
    ∀ e ∈ s.channel, s.watcher.current e = false →
      (s.watcher.handle e.account e.event).2 = none ∧
        ∀ account, (s.watcher.handle e.account e.event).1.standing account =
          s.watcher.standing account := by
  have hsettled : Settled s.watcher s.channel := by
    refine h.invariant (P := fun s => Settled s.watcher s.channel) ?_ ?_
    · rintro s rfl e he
      cases he
    · exact fun s a s' _ hsettled hok hst => hsettled.step hok hst
  intro e he hgone
  have hpassed : s.watcher.handle e.account e.event = (s.watcher, none) := by
    refine handle_of_passesOver fun p hp => ?_
    refine (hsettled e he p hp).resolve_left fun hnumber => ?_
    have hcurrent : s.watcher.current e = true :=
      (Option.any_eq_true _ _).mpr ⟨p, hp, decide_eq_true hnumber⟩
    rw [hcurrent] at hgone
    cases hgone
  rw [hpassed]
  exact ⟨rfl, fun _ => rfl⟩

instance (channel : List Sending) (config : AccountConfig) : Decidable (drained channel config) :=
  inferInstanceAs (Decidable (∀ e ∈ channel, _ → _))

instance (s : Background) : (a : Action) → Decidable (fallsSilent s a)
  | .applyAccounts desired => inferInstanceAs (Decidable
      (∀ config ∈ (s.watcher.retain desired).restarted desired, drained s.channel config))
  | .restartAccount config _ => inferInstanceAs (Decidable (drained s.channel config))
  | .send number event => inferInstanceAs (Decidable
      (∀ account ∈ s.watcher.spawned[number]?, ∀ p ∈ s.watcher.sessionOf account,
        p.1 = number ∨ passesOver p.2 event = true))
  | .next => isTrue trivial

/-- An account, on this port. -/
def mine (port : Nat) : AccountConfig :=
  { id := "me", displayName := "Me", imapHost := "imap", imapPort := port, smtpHost := "smtp",
    username := "me" }

/-- Such a run: the session has connected, the watcher has heard of it, and then the port is changed.
A reply that the old session had still sent is passed over. -/
theorem replaced_session_ignored_of_new_port : ∃ s : Background,
    s.channel = [⟨0, "me", .appended "Sent"⟩] ∧
      s.watcher.standing "me" = some (.connecting, 0) ∧
      ∀ e ∈ s.channel, s.watcher.current e = false →
        (s.watcher.handle e.account e.event).2 = none ∧
          ∀ account, (s.watcher.handle e.account e.event).1.standing account =
            s.watcher.standing account := by
  obtain ⟨s, hr, hp⟩ := Machine.exists_reach_of_trace machine fallsSilent
    [.applyAccounts [(mine 993, .password "p")], .send 0 .connected, .next,
      .send 0 (.appended "Sent"), .applyAccounts [(mine 143, .password "p")]]
    (fun s => decide (s.channel = [⟨0, "me", .appended "Sent"⟩] ∧
      s.watcher.standing "me" = some (.connecting, 0)))
    rfl (by decide)
  obtain ⟨hchannel, hstanding⟩ := of_decide_eq_true hp
  exact ⟨s, hchannel, hstanding, replaced_session_ignored hr⟩

/-- The first session has connected, and before the watcher hears of it, the account is started again:
the new session, which is still connecting, is then shown as connected. -/
theorem connected_by_the_old_session : ¬ ∀ s : Background, machine.Reach Machine.any s →
    ∀ e ∈ s.channel, s.watcher.current e = false →
      (s.watcher.handle e.account e.event).2 = none ∧
        ∀ account, (s.watcher.handle e.account e.event).1.standing account =
          s.watcher.standing account := by
  intro hall
  obtain ⟨s, hr, hp⟩ := Machine.exists_reach_of_trace machine Machine.any
    [.restartAccount (mine 993) (.password "wrong"), .send 0 .connected,
      .restartAccount (mine 993) (.password "right")]
    (fun s => decide (s.channel = [⟨0, "me", .connected⟩] ∧
      s.watcher.current ⟨0, "me", .connected⟩ = false ∧
      (s.watcher.handle "me" .connected).2 = some (.state "me" .connected)))
    rfl (by decide)
  obtain ⟨hchannel, hgone, hchange⟩ := of_decide_eq_true hp
  have hnone := (hall s hr ⟨0, "me", .connected⟩ (by rw [hchannel]; simp) hgone).1
  rw [hchange] at hnone
  cases hnone

end Background

end Esmail.Watching
