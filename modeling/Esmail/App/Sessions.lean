/-
# Which session an event comes from

`open_session` replaces the session of an account: the old one is dropped, and so falls silent.  What
it has sent before is still in the channel, tagged with the account only, and `pump` takes it for the
new session's.  A queued `Connected` of the old session then has the new session's credentials saved,
which no server has accepted.

`superseded_silent` is about the runs in which nothing that `pump` acts on is in the channel when a
session is replaced (`fallsSilent`).  In these

* `pump` does what it would do without the events of sessions that are gone, and
* each account the frontend was asked to save is saved with what a session was opened with that did connect.

The argument is in `Settled`: what is in the channel comes from the session its account has now, or from
an account that has none, or is passed over; and what a view has still to be saved is what its session was
opened with.  Events of accounts without a session change nothing (`handle_unknown`), so all that `pump`
acts on is current (`foldl_filter`), and `pending_persist` is announced by the session that brought it
(`persist_of_events`).

Nothing is asked of closed accounts: what they have sent may stay in the channel.
-/
import Esmail.App.System

namespace Esmail.App

open Transition

namespace System

/-! ## 1. The sessions that are gone -/

/-- Whether a sending comes from the session that its account has now. -/
def ofCurrent (core : AppCore) (e : Sending) : Bool :=
  (core.view e.account).any fun v => v.session.number = e.number

/-- The channel without what comes from a session that is gone. -/
def currentEvents (s : System) : List (AccountId × ImapEvent) :=
  (s.channel.filter (ofCurrent s.core)).map fun e => (e.account, e.event)

/-- What `pump` passes over, whichever session it comes from: the watcher's polls. -/
def passesOver : ImapEvent → Bool
  | .mailboxPolled _ _ | .pollFailed _ => true
  | _ => false

theorem handle_of_passesOver (out : Outside) (core : AppCore) (account : AccountId) {evt : ImapEvent}
    (h : passesOver evt = true) : core.handleImapEvent out account evt = core := by
  unfold AppCore.handleImapEvent
  cases evt with
  | mailboxPolled _ _ | pollFailed _ => exact ite_self _
  | _ => exact absurd h (by simp [passesOver])

/-- A session is replaced only where nothing of its account is in the channel, and the one that was
replaced sends nothing any more, but for what `pump` passes over. -/
def fallsSilent (s : System) : Action → Prop
  | .openSession account _ _ => ∀ e ∈ s.channel, e.account = account.id → passesOver e.event = true
  | .send number event =>
    ∀ o ∈ s.opened[number]?, ∀ v ∈ s.core.view o.account, v.session.number = number ∨ passesOver event = true
  | _ => True

/-- An event of an account that has no session is lost. -/
theorem handle_unknown (out : Outside) {core : AppCore} {account : AccountId} (evt : ImapEvent)
    (h : core.view account = none) : core.handleImapEvent out account evt = core := by
  unfold AppCore.handleImapEvent
  rw [h]
  rfl

/-- Which accounts have a session, and which one, is all that `view` adds to the sessions. -/
theorem view_eq_none_iff {core : AppCore} {account : AccountId} :
    core.view account = none ↔ core.sessions.find? (fun s => s.1 = account) = none := by
  rw [← AppCore.owner_view, Option.map_eq_none_iff]

theorem view_of_find {core : AppCore} {account : AccountId}
    {o : AccountId × Nat × Option (AccountConfig × Auth)}
    (h : core.sessions.find? (fun s => s.1 = account) = some o) :
    ∃ v, core.view account = some v ∧ v.owner = o := by
  rw [← AppCore.owner_view] at h
  exact Option.map_eq_some_iff.mp h

/-- Events of accounts without a session may be left out of the channel, and what is passed over. -/
theorem foldl_filter (out : Outside) (keep : Sending → Bool) (channel : List Sending) {core : AppCore}
    (h : ∀ e ∈ channel, keep e = false → core.view e.account = none ∨ passesOver e.event = true) :
    (channel.map fun e => (e.account, e.event)).foldl
        (fun core e => core.handleImapEvent out e.1 e.2) core =
      ((channel.filter keep).map fun e => (e.account, e.event)).foldl
        (fun core e => core.handleImapEvent out e.1 e.2) core := by
  induction channel generalizing core with
  | nil => rfl
  | cons e channel ih =>
    have hsessions : (core.handleImapEvent out e.account e.event).sessions = core.sessions :=
      (AppCore.handled_handleImapEvent out core e.account e.event).sessions
    have hrest : ∀ e' ∈ channel, keep e' = false →
        (core.handleImapEvent out e.account e.event).view e'.account = none ∨
          passesOver e'.event = true := by
      intro e' he' hdrop
      rw [view_eq_none_iff, hsessions, ← view_eq_none_iff]
      exact h e' (List.mem_cons_of_mem _ he') hdrop
    cases hkeep : keep e with
    | true =>
      rw [List.filter_cons_of_pos hkeep]
      exact ih hrest
    | false =>
      have hgone : core.handleImapEvent out e.account e.event = core :=
        (h e List.mem_cons_self hkeep).elim (handle_unknown out e.event) (handle_of_passesOver out core e.account)
      rw [hgone] at hrest
      rw [List.filter_cons_of_neg (by simp [hkeep]), ← ih hrest, List.map_cons, List.foldl_cons,
        hgone]

/-- Who is to be saved has connected in one of the events, and was added through the form. -/
theorem persist_of_events {out : Outside} {core : AppCore} (events : List (AccountId × ImapEvent))
    (account : AccountId)
    (h : account ∈ (events.foldl (fun core e => core.handleImapEvent out e.1 e.2)
      core).changes.persistAccounts) :
    account ∈ core.changes.persistAccounts ∨ (account, ImapEvent.connected) ∈ events ∧
      ∃ o ∈ core.sessions.find? (fun s => s.1 = account), o.2.2.isSome = true := by
  refine (AppCore.foldl_handled (P := fun c => c.sessions = core.sessions ∧
    ∀ a ∈ c.changes.persistAccounts, a ∈ core.changes.persistAccounts ∨
      (a, ImapEvent.connected) ∈ events ∧
        ∃ o ∈ core.sessions.find? (fun s => s.1 = a), o.2.2.isSome = true)
    events ?_ ⟨rfl, fun a ha => .inl ha⟩).2 account h
  rintro c c' ⟨a, evt⟩ he ⟨hsessions, hall⟩ hh
  refine ⟨hh.sessions.trans hsessions, fun x hx => ?_⟩
  rcases hh.persist with hsame | ⟨hevt, hform, happend⟩
  · exact hall x (hsame ▸ hx)
  · rw [happend] at hx
    rcases List.mem_append.1 hx with hx | hx
    · exact hall x hx
    · obtain rfl := List.mem_singleton.1 hx
      obtain ⟨v, hv, hsome⟩ := (Option.any_eq_true _ _).mp hform
      refine .inr ⟨hevt ▸ he, v.owner, ?_, hsome⟩
      rw [← hsessions, ← AppCore.owner_view, hv]
      rfl

/-! ## 2. Which session an account has -/

/-- The number of the session an account has. -/
def number (core : AppCore) (account : AccountId) : Option Nat :=
  (core.view account).map fun v => v.session.number

theorem number_eq_find (core : AppCore) (account : AccountId) :
    number core account = ((core.accounts.map fun v => (v.id, v.session.number)).find?
      fun s => s.1 = account).map Prod.snd := by
  rw [number, List.find?_map, Option.map_map]
  rfl

theorem number_of_sessions {core core' : AppCore} (h : core'.sessions = core.sessions)
    (account : AccountId) : number core' account = number core account := by
  have hpairs : core'.accounts.map (fun v => (v.id, v.session.number)) =
      core.accounts.map fun v => (v.id, v.session.number) := by
    have hmap := congrArg (List.map fun o => (o.1, o.2.1)) h
    rw [AppCore.sessions, AppCore.sessions, List.map_map, List.map_map] at hmap
    exact hmap
  rw [number_eq_find, number_eq_find, hpairs]

theorem find_filter_ne {α : Type} (f : α → AccountId) (l : List α) {account a : AccountId}
    (h : a ≠ account) :
    (l.filter fun x => f x ≠ account).find? (fun x => f x = a) = l.find? fun x => f x = a := by
  induction l with
  | nil => rfl
  | cons x xs ih =>
    by_cases hx : f x = account
    · have hxa : f x ≠ a := fun ha => h (ha.symm.trans hx)
      rw [List.filter_cons_of_neg (by simpa using hx), ih, List.find?_cons_of_neg (by simpa using hxa)]
    · rw [List.filter_cons_of_pos (by simpa using hx), List.find?_cons, List.find?_cons, ih]

theorem view_openSession_ne {core : AppCore} {n : Nat} {config : AccountConfig} {auth : Auth}
    {p : Option (AccountConfig × Auth)} {a : AccountId} (h : a ≠ config.id) :
    (core.openSession n config auth p).view a = core.view a := by
  rw [AppCore.view, AppCore.openSession, List.find?_append, find_filter_ne AccountView.id _ h]
  have hnew : ([⟨⟨config.id, config.displayName, [.connect], n⟩, .connecting, [], Table.empty, auth,
      p⟩] : List AccountView).find? (fun v => v.id = a) = none := by
    rw [List.find?_cons_of_neg (by simp [AccountView.id, h.symm])]
    rfl
  rw [hnew, Option.or_none]
  rfl

theorem number_disconnectAccount {core : AppCore} {account a : AccountId} {n : Nat}
    (h : n ∈ number (core.disconnectAccount account) a) : n ∈ number core a := by
  have hsessions := (core.disconnectAccount_spec account).1
  have hdropped : number (core.disconnectAccount account) a =
      number { core with accounts := core.accounts.filter fun v => v.id ≠ account } a := by
    refine number_of_sessions (hsessions.trans ?_) a
    rw [AppCore.sessions, AppCore.sessions, List.filter_map]
    rfl
  rw [hdropped, number] at h
  obtain ⟨v, hv, rfl⟩ := Option.map_eq_some_iff.mp h
  by_cases ha : a = account
  · -- Nothing of the account is left.
    have hmem := List.mem_filter.mp (List.mem_of_find?_eq_some hv)
    have hid : v.id = a := of_decide_eq_true (List.find?_some (p := fun v : AccountView => v.id = a) hv)
    exact absurd (hid.trans ha) (by simpa using hmem.2)
  · have hview : core.view a = some v := (find_filter_ne AccountView.id _ ha).symm.trans hv
    rw [number, hview]
    rfl

theorem number_takePendingPersist (core : AppCore) (account a : AccountId) :
    number (core.takePendingPersist account).1 a = number core a := by
  have hpairs : (core.takePendingPersist account).1.accounts.map (fun v => (v.id, v.session.number)) =
      core.accounts.map fun v => (v.id, v.session.number) :=
    AppCore.map_modifyFirst (f := fun v => { v with pendingPersist := none }) (fun _ => rfl)
      core.accounts
  rw [number_eq_find, number_eq_find, hpairs]

/-! ## 3. What the condition keeps -/

/-- What is in the channel comes from the session its account has now, or from an account that has
none, or is passed over.  What a view has still to be saved is what its session was opened with. -/
structure Settled (s : System) : Prop where
  current : ∀ e ∈ s.channel, ∀ n ∈ number s.core e.account, n = e.number ∨ passesOver e.event = true
  connected : ∀ e ∈ s.channel, e.event = .connected → e.number ∈ s.connected
  credentials : ∀ o ∈ s.core.sessions, ∃ p, s.opened[o.2.1]? = some ⟨o.1, p⟩ ∧
    (o.2.2 = none ∨ o.2.2 = p)
  nothing : s.core.changes.persistAccounts = []
  announced : ∀ a ∈ s.announced, ∃ n p, s.opened[n]? = some ⟨a.1, some p⟩ ∧ a.2 = some p ∧
    n ∈ s.connected

theorem getElem?_append_of {α : Type} {l : List α} {x y : α} {i : Nat} (h : l[i]? = some y) :
    (l ++ [x])[i]? = some y :=
  (List.getElem?_append_left (List.getElem?_eq_some_iff.mp h).1).trans h

/-- A call that changes no session and saves nothing. -/
theorem Settled.of_core {s : System} {core : AppCore} (h : Settled s)
    (hnumber : ∀ account, ∀ n ∈ number core account, n ∈ number s.core account)
    (hsessions : ∀ o ∈ core.sessions, ∃ o' ∈ s.core.sessions, o'.1 = o.1 ∧ o'.2.1 = o.2.1 ∧
      (o.2.2 = none ∨ o.2.2 = o'.2.2))
    (hpersist : core.changes.persistAccounts = s.core.changes.persistAccounts) :
    Settled { s with core := core } := by
  refine ⟨fun e he n hn => h.current e he n (hnumber e.account n hn), h.connected, ?_,
    hpersist.trans h.nothing, h.announced⟩
  intro o ho
  obtain ⟨o', ho', hid, hnum, hp⟩ := hsessions o ho
  obtain ⟨p, hopened, hcred⟩ := h.credentials o' ho'
  refine ⟨p, by rw [← hnum, ← hid]; exact hopened, ?_⟩
  rcases hp with hp | hp
  · exact .inl hp
  · rw [hp]
    exact hcred

theorem Settled.of_sessions {s : System} {core : AppCore} (h : Settled s)
    (hsessions : core.sessions = s.core.sessions)
    (hpersist : core.changes.persistAccounts = s.core.changes.persistAccounts) :
    Settled { s with core := core } := by
  refine h.of_core (fun account n hn => ?_) (fun o ho => ?_) hpersist
  · rw [number_of_sessions hsessions] at hn
    exact hn
  · exact ⟨o, hsessions ▸ ho, rfl, rfl, .inr rfl⟩

theorem Settled.openSession {s : System} (h : Settled s) {config : AccountConfig} {auth : Auth}
    {p : Option (AccountConfig × Auth)} (hok : fallsSilent s (.openSession config auth p)) :
    Settled { s with
      core := s.core.openSession s.opened.length config auth p
      opened := s.opened ++ [⟨config.id, p⟩] } := by
  refine ⟨fun e he n hn => ?_, h.connected, ?_, h.nothing, ?_⟩
  · by_cases hid : e.account = config.id
    · exact .inr (hok e he hid)
    · rw [number, view_openSession_ne hid] at hn
      exact h.current e he n hn
  · intro o ho
    simp only [AppCore.sessions, AppCore.openSession, List.map_append, List.mem_append] at ho
    rcases ho with ho | ho
    · obtain ⟨v, hv, rfl⟩ := List.mem_map.mp ho
      obtain ⟨q, hopened, hcred⟩ := h.credentials _ (List.mem_map_of_mem (List.mem_of_mem_filter hv))
      exact ⟨q, getElem?_append_of hopened, hcred⟩
    · obtain rfl := List.mem_singleton.mp ho
      exact ⟨p, List.getElem?_concat_length, .inr rfl⟩
  · intro a ha
    obtain ⟨n, q, hopened, hcred, hconn⟩ := h.announced a ha
    exact ⟨n, q, getElem?_append_of hopened, hcred, hconn⟩

theorem Settled.send {s : System} (h : Settled s) {n : Nat} {event : ImapEvent} {o : Opened}
    (ho : s.opened[n]? = some o) (hok : fallsSilent s (.send n event)) :
    Settled { s with
      channel := s.channel ++ [⟨n, o.account, event⟩]
      connected := if event = .connected then s.connected ++ [n] else s.connected } := by
  have hmono : ∀ m ∈ s.connected,
      m ∈ if event = .connected then s.connected ++ [n] else s.connected := by
    intro m hm
    split
    · exact List.mem_append_left _ hm
    · exact hm
  refine ⟨fun e he m hm => ?_, fun e he hevent => ?_, h.credentials, h.nothing, ?_⟩
  · rcases List.mem_append.mp he with he | he
    · exact h.current e he m hm
    · obtain rfl := List.mem_singleton.mp he
      obtain ⟨v, hv, rfl⟩ := Option.map_eq_some_iff.mp hm
      exact hok o ho v hv
  · rcases List.mem_append.mp he with he | he
    · exact hmono _ (h.connected e he hevent)
    · obtain rfl := List.mem_singleton.mp he
      rw [if_pos hevent]
      exact List.mem_append_right _ (List.mem_singleton.mpr rfl)
  · intro a ha
    obtain ⟨m, p, hopened, hcred, hconn⟩ := h.announced a ha
    exact ⟨m, p, hopened, hcred, hmono m hconn⟩

theorem Settled.pump {out : Outside} {s s' : System} (h : Settled s)
    (hst : s.step out .pump = some s') : Settled s' := by
  obtain rfl := Option.some.inj hst
  have hsessions : (s.events.foldl (fun core e => core.handleImapEvent out e.1 e.2)
      s.core).sessions = s.core.sessions :=
    AppCore.foldl_handled (P := fun core => core.sessions = s.core.sessions) s.events
      (fun _ _ _ _ hc hh => hh.sessions.trans hc) rfl
  refine ⟨fun e he => absurd he (by simp), fun e he => absurd he (by simp), ?_, rfl, ?_⟩
  · intro o ho
    exact h.credentials o (hsessions ▸ ho)
  · intro a ha
    rcases List.mem_append.mp ha with ha | ha
    · exact h.announced a ha
    · obtain ⟨account, haccount, rfl⟩ := List.mem_map.mp ha
      rcases persist_of_events s.events account haccount with hbefore | ⟨hevent, o, ho, hsome⟩
      · rw [h.nothing] at hbefore
        cases hbefore
      · obtain ⟨e, he, hpair⟩ := List.mem_map.mp hevent
        obtain ⟨rfl, hconnected⟩ := Prod.mk.inj hpair
        obtain ⟨p, hopened, hcred⟩ := h.credentials o (List.mem_of_find?_eq_some ho)
        have hid : o.1 = e.account := of_decide_eq_true (List.find?_some
          (p := fun s : AccountId × Nat × Option (AccountConfig × Auth) => s.1 = e.account) ho)
        -- The sending is of the session whose credentials are to be saved.
        obtain ⟨v, hv, howner⟩ := view_of_find ho
        have hnumber : o.2.1 = e.number := by
          refine (h.current e he o.2.1 (by rw [number, hv, ← howner]; rfl)).resolve_right fun hpass => ?_
          rw [hconnected] at hpass
          exact absurd hpass (by decide)
        obtain ⟨v', hv', howner'⟩ := view_of_find (hsessions.symm ▸ ho)
        have hpending : v'.pendingPersist = o.2.2 := congrArg (fun o => o.2.2) howner'
        rcases hcred with hnone | hp
        · rw [hnone] at hsome
          cases hsome
        · obtain ⟨q, hq⟩ := Option.isSome_iff_exists.mp hsome
          have hgiven : (some v').bind AccountView.pendingPersist = some q := hpending.trans hq
          rw [← hv'] at hgiven
          refine ⟨e.number, q, ?_, hgiven, h.connected e he hconnected⟩
          rw [← hnumber, hopened, hid, ← hp, hq]

theorem Settled.step {out : Outside} {s s' : System} {a : Action} (h : Settled s)
    (hok : fallsSilent s a) (hst : s.step out a = some s') : Settled s' := by
  cases a with
  | activate account mailbox =>
    obtain rfl := Option.some.inj hst
    obtain ⟨-, -, -, hsessions, hpersist⟩ := s.core.activate_spec account mailbox
    exact h.of_sessions hsessions hpersist
  | openSession config auth p =>
    obtain rfl := Option.some.inj hst
    exact h.openSession hok
  | disconnectAccount account =>
    obtain rfl := Option.some.inj hst
    obtain ⟨hsessions, hpersist, -⟩ := s.core.disconnectAccount_spec account
    refine h.of_core (fun a n hn => number_disconnectAccount hn) (fun o ho => ?_) hpersist
    rw [hsessions] at ho
    exact ⟨o, List.mem_of_mem_filter ho, rfl, rfl, .inr rfl⟩
  | fetchHeaders mailbox page =>
    obtain rfl := Option.some.inj hst
    have hquiet := s.core.quiet_fetchHeaders mailbox page
    exact h.of_sessions hquiet.sessions hquiet.persist
  | takePendingPersist account =>
    obtain rfl := Option.some.inj hst
    refine h.of_core (fun a n hn => ?_) (fun o ho => ?_) rfl
    · rw [number_takePendingPersist] at hn
      exact hn
    · obtain ⟨v, hv, rfl⟩ := List.mem_map.mp ho
      obtain ⟨v₀, hv₀, rfl | rfl⟩ := AppCore.mem_modifyFirst hv
      · exact ⟨v.owner, List.mem_map_of_mem hv₀, rfl, rfl, .inr rfl⟩
      · exact ⟨v₀.owner, List.mem_map_of_mem hv₀, rfl, rfl, .inl rfl⟩
  | send n event =>
    obtain ⟨o, ho, rfl⟩ := Option.map_eq_some_iff.mp hst
    exact h.send ho hok
  | pump => exact h.pump hst

theorem settled_of_reach {out : Outside} {s : System} (h : (machine out).Reach fallsSilent s) :
    Settled s := by
  refine h.invariant ?_ fun s a s' _ hsettled hok hst => hsettled.step hok hst
  rintro s ⟨hcore, hchannel, hopened, hconnected, hannounced⟩
  refine ⟨?_, ?_, ?_, by rw [hcore], ?_⟩
  · rw [hchannel]
    simp
  · rw [hchannel]
    simp
  · rw [hcore]
    simp [AppCore.sessions]
  · rw [hannounced]
    simp

/-! ## 4. What a session that is gone does -/

/-- In a run in which nothing that `pump` acts on is in the channel when a session is replaced, the events
of sessions that are gone change nothing and announce nothing; and each account the frontend was asked
to save was saved with what the session was opened with that has connected. -/
theorem superseded_silent {out : Outside} {s : System} (h : (machine out).Reach fallsSilent s) :
    AppCore.pump out s.core s.events = AppCore.pump out s.core s.currentEvents ∧
      ∀ a ∈ s.announced, ∃ n p, s.opened[n]? = some ⟨a.1, some p⟩ ∧ a.2 = some p ∧ n ∈ s.connected := by
  have hsettled := settled_of_reach h
  refine ⟨?_, hsettled.announced⟩
  refine congrArg AppCore.takeChanges (foldl_filter out (ofCurrent s.core) s.channel ?_)
  intro e he hgone
  rcases hview : s.core.view e.account with _ | v
  · exact .inl rfl
  · refine (hsettled.current e he v.session.number (by rw [number, hview]; rfl)).imp_left fun hcurrent => ?_
    rw [ofCurrent, hview, Option.any_some, hcurrent] at hgone
    exact absurd hgone (by simp)

instance (s : System) : (a : Action) → Decidable (fallsSilent s a)
  | .openSession account _ _ => inferInstanceAs (Decidable
      (∀ e ∈ s.channel, e.account = account.id → passesOver e.event = true))
  | .send number event => inferInstanceAs (Decidable
      (∀ o ∈ s.opened[number]?, ∀ v ∈ s.core.view o.account,
        v.session.number = number ∨ passesOver event = true))
  | .activate .. | .disconnectAccount _ | .fetchHeaders .. | .takePendingPersist _ | .pump =>
    isTrue trivial

/-- Such a run: the account is tried with a wrong password, which fails, and then with the right one;
what is saved are the credentials of the second session.  The account is then removed, and what its
session says late changes nothing. -/
theorem superseded_silent_of_retry : ∃ s : System,
    s.announced = [("me", some (me, .password "right"))] ∧ s.events = [("me", .error "gone")] ∧
      AppCore.pump plainOutside s.core s.events = AppCore.pump plainOutside s.core [] ∧
      ∀ a ∈ s.announced, ∃ n p, s.opened[n]? = some ⟨a.1, some p⟩ ∧ a.2 = some p ∧
        n ∈ s.connected := by
  obtain ⟨s, hr, hp⟩ := Machine.exists_reach_of_trace (machine plainOutside) fallsSilent
    [.openSession me (.password "wrong") (some (me, .password "wrong")), .send 0 (.error "no"), .pump,
      .openSession me (.password "right") (some (me, .password "right")), .send 1 .connected, .pump,
      .disconnectAccount "me", .send 1 (.error "gone")]
    (fun s => decide (s.announced = [("me", some (me, .password "right"))] ∧
      s.events = [("me", .error "gone")] ∧ s.currentEvents = []))
    (⟨rfl, rfl, rfl, rfl, rfl⟩ : Fresh fresh) (by decide)
  obtain ⟨hannounced, hevents, hcurrent⟩ := of_decide_eq_true hp
  obtain ⟨hsame, hsaved⟩ := superseded_silent hr
  rw [hcurrent] at hsame
  exact ⟨s, hannounced, hevents, hsame, hsaved⟩

/-- The first session has connected, and before the core hears of it, the account is opened again with
another password.  That password is saved, though its session has not connected. -/
theorem unaccepted_password_is_saved : ¬ ∀ s : System, (machine plainOutside).Reach Machine.any s →
    ∀ a ∈ s.announced, ∃ n p, s.opened[n]? = some ⟨a.1, some p⟩ ∧ a.2 = some p ∧
      n ∈ s.connected := by
  intro hall
  obtain ⟨s, hr, hp⟩ := Machine.exists_reach_of_trace (machine plainOutside) Machine.any
    [.openSession me (.password "right") (some (me, .password "right")), .send 0 .connected,
      .openSession me (.password "wrong") (some (me, .password "wrong")), .pump]
    (fun s => decide (s.announced = [("me", some (me, .password "wrong"))] ∧ s.connected = [0] ∧
      s.opened[0]? = some (⟨"me", some (me, .password "right")⟩ : Opened)))
    (⟨rfl, rfl, rfl, rfl, rfl⟩ : Fresh fresh) (by decide)
  obtain ⟨hannounced, hconnected, hopened⟩ := of_decide_eq_true hp
  obtain ⟨n, p, hn, hsaved, hmem⟩ := hall s hr ("me", some (me, .password "wrong"))
    (by rw [hannounced]; simp)
  rw [hconnected, List.mem_singleton] at hmem
  rw [hmem, hopened] at hn
  have hright := congrArg Opened.pendingPersist (Option.some.inj hn)
  exact absurd (hright.trans hsaved.symm) (by decide)

end System

end Esmail.App
