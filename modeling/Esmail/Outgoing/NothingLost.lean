/-
# No version is lost by a step, but by those that `loses` names

Two invariants of every run.  `Upheld`: each version the program answers for is in a table, a send, a
window that has taken it over, or has been delivered or thrown away; or a newer one of the message is.
`Held`: what windows have taken over they still have, or have asked for.  For each action there is a lemma
that it keeps up the one, and a lemma that it keeps up the other, if `loses` does not name it.

`Upheld` rests on `Leaves`, which says of each function of the main window what rows and sends it leaves;
and where a version is written over by one of the same id (a save, a second send), on `Lines`: an id only
gets newer.  `Held` is about the windows and the requests alone.
-/
import Esmail.Outgoing.Written

namespace Esmail

open Transition

namespace Written

open Books Esmail.System

variable {t t' : Written} {a : Action} {s' : System}

/-! ## 1. What windows have taken over they keep -/

theorem forward_put {s : System} (hlines : Lines s) {id : ComposeId} {w : Window} (w' : Window)
    (hw : s.window id = some w) (hid : w'.id = w.id) (hle : w.stamp.UpTo w'.stamp) :
    ∀ v ∈ s.windows, ∃ v' ∈ (s.putWindow w').windows, v'.id = v.id ∧ v.stamp.UpTo v'.stamp := by
  intro v hv
  by_cases hsame : v.id = w'.id
  · obtain rfl := hlines.sameWindow hv (window_mem hw).1 (hsame.trans hid)
    exact ⟨w', List.mem_map.mpr ⟨v, hv, if_pos hsame⟩, hid, hle⟩
  · exact ⟨v, List.mem_map.mpr ⟨v, hv, if_neg hsame⟩, rfl, .refl _⟩

theorem forward_same {s : System} {windows : List Window} (h : ∀ w ∈ s.windows, w ∈ windows) :
    ∀ w ∈ s.windows, ∃ w' ∈ windows, w'.id = w.id ∧ w.stamp.UpTo w'.stamp :=
  fun w hw => ⟨w, h w hw, rfl, .refl _⟩

theorem mem_opened {s : System} (state : ComposeState) (opens : Bool) : ∀ w ∈ s.windows, w ∈ s.opened state opens := by
  intro w hw
  unfold opened
  split
  · exact List.mem_append_left _ hw
  · exact hw

theorem asks_mono {requests requests' : List (ComposeId × Request)} (h : ∀ q ∈ requests, q ∈ requests')
    {p : ComposeId × Stamp} (hp : asks requests p = true) : asks requests' p = true := by
  obtain ⟨q, hq, hasks⟩ := List.any_eq_true.mp hp
  exact List.any_eq_true.mpr ⟨q, h q hq, hasks⟩

/-- The windows show as much, and nothing that they have asked for is gone. -/
theorem Held.forward (h : Held t)
    (hwindows : ∀ w ∈ t.sys.windows, ∃ w' ∈ s'.windows, w'.id = w.id ∧ w.stamp.UpTo w'.stamp)
    (hrequests : ∀ q ∈ t.sys.requests, q ∈ s'.requests)
    (hfalls : ∀ p ∈ t.falls a, shows s'.windows p = true ∨ asks s'.requests p = true) :
    Held (t.next a s') := by
  intro p hp
  rcases List.mem_append.mp (List.mem_of_mem_filter hp) with hp | hp
  · refine (h p hp).imp (fun hshows => ?_) fun hasks => asks_mono hrequests hasks
    obtain ⟨w, hw, hid, hle⟩ := shows_iff.mp hshows
    obtain ⟨w', hw', hid', hle'⟩ := hwindows w hw
    exact shows_iff.mpr ⟨w', hw', hid'.trans hid, hle.trans hle'⟩
  · exact hfalls p hp

/-- A window goes: what it has taken over it has asked for. -/
theorem Held.drop (h : Held t) (hlines : Lines t.sys) {id : ComposeId} {w : Window}
    (hw : t.sys.window id = some w) (hwindows : s'.windows = (t.sys.dropWindow id).windows)
    (hrequests : ∀ q ∈ t.sys.requests, q ∈ s'.requests) (hfalls : t.falls a = [])
    (hgone : ∀ p ∈ t.taken, p ∈ t.after a → p.1 = id → p.2.UpTo w.stamp → asks s'.requests p = true) :
    Held (t.next a s') := by
  intro p hp
  have htaken : p ∈ t.taken := by
    have hmem := List.mem_of_mem_filter hp
    rwa [hfalls, List.append_nil] at hmem
  rcases h p htaken with hshows | hasks
  · obtain ⟨v, hv, hid, hle⟩ := shows_iff.mp hshows
    by_cases hsame : v.id = id
    · obtain ⟨hmem, hwid⟩ := window_mem hw
      obtain rfl := hlines.sameWindow hv hmem (hsame.trans hwid.symm)
      exact .inr (hgone p htaken hp (hid.symm.trans hsame) hle)
    · refine .inl (shows_iff.mpr ⟨v, ?_, hid, hle⟩)
      rw [show (t.next a s').sys.windows = (t.sys.dropWindow id).windows from hwindows]
      exact List.mem_filter.mpr ⟨hv, by simpa using hsame⟩
  · exact .inr (asks_mono hrequests hasks)

/-- What the user throws away with the window, the window need not keep. -/
theorem not_mem_after {q : Stamp} (hq : q ∈ throws t.sys a) {p : ComposeId × Stamp} (hle : p.2.UpTo q) :
    p ∉ t.after a := by
  intro hp
  have hnot := (List.mem_filter.mp hp).2
  rw [List.any_eq_true.mpr ⟨q, List.mem_append_right _ hq, decide_eq_true hle⟩] at hnot
  exact absurd hnot (by decide)

/-- The window has asked for all it has taken over. -/
theorem asks_of_not_alone {id : ComposeId} (h : t.alone id = false) {p : ComposeId × Stamp} (hp : p ∈ t.taken)
    (hid : p.1 = id) : asks t.sys.requests p = true := by
  have hnot := List.any_eq_false.mp h p hp
  simpa [hid] using hnot

theorem held_closeBox (h : Held t) (hlines : Lines t.sys) {id : ComposeId} {choice : Window.Close}
    (hok : t.loses (.closeBox id choice) = false) (hstep : t.sys.step (.closeBox id choice) = some s') :
    Held (t.next (.closeBox id choice) s') := by
  obtain ⟨w, hw, rfl⟩ := Option.map_eq_some_iff.mp hstep
  obtain ⟨hmem, hwid⟩ := window_mem hw
  simp only [loses, hw, Option.any_some] at hok
  split
  · exact h.forward (forward_same fun _ hv => hv) (fun _ hq => hq) (by simp [falls])
  · next rs hrs =>
    refine h.drop hlines hw rfl (fun _ hq => List.mem_append_left _ hq) rfl fun p hp hafter hid hle => ?_
    unfold Window.closeRequested at hrs hok
    by_cases hquiet : (w.sending || !w.edited) = true
    · rw [if_pos hquiet, decide_eq_true rfl, Bool.true_and] at hok
      exact asks_mono (fun _ hq => List.mem_append_left _ hq) (asks_of_not_alone hok hp hid)
    · rw [if_neg hquiet] at hrs
      have hedited : w.sending = false ∧ w.edited = true := by simpa using hquiet
      cases choice with
      | save =>
        cases hrs
        exact asks_iff.mpr ⟨(id, .saveDraft w.snapshot true), by simp [ask], hid.symm, w.snapshot, rfl, hle⟩
      | discard =>
        have hthrown : w.stamp ∈ throws t.sys (.closeBox id .discard) :=
          List.mem_map.mpr ⟨w, List.mem_filter.mpr ⟨hmem, by simp [hwid, hedited]⟩, rfl⟩
        exact absurd hafter (not_mem_after hthrown hle)
      | cancel => exact absurd hrs (by simp)

theorem held_clickDiscard (h : Held t) (hlines : Lines t.sys) {id : ComposeId}
    (hstep : t.sys.step (.clickDiscard id) = some s') : Held (t.next (.clickDiscard id) s') := by
  obtain ⟨w, hw, rfl⟩ := Option.map_eq_some_iff.mp hstep
  obtain ⟨hmem, hwid⟩ := window_mem hw
  refine h.drop hlines hw rfl (fun _ hq => List.mem_append_left _ hq) rfl fun p _ hafter _ hle => ?_
  have hthrown : w.stamp ∈ throws t.sys (.clickDiscard id) :=
    List.mem_map.mpr ⟨w, List.mem_filter.mpr ⟨hmem, by simp [hwid]⟩, rfl⟩
  exact absurd hafter (not_mem_after hthrown hle)

theorem held_receive (h : Held t) (hlines : Lines t.sys) {id : ComposeId}
    (hok : t.loses (.receive id) = false) (hstep : t.sys.step (.receive id) = some s') :
    Held (t.next (.receive id) s') := by
  obtain ⟨w, hw, hstep⟩ := Option.bind_eq_some_iff.mp hstep
  obtain ⟨p, hp, rfl⟩ := Option.map_eq_some_iff.mp hstep
  simp only [loses, hw, hp, Option.any_some] at hok
  dsimp only
  split
  · next w' hw' =>
    obtain ⟨hid, hstamp⟩ := update_stamp hw'
    exact h.forward (forward_put hlines w' hw hid (hstamp ▸ .refl _)) (fun _ hq => hq) (by simp [falls])
  · next hnone =>
    rw [hnone, Option.isNone_none, Bool.true_and] at hok
    exact h.drop hlines hw rfl (fun _ hq => List.mem_append_left _ hq) rfl fun p hp _ hid _ =>
      asks_mono (fun _ hq => List.mem_append_left _ hq) (asks_of_not_alone hok hp hid)

theorem held_of_falls {l : List (ComposeId × Stamp)} {windows : List Window}
    {requests : List (ComposeId × Request)}
    (hok : (l.any fun p => !(shows windows p || asks requests p)) = false) :
    ∀ p ∈ l, shows windows p = true ∨ asks requests p = true := by
  intro p hp
  have hnot := List.any_eq_false.mp hok p hp
  rw [Bool.not_eq_true, Bool.not_eq_false'] at hnot
  exact Bool.or_eq_true_iff.mp hnot

theorem held_handleRequest {refusal : Option String} (hok : t.loses (.handleRequest refusal) = false)
    (hstep : t.sys.step (.handleRequest refusal) = some s') : Held (t.next (.handleRequest refusal) s') := by
  obtain ⟨id, r, rest, hrequests, rfl⟩ := System.of_step_handleRequest hstep
  rw [loses, hrequests, List.tail_cons] at hok
  exact held_of_falls hok

theorem held_handleOutcome (h : Held t) (hok : t.loses .handleOutcome = false)
    (hstep : t.sys.step .handleOutcome = some s') : Held (t.next .handleOutcome s') := by
  obtain ⟨o, rest, houtcomes, rfl⟩ := System.of_step_handleOutcome hstep
  refine h.forward (forward_same fun _ hw => hw) (fun _ hq => hq) ?_
  cases o with
  | sent id => simp [falls, houtcomes]
  | error id error =>
    rw [loses, houtcomes] at hok
    exact held_of_falls hok

theorem held_editQueued (h : Held t) (hnumbered : Numbered t.sys.main.books) {row : Row} {opens : Bool}
    (hok : t.loses (.editQueued row opens) = false) (hstep : t.sys.step (.editQueued row opens) = some s') :
    Held (t.next (.editQueued row opens) s') := by
  simp only [System.step] at hstep
  split at hstep
  · next hnone =>
    cases hstep
    exact h.forward (forward_same fun _ hw => hw) (fun _ hq => hq) (by simp [falls, hnone])
  · next item hitem =>
    cases hstep
    refine h.forward (forward_same (mem_opened _ opens)) (fun _ hq => hq) fun p hp => ?_
    cases opens with
    | false =>
      rw [loses, Bool.not_false, Bool.true_and, Bool.not_eq_false', List.isEmpty_iff] at hok
      rw [hok] at hp
      exact absurd hp List.not_mem_nil
    | true =>
      -- The new window shows what the row holds.
      obtain ⟨hlisted, hid⟩ := listedItem_mem hitem
      simp only [falls, hitem] at hp
      split at hp
      · obtain ⟨r, hr, rfl⟩ := List.mem_map.mp hp
        obtain ⟨hr, hrow⟩ := List.mem_filter.mp hr
        have hrow : r.1 = row := of_decide_eq_true (Bool.and_eq_true_iff.mp hrow).1
        have hlt : r.1 < t.sys.main.books.nextOutbox := by
          rw [hrow, ← hid]
          exact hnumbered.listed_lt item hlisted
        have hmem := hnumbered.mem_outbox hr hlt
        have hsame : r.2 = item.compose :=
          hnumbered.listed_eq item (.inl hlisted) r.2 (by rw [hid, ← hrow]; exact hmem)
        refine .inl (shows_iff.mpr ⟨Window.new t.sys.main.deliveries.nextId.1 t.sys.main.accounts
          (item.compose.withAccount (some item.accountId)), ?_, rfl, ?_⟩)
        · exact List.mem_append_right _ (List.mem_singleton_self _)
        · rw [hsame]
          exact .refl _
      · exact absurd hp List.not_mem_nil

theorem held_reload (h : Held t) {accounts : List AccountId} (hok : t.loses (.reload accounts) = false)
    (hstep : t.sys.step (.reload accounts) = some s') : Held (t.next (.reload accounts) s') := by
  cases hstep
  exact h.forward (forward_same fun _ hw => hw) (fun _ hq => hq) (held_of_falls hok)

theorem Held.step (h : Held t) {ok : System → Action → Prop} (hr : System.machine.Reach ok t.sys)
    (hok : t.loses a = false) (hst : machine.step t a = some t') : Held t' := by
  obtain ⟨s', hstep, rfl⟩ := Option.map_eq_some_iff.mp hst
  have hlines := lines hr
  have hdated := dated hr
  have hsame : ∀ w ∈ t.sys.windows, ∃ w' ∈ t.sys.windows, w'.id = w.id ∧ w.stamp.UpTo w'.stamp :=
    forward_same fun _ hw => hw
  have hnewer : ∀ {id : ComposeId} {w : Window}, t.sys.window id = some w →
      w.stamp.UpTo ⟨w.stamp.msg, t.sys.clock⟩ := fun hw =>
    ⟨rfl, Nat.le_of_lt (hdated.window _ (window_mem hw).1)⟩
  cases a with
  | compose text account opens =>
    simp only [System.step] at hstep
    split at hstep <;> cases hstep
    · exact h.forward hsame (fun _ hq => hq) (by simp [falls])
    · exact h.forward (forward_same (mem_opened _ opens)) (fun _ hq => hq) (by simp [falls])
  | edit id text sender =>
    obtain ⟨w, hw, hstep⟩ := Option.bind_eq_some_iff.mp hstep
    obtain ⟨w', hw', rfl⟩ := Option.map_eq_some_iff.mp hstep
    unfold Window.edit at hw'
    split at hw'
    · exact absurd hw' (by simp)
    · cases hw'
      exact h.forward (forward_put hlines { w with
        text := text, sender := sender, stamp := { w.stamp with rev := t.sys.clock } } hw rfl (hnewer hw))
        (fun _ hq => hq) (by simp [falls])
  | attach id files =>
    obtain ⟨w, hw, rfl⟩ := Option.map_eq_some_iff.mp hstep
    exact h.forward (forward_put hlines (w.attachmentsRead files t.sys.clock) hw rfl (hnewer hw))
      (fun _ hq => hq) (by simp [falls])
  | clickSend id =>
    obtain ⟨w, hw, rfl⟩ := Option.map_eq_some_iff.mp hstep
    exact h.forward hsame (fun _ hq => List.mem_append_left _ hq) (by simp [falls])
  | clickSave id =>
    obtain ⟨w, hw, rfl⟩ := Option.map_eq_some_iff.mp hstep
    exact h.forward (forward_put hlines (w.saveDraft true).1 hw rfl (.refl _))
      (fun _ hq => List.mem_append_left _ hq) (by simp [falls])
  | timer id =>
    obtain ⟨w, hw, rfl⟩ := Option.map_eq_some_iff.mp hstep
    obtain ⟨hid, hstamp⟩ := timer_stamp w
    exact h.forward (forward_put hlines w.timer.1 hw hid (hstamp ▸ .refl _))
      (fun _ hq => List.mem_append_left _ hq) (by simp [falls])
  | clickDiscard id => exact held_clickDiscard h hlines hstep
  | closeBox id choice => exact held_closeBox h hlines hok hstep
  | receive id => exact held_receive h hlines hok hstep
  | handleRequest refusal => exact held_handleRequest hok hstep
  | handleEvent refusal opens =>
    obtain ⟨e, rest, -, rfl⟩ := System.of_step_handleEvent hstep
    refine h.forward (forward_same ?_) (fun _ hq => hq) (by simp [falls])
    cases e with
    | draftLoaded row state => exact mem_opened _ opens
    | _ => exact fun _ hw => hw
  | handleOutcome => exact held_handleOutcome h hok hstep
  | deleteRow kind row =>
    obtain ⟨-, heq⟩ := Option.ite_none_right_eq_some.mp hstep
    cases heq
    exact h.forward hsame (fun _ hq => hq) (by simp [falls])
  | editQueued row opens => exact held_editQueued h (System.numbered hr) hok hstep
  | retryQueued row refusal =>
    simp only [System.step] at hstep
    split at hstep <;> cases hstep <;> exact h.forward hsame (fun _ hq => hq) (by simp [falls])
  | execute =>
    obtain ⟨m, -, rfl⟩ := Option.map_eq_some_iff.mp hstep
    exact h.forward hsame (fun _ hq => hq) (by simp [falls])
  | mail error =>
    obtain ⟨c, rest, -, rfl⟩ := System.of_step_mail hstep
    exact h.forward hsame (fun _ hq => hq) (by simp [falls])
  | reload accounts => exact held_reload h hok hstep
  | poll | openDraft _ | otherCommand | showQueue _ | closeQueue _ | tick _ =>
    cases hstep
    exact h.forward hsame (fun _ hq => hq) (by simp [falls])

/-! ## 2. Requests -/

/-- A step that leaves the books as they are. -/
theorem Upheld.quiet (h : Upheld t) (hbooks : s'.main.books = t.sys.main.books)
    (hpromised : s'.promised = t.sys.promised) (hdelivered : s'.delivered = t.sys.delivered)
    (hsettles : settles t.sys a = []) : Upheld (t.next a s') := by
  refine h.stay (carried_next (fun _ hp => hdelivered ▸ hp) (by simp [hsettles])) ?_ fun p hp => ?_
  · have hsame : (t.next a s').sys.main.books = t.sys.main.books := hbooks
    exact hsame ▸ .refl _
  · exact .inl (List.mem_append_left _ (hpromised ▸ hp))

theorem books_accepts {m : MainWindow} {refusal : Option String} {id : ComposeId} {state : ComposeState}
    (h : accepts m refusal id state = true) : ∃ account config,
      (m.sendMessage refusal id state).books =
        (m.books.hand id config state).withDeliveries (m.books.deliveries.begin id account state) := by
  unfold accepts at h
  unfold MainWindow.sendMessage
  cases haccount : state.accountId.bind m.accountIndex with
  | none =>
    rw [haccount] at h
    exact absurd h (by simp)
  | some account =>
    rw [haccount] at h
    dsimp only at h ⊢
    cases hmail : m.sendMail refusal id account state with
    | error error =>
      rw [hmail] at h
      exact absurd h (by simp [Except.isOk, Except.toBool])
    | ok m' =>
      dsimp only
      rw [MainWindow.books_tell]
      unfold MainWindow.sendMail at hmail
      split at hmail
      · exact absurd hmail (by simp)
      · next config _ =>
        split at hmail
        · exact absurd hmail (by simp)
        · split at hmail
          · cases hmail
            exact ⟨account, config, rfl⟩
          · exact absurd hmail (by simp)

theorem accepted_nil {m m' : MainWindow} (h : m'.books.mails.length ≤ m.books.mails.length) :
    accepted m m' = [] := by
  have hlen : m'.mails.length ≤ m.mails.length := h
  rw [accepted, List.drop_eq_nil_of_le hlen]
  rfl

/-- The message is with the mailer. -/
theorem upheld_hand (h : Upheld t) (hlines : Lines t.sys) {refusal : Option String} {id : ComposeId}
    {state : ComposeState} {rest : List (ComposeId × Request)}
    (hrequests : t.sys.requests = (id, .send state) :: rest) {account : Nat} {config : AccountId}
    (hbooks : s'.main.books = (t.sys.main.books.hand id config state).withDeliveries
      (t.sys.main.books.deliveries.begin id account state))
    (hpromised : s'.promised = t.sys.promised ++ accepted t.sys.main s'.main)
    (hdelivered : s'.delivered = t.sys.delivered) : Upheld (t.next (.handleRequest refusal) s') := by
  have hflight : s'.main.books.deliveries.inFlight.lookup id = some ⟨account, state⟩ := by
    rw [hbooks]
    exact AList.lookup_insert _
  have houtstanding : ∀ id', id' ∈ t.sys.main.books.outstanding ∨ id' = id →
      id' ∈ s'.main.books.outstanding := by
    rintro id' hid'
    rw [hbooks]
    simp only [outstanding, hand, withDeliveries, List.map_append, List.mem_append] at hid' ⊢
    rcases hid' with (hid' | hid') | rfl
    · exact .inl hid'
    · exact .inr (.inl hid')
    · exact .inr (.inr (by simp))
  have hsent : Covered (t.next (.handleRequest refusal) s').kept state.stamp :=
    covered_send (mem_sends.mpr ⟨id, houtstanding id (.inr rfl), _, hflight, rfl⟩)
  have hahead : s'.main.books.ahead = t.sys.main.books.ahead := by rw [hbooks]; rfl
  have hsettles : ∀ q ∈ settles t.sys (.handleRequest refusal), q = state.stamp := by
    intro q hq
    simp only [settles, hrequests] at hq
    split at hq
    · exact List.mem_singleton.mp hq
    · exact absurd hq List.not_mem_nil
  refine h.next (carried_next (fun _ hp => hdelivered ▸ hp) fun q hq => hsettles q hq ▸ hsent)
    (fun p hp => ?_) ?_ ?_ ?_
  · have hp : p ∈ s'.promised ++ s'.main.books.writes.flatMap stored := hp
    rw [hpromised, List.append_assoc] at hp
    rcases List.mem_append.mp hp with hp | hp
    · exact .inl (List.mem_append_left _ hp)
    rcases List.mem_append.mp hp with hp | hp
    · have hmails : s'.main.mails = t.sys.main.mails ++ [⟨id, config, state⟩] :=
        congrArg Books.mails hbooks
      rw [accepted, hmails, List.drop_left] at hp
      rw [List.mem_singleton.mp hp]
      exact .inr hsent
    · rw [hbooks] at hp
      exact .inl (List.mem_append_right _ hp)
  · exact fun r hr => covered_draft (t := t.next _ s') (hahead.symm ▸ hr)
  · exact fun r hr => covered_outbox (t := t.next _ s') (hahead.symm ▸ hr)
  · intro st hst
    obtain ⟨id', hid', flight, hf, rfl⟩ := mem_sends.mp hst
    by_cases hid : id' = id
    · -- What was sent under this id before is no newer.
      have hpast := (hlines.flight id' flight hf).request (.send state) state
        (hid ▸ hrequests ▸ List.mem_cons_self) rfl
      exact hsent.upTo hpast
    · have hflight' : s'.main.books.deliveries.inFlight.lookup id' = some flight := by
        rw [hbooks]
        exact (AList.lookup_insert_ne hid).trans hf
      exact covered_send (mem_sends.mpr ⟨id', houtstanding id' (.inl hid'), flight, hflight', rfl⟩)

/-- A request that neither stores nor sends, and no row goes. -/
theorem upheld_dropRequest (h : Upheld t) {refusal : Option String}
    (hleaves : Leaves (fun _ => False) (fun _ => False) (fun _ => False) t.sys.main.books s'.main.books)
    (hpromised : s'.promised = t.sys.promised ++ accepted t.sys.main s'.main)
    (hdelivered : s'.delivered = t.sys.delivered) (hsettles : settles t.sys (.handleRequest refusal) = []) :
    Upheld (t.next (.handleRequest refusal) s') := by
  rw [accepted_nil hleaves.mails, List.append_nil] at hpromised
  exact h.stay (carried_next (fun _ hp => hdelivered ▸ hp) (by simp [hsettles])) hleaves fun p hp =>
    .inl (List.mem_append_left _ (hpromised ▸ hp))

/-- A save is queued. -/
theorem upheld_store (h : Upheld t) (hlines : Lines t.sys) {refusal : Option String} {id : ComposeId}
    {state c : ComposeState} {explicit : Bool} {rest : List (ComposeId × Request)}
    (hrequests : t.sys.requests = (id, .saveDraft state explicit) :: rest) {entry entry' : Entry}
    (hentry : t.sys.main.books.entries.lookup id = some entry) (hc : c.stamp = state.stamp)
    (hbooks : s'.main.books = { t.sys.main.books.setEntry id entry' with
      writes := t.sys.main.books.writes ++ [.saveDraft entry.draft id state.accountId c] })
    (hpromised : s'.promised = t.sys.promised ++ accepted t.sys.main s'.main)
    (hdelivered : s'.delivered = t.sys.delivered) (hqueues : queues t.sys.main id state = true) :
    Upheld (t.next (.handleRequest refusal) s') := by
  have hahead : s'.main.books.ahead =
      t.sys.main.books.ahead.run (.saveDraft entry.draft id state.accountId c) := by
    rw [hbooks, ahead, List.foldl_append]
    rfl
  have houtbox : ∀ r ∈ t.sys.main.books.ahead.outbox,
      Covered (t.next (.handleRequest refusal) s').kept r.2.stamp := by
    intro r hr
    refine covered_outbox (t := t.next _ s') ?_
    obtain ⟨-, -, heq, -⟩ := run_saveDraft t.sys.main.books.ahead entry.draft id state.accountId c
    rw [show (t.next (.handleRequest refusal) s').sys.main.books.ahead = _ from hahead, heq]
    exact hr
  -- A row is as it was, or is the row that is saved to, and the version there now is no older.
  have hdrafts : ∀ r ∈ t.sys.main.books.ahead.drafts,
      Covered (t.next (.handleRequest refusal) s').kept r.2.stamp := by
    intro r hr
    cases hdraft : entry.draft with
    | none =>
      rw [hdraft] at hahead
      have hmem : r ∈ s'.main.books.ahead.drafts := by
        rw [hahead]
        exact List.mem_append_left _ hr
      exact covered_draft hmem
    | some row =>
      rw [hdraft] at hahead
      have hmem : (if r.1 = row then (row, c) else r) ∈ s'.main.books.ahead.drafts := by
        rw [hahead]
        exact List.mem_map_of_mem hr
      refine (covered_draft (t := t.next _ s') hmem).upTo ?_
      split
      · next hrow =>
        have hknown : t.sys.main.books.Saves id row := .inr ((draftOf_eq hentry).trans hdraft)
        have hpast := (hlines.draft id row hknown r hr hrow).request (.saveDraft state explicit) state
          (hrequests ▸ List.mem_cons_self) rfl
        exact hc ▸ hpast
      · exact .refl _
  have hfound : findsRow t.sys.main id = true →
      Covered (t.next (.handleRequest refusal) s').kept state.stamp := by
    intro hfinds
    have hmem : ∃ r ∈ s'.main.books.ahead.drafts, r.2.stamp = state.stamp := by
      rw [hahead]
      rw [findsRow, draftOf_eq hentry] at hfinds
      cases hdraft : entry.draft with
      | none => exact ⟨_, List.mem_append_right _ (List.mem_singleton_self _), hc⟩
      | some row =>
        rw [hdraft, Option.all_some, List.any_eq_true] at hfinds
        obtain ⟨r, hr, hrow⟩ := hfinds
        refine ⟨_, List.mem_map_of_mem hr, ?_⟩
        rw [if_pos (of_decide_eq_true hrow)]
        exact hc
    obtain ⟨r, hr, hstamp⟩ := hmem
    exact hstamp ▸ covered_draft (t := t.next _ s') hr
  have hsettles : ∀ q ∈ settles t.sys (.handleRequest refusal),
      Covered (t.next (.handleRequest refusal) s').kept q := by
    intro q hq
    simp only [settles, hrequests, hqueues, Bool.true_and] at hq
    split at hq
    · next hfinds =>
      rw [List.mem_singleton.mp hq]
      exact hfound hfinds
    · exact absurd hq List.not_mem_nil
  have hcarried : Carried t (t.next (.handleRequest refusal) s') :=
    carried_next (fun _ hp => hdelivered ▸ hp) hsettles
  -- It is in its row, or rests elsewhere, or falls to the window.
  have hstored : Covered (t.next (.handleRequest refusal) s').kept state.stamp := by
    cases hfinds : findsRow t.sys.main id with
    | true => exact hfound hfinds
    | false =>
      cases hrests : t.rests t.sys.main.books.ahead state.stamp with
      | true =>
        simp only [rests, tabled, Bool.or_eq_true, List.any_eq_true, decide_eq_true_eq] at hrests
        rcases hrests with (hdone | ⟨r, hr, hle⟩ | ⟨r, hr, hle⟩) | ⟨p, hp, hle⟩
        · exact hcarried.done hdone
        · exact (hdrafts r hr).upTo hle
        · exact (houtbox r hr).upTo hle
        · exact (hcarried.taken p hp).upTo hle
      | false =>
        have hfalls : (id, state.stamp) ∈ t.falls (.handleRequest refusal) := by
          simp [falls, hrequests, hqueues, hfinds, hrests]
        exact covered_after hsettles (.inr hfalls)
  refine h.next hcarried (fun p hp => ?_) hdrafts houtbox
    fun st hst => ?_
  · have hmails : accepted t.sys.main s'.main = [] :=
      accepted_nil (Nat.le_of_eq (by rw [hbooks]; rfl))
    have hp : p ∈ s'.promised ++ s'.main.books.writes.flatMap stored := hp
    rw [hpromised, hmails, List.append_nil, hbooks, List.flatMap_append] at hp
    rcases List.mem_append.mp hp with hp | hp
    · exact .inl (List.mem_append_left _ hp)
    · rcases List.mem_append.mp hp with hp | hp
      · exact .inl (List.mem_append_right _ hp)
      · rw [List.flatMap_singleton] at hp
        rw [List.mem_singleton.mp hp, hc]
        exact .inr hstored
  · refine covered_send (t := t.next _ s') ?_
    have hsame : s'.main.books.sends = t.sys.main.books.sends := by rw [hbooks]; rfl
    exact hsame.symm ▸ hst

/-- A discarded message: what is known of it goes, and everything written of it is thrown away. -/
theorem upheld_discard (h : Upheld t) {ok : System → Action → Prop}
    (hr : System.machine.Reach ok t.sys) {refusal : Option String} {id : ComposeId}
    {rest : List (ComposeId × Request)} (hrequests : t.sys.requests = (id, .discard) :: rest)
    (hbooks : s'.main.books = t.sys.main.books.endSend .deleteOutbox t.sys.main.free id)
    (hpromised : s'.promised = t.sys.promised ++ accepted t.sys.main s'.main)
    (hdelivered : s'.delivered = t.sys.delivered) : Upheld (t.next (.handleRequest refusal) s') := by
  have hdated := (dated hr).books
  obtain ⟨idMsg, rowMsg, hlabels⟩ := hasLabels hr
  obtain ⟨m, ⟨entry, hentry, -, rfl⟩, -⟩ := (wired hr).request _ _ (hrequests ▸ List.mem_cons_self)
  have hmem : (⟨entry.msg, t.sys.clock⟩ : Stamp) ∈ (t.next (.handleRequest refusal) s').thrown := by
    have hlook : t.sys.main.entries.lookup id = some entry := hentry
    simp [Written.next, throws, hrequests, thrownAway, hlook]
  have hgone : ∀ st : Stamp, entry.msg = st.msg → st.rev < t.sys.clock →
      Covered (t.next (.handleRequest refusal) s').kept st := fun st hmsg hrev =>
    (covered_thrown hmem).upTo ⟨hmsg.symm, Nat.le_of_lt hrev⟩
  have hleaves := t.sys.main.books.leaves_endSend (.inr rfl) t.sys.main.free id
  rw [← hbooks] at hleaves
  rw [accepted_nil hleaves.mails, List.append_nil] at hpromised
  have hsettles : settles t.sys (.handleRequest refusal) = [] := by simp [settles, hrequests]
  refine h.leaves (carried_next (fun _ hp => hdelivered ▸ hp) (by simp [hsettles])) hleaves
    (fun p hp => .inl (List.mem_append_left _ (hpromised ▸ hp))) ?_ ?_ ?_
  · intro r hr' hends
    have hknown : t.sys.main.books.Saves id r.1 :=
      .inr (of_decide_eq_true (Bool.and_eq_true_iff.mp hends).1)
    exact hgone _ (((lines hr).draft id r.1 hknown r hr' rfl).entry entry hentry) (hdated.ahead.1 r hr')
  · intro r hr' hends
    have hrow : t.sys.main.books.deliveries.outboxRows.lookup id = some r.1 :=
      of_decide_eq_true (Bool.and_eq_true_iff.mp hends).1
    have hmem := (System.numbered hr).mem_outbox hr' ((System.numbered hr).row_lt id r.1 hrow)
    refine hgone _ ?_ (hdated.ahead.2 r hr')
    rw [hlabels.entry id entry hentry, hlabels.outbox r.1 r.2 hmem, hlabels.owner id r.1 (.inl hrow)]
  · rintro id' - flight hf rfl
    exact hgone _ (((lines hr).flight id' flight hf).entry entry hentry) (hdated.flight id' flight hf)

theorem upheld_handleRequest (h : Upheld t) {ok : System → Action → Prop}
    (hr : System.machine.Reach ok t.sys) {refusal : Option String}
    (hstep : t.sys.step (.handleRequest refusal) = some s') : Upheld (t.next (.handleRequest refusal) s') := by
  obtain ⟨id, r, rest, hrequests, rfl⟩ := System.of_step_handleRequest hstep
  cases r with
  | send state =>
    rcases t.sys.main.books_sendMessage refusal id state with heq | ⟨account, config, -, heq⟩
    · cases haccepts : accepts t.sys.main refusal id state with
      | true =>
        obtain ⟨account, config, hhand⟩ := books_accepts haccepts
        exact upheld_hand h (lines hr) hrequests hhand rfl rfl
      | false =>
        exact upheld_dropRequest h (heq ▸ .refl _) rfl rfl (by simp [settles, hrequests, haccepts])
    · exact upheld_hand h (lines hr) hrequests heq rfl rfl
  | saveDraft state explicit =>
    have hbooks := t.sys.main.books_saveDraft id state explicit
    rcases t.sys.main.books.saveDraft_cases t.sys.main.free id state explicit with
      ⟨-, ⟨entries, heq⟩, hdropped⟩ | ⟨entry, entry', c, hentry, -, -, hc, hfree, hcontent, heq⟩
    · have hqueues : queues t.sys.main id state = false := by
        have hnone : t.sys.main.entries.lookup id = none ∨ hasContent state = false ∨ ¬ 0 < t.sys.main.free :=
          hdropped
        unfold queues
        rcases hnone with hnone | hcontent | hfree
        · simp [hnone]
        · simp [hcontent]
        · simp [hfree]
      refine upheld_dropRequest h ?_ rfl rfl (by simp [settles, hrequests, hqueues])
      rw [heq] at hbooks
      exact hbooks.symm ▸ .same rfl rfl rfl rfl rfl rfl
    · have hqueues : queues t.sys.main id state = true := by
        have hlook : t.sys.main.entries.lookup id = some entry := hentry
        simp [queues, hlook, hcontent, hfree]
      exact upheld_store h (lines hr) hrequests hentry hc (hbooks.trans heq) rfl rfl hqueues
  | discard =>
    exact upheld_discard h hr hrequests (t.sys.main.books_discardMessage id) rfl rfl
  | closed =>
    refine upheld_dropRequest h ?_ rfl rfl (by simp [settles, hrequests])
    have hclosed := t.sys.main.books_windowClosed id
    exact hclosed.symm ▸ leaves_windowClosed ..

/-! ## 3. Answers -/

/-- The outbox timer: what it accepts is with the mailer, or has failed and keeps its row. -/
theorem Upheld.retries (h : Upheld t) (hnumbered : Numbered t.sys.main.books) (hcarried : Carried t t')
    {refusal : ComposeId → Option String} {items : List OutboxItem}
    (hmain : t'.sys.main = t.sys.main.outboxDue refusal items)
    (hpromised : t'.sys.promised = t.sys.promised ++ accepted t.sys.main t'.sys.main) : Upheld t' := by
  have hretried := retried t.sys.main hnumbered refusal items
  rw [← hmain] at hretried
  obtain ⟨new, hmails, hnew⟩ := hretried.mails
  have houtstanding : t'.sys.main.books.outstanding =
      t.sys.main.books.outstanding ++ new.map SmtpCommand.id := by
    rw [outstanding, outstanding, hretried.outcomes, hmails, List.map_append, List.append_assoc]
  refine h.next hcarried (fun p hp => ?_) (fun r hr => covered_draft (hretried.ahead ▸ hr))
    (fun r hr => covered_outbox (hretried.ahead ▸ hr)) fun st hst => ?_
  · rw [answerable, hpromised, hretried.writes, List.append_assoc] at hp
    rcases List.mem_append.mp hp with hp | hp
    · exact .inl (List.mem_append_left _ hp)
    rcases List.mem_append.mp hp with hp | hp
    · have hmails' : t'.sys.main.mails = t.sys.main.mails ++ new := hmails
      rw [accepted, hmails', List.drop_left] at hp
      obtain ⟨c, hc, rfl⟩ := List.mem_map.mp hp
      obtain ⟨-, account, hf⟩ := hnew c hc
      have hid : c.id ∈ t'.sys.main.books.outstanding :=
        houtstanding ▸ List.mem_append_right _ (List.mem_map_of_mem hc)
      exact .inr (covered_send (mem_sends.mpr ⟨c.id, hid, _, hf, rfl⟩))
    · exact .inl (List.mem_append_right _ hp)
  · obtain ⟨id, hid, flight, hf, rfl⟩ := mem_sends.mp hst
    exact covered_send (mem_sends.mpr
      ⟨id, houtstanding ▸ List.mem_append_left _ hid, flight, hretried.flight id flight hf, rfl⟩)

/-- A version may go from its row or its send: it is done, or rests in rows that stay, or falls to a
window. -/
def MayGo (t : Written) (a : Action) (D O : Row → Prop) (st : Stamp) : Prop :=
  t.done st = true ∨
    (∃ rows : Ahead, t.rests rows st = true ∧
      (∀ r ∈ rows.drafts, r ∈ t.sys.main.books.ahead.drafts ∧ ¬ D r.1) ∧
      ∀ r ∈ rows.outbox, r ∈ t.sys.main.books.ahead.outbox ∧ ¬ O r.1) ∨
    ∃ id, (id, st) ∈ t.falls a

/-- Where no row goes: the version rests in one, or falls to a window. -/
theorem mayGo_of_falls (id : ComposeId) {st : Stamp}
    (hfalls : t.rests t.sys.main.books.ahead st = false → (id, st) ∈ t.falls a) :
    t.MayGo a (fun _ => False) (fun _ => False) st := by
  cases hrests : t.rests t.sys.main.books.ahead st with
  | true => exact .inr (.inl ⟨_, hrests, fun _ hr => ⟨hr, fun h => h⟩, fun _ hr => ⟨hr, fun h => h⟩⟩)
  | false => exact .inr (.inr ⟨id, hfalls hrests⟩)

/-- Rows go, and sends, whose versions may go. -/
theorem Upheld.give (h : Upheld t) {D O : Row → Prop} {F : ComposeId → Prop}
    (hleaves : Leaves D O F t.sys.main.books s'.main.books)
    (hpromised : ∀ p ∈ s'.promised, p ∈ t.sys.answerable) (hdelivered : s'.delivered = t.sys.delivered)
    (hsettles : settles t.sys a = [])
    (hD : ∀ r ∈ t.sys.main.books.ahead.drafts, D r.1 → t.MayGo a D O r.2.stamp)
    (hO : ∀ r ∈ t.sys.main.books.ahead.outbox, O r.1 → t.MayGo a D O r.2.stamp)
    (hF : ∀ id ∈ t.sys.main.books.outstanding, ∀ flight,
      t.sys.main.books.deliveries.inFlight.lookup id = some flight → F id →
        t.MayGo a D O flight.state.stamp) : Upheld (t.next a s') := by
  have hcarried : Carried t (t.next a s') := carried_next (fun _ hp => hdelivered ▸ hp) (by simp [hsettles])
  have hgoes : ∀ {st}, t.MayGo a D O st → Covered (t.next a s').kept st := by
    rintro st (hdone | ⟨rows, hrests, hdrafts, houtbox⟩ | ⟨id, hfalls⟩)
    · exact hcarried.done hdone
    · exact covered_rests hcarried hleaves hrests hdrafts houtbox
    · exact covered_after (p := (id, st)) (by simp [hsettles]) (.inr hfalls)
  exact h.leaves hcarried hleaves (fun p hp => .inl (hpromised p hp)) (fun r hr hgone => hgoes (hD r hr hgone))
    (fun r hr hgone => hgoes (hO r hr hgone)) fun id hid flight hf hgone => hgoes (hF id hid flight hf hgone)

theorem promised_goOn {m : MainWindow} (hmails : m.books.mails.length ≤ t.sys.main.books.mails.length) :
    ∀ p ∈ (t.sys.goOn m).promised, p ∈ t.sys.answerable := by
  intro p hp
  have hp : p ∈ t.sys.promised ++ accepted t.sys.main m := hp
  rw [accepted_nil hmails, List.append_nil] at hp
  exact List.mem_append_left _ hp

theorem upheld_handleEvent (h : Upheld t) (hnumbered : Numbered t.sys.main.books)
    {refusal : ComposeId → Option String} {opens : Bool}
    (hok : t.loses (.handleEvent refusal opens) = false)
    (hstep : t.sys.step (.handleEvent refusal opens) = some s') :
    Upheld (t.next (.handleEvent refusal opens) s') := by
  obtain ⟨e, rest, hevents, rfl⟩ := System.of_step_handleEvent hstep
  have hevents' : t.sys.main.books.events = e :: rest := hevents
  have hcarried : ∀ {s' : System}, s'.delivered = t.sys.delivered →
      Carried t (t.next (.handleEvent refusal opens) s') := fun hdelivered =>
    carried_next (fun _ hp => hdelivered ▸ hp) (by simp [settles])
  -- An answer that hands nothing over.
  have hstay : ∀ {s' : System} {windows : List Window} {m : MainWindow},
      s' = { t.sys.goOn m with windows := windows } →
      Leaves (fun _ => False) (fun _ => False) (fun _ => False) t.sys.main.books m.books →
      Upheld (t.next (.handleEvent refusal opens) s') := by
    rintro s' windows m rfl hleaves
    have hpromised : t.sys.promised ++ accepted t.sys.main m = t.sys.promised := by
      rw [accepted_nil hleaves.mails, List.append_nil]
    exact h.stay (hcarried rfl) hleaves fun p hp => .inl (List.mem_append_left _ (hpromised ▸ hp))
  have hpop : Leaves (fun _ => False) (fun _ => False) (fun _ => False) t.sys.main.books
      ({ t.sys.main with events := rest } : MainWindow).books := leaves_pop hevents'
  cases e with
  | draftSaved row id =>
    simp only [loses, hevents] at hok
    have hleaves := leaves_draftSaved (O := fun _ => False) (F := fun _ => False) t.sys.main.free hevents'
    have hbooks : (handleCache { t.sys.main with events := rest } refusal opens (.draftSaved row id)).books =
        { t.sys.main.books with events := rest }.draftSaved t.sys.main.free row id :=
      MainWindow.books_draftSaved ..
    rw [← hbooks] at hleaves
    refine h.give hleaves (promised_goOn hleaves.mails) rfl rfl ?_ (fun _ _ h => h.elim)
      fun _ _ _ _ h => h.elim
    rintro r hr ⟨hrow, hfree, entry, hentry, hsettled⟩
    have hlook : t.sys.main.entries.lookup id = some entry := hentry
    rw [hlook, Option.any_some, hsettled, decide_eq_true hfree, Bool.true_and, Bool.true_and] at hok
    have hdone := List.any_eq_false.mp hok r hr
    rw [decide_eq_true hrow, Bool.true_and, Bool.not_eq_true, Bool.not_eq_false'] at hdone
    exact .inl hdone
  | outboxEnqueued row id =>
    have hbooks : (handleCache { t.sys.main with events := rest } refusal opens
        (.outboxEnqueued row id)).books =
          ({ t.sys.main with events := rest } : MainWindow).books.outboxEnqueued row id :=
      MainWindow.books_outboxEnqueued ..
    exact hstay rfl (hbooks ▸ hpop.trans (.same rfl rfl rfl rfl rfl rfl))
  | outboxDue items =>
    have hmid : Upheld ⟨{ t.sys with main := { t.sys.main with events := rest } }, t.thrown, t.taken⟩ :=
      h.stay ⟨fun _ hp => hp, fun _ hp => hp, fun p hp => .of_mem (mem_kept.mpr (.inl ⟨p, hp, rfl⟩))⟩ hpop
        fun p hp => .inl (List.mem_append_left _ hp)
    exact hmid.retries (hnumbered.pop hevents') (Carried.of_ledgers (hcarried rfl) rfl rfl rfl) rfl rfl
  | outbox items => exact hstay rfl (hpop.trans (.same rfl rfl rfl rfl rfl rfl))
  | draftLoaded row state =>
    have hbooks : (handleCache { t.sys.main with events := rest } refusal opens
        (.draftLoaded row state)).books =
          ({ t.sys.main with events := rest } : MainWindow).books.startCompose
            { state with draftId := some row } opens := MainWindow.books_draftLoaded ..
    exact hstay rfl (hbooks ▸ hpop.trans (leaves_startCompose ..))
  | drafts => exact hstay rfl hpop
  | failed => exact hstay rfl hpop

/-! ## 4. Outcomes -/

theorem carried_handleOutcome (hdelivered : s'.delivered = t.sys.delivered) :
    Carried t (t.next .handleOutcome s') :=
  carried_next (fun _ hp => hdelivered ▸ hp) (by simp [settles])

/-- A failure is recorded: what was being sent is about to be in the outbox. -/
theorem upheld_record (h : Upheld t) {o : SmtpEvent} {rest : List SmtpEvent}
    (houtcomes : t.sys.main.books.outcomes = o :: rest) {flight : Flight} {config : AccountId}
    (hf : t.sys.main.books.deliveries.inFlight.lookup o.id = some flight)
    (hbooks : s'.main.books = { { t.sys.main.books with outcomes := rest }.failedSend o.id with
      writes := t.sys.main.books.writes ++ [.enqueueOutbox none o.id config flight.state] })
    (hpromised : s'.promised = t.sys.promised) (hdelivered : s'.delivered = t.sys.delivered) :
    Upheld (t.next .handleOutcome s') := by
  have hahead : s'.main.books.ahead =
      t.sys.main.books.ahead.run (.enqueueOutbox none o.id config flight.state) := by
    rw [hbooks, ahead, List.foldl_append]
    rfl
  have hrow : Covered (t.next .handleOutcome s').kept flight.state.stamp := by
    refine covered_outbox (t := t.next .handleOutcome s')
      (r := (t.sys.main.books.ahead.nextOutbox, flight.state)) ?_
    rw [show (t.next .handleOutcome s').sys.main.books.ahead = _ from hahead]
    exact List.mem_append_right _ (List.mem_singleton_self _)
  have hleaves : Leaves (fun _ => False) (fun _ => False) (fun id => id = o.id) t.sys.main.books
      ({ t.sys.main.books with outcomes := rest }.failedSend o.id) :=
    (leaves_popOutcome houtcomes).trans (leaves_failedSend _ o.id)
  refine h.next (carried_handleOutcome hdelivered) (fun p hp => ?_) (fun r hr => ?_) (fun r hr => ?_)
    fun st hst => ?_
  · have hp : p ∈ s'.promised ++ s'.main.books.writes.flatMap stored := hp
    rw [hpromised, hbooks, List.flatMap_append] at hp
    rcases List.mem_append.mp hp with hp | hp
    · exact .inl (List.mem_append_left _ hp)
    rcases List.mem_append.mp hp with hp | hp
    · exact .inl (List.mem_append_right _ hp)
    · rw [List.flatMap_singleton] at hp
      rw [List.mem_singleton.mp hp]
      exact .inr hrow
  · exact covered_draft (t := t.next .handleOutcome s') (hahead.symm ▸ hr)
  · refine covered_outbox (t := t.next .handleOutcome s') ?_
    rw [show (t.next .handleOutcome s').sys.main.books.ahead = _ from hahead]
    exact List.mem_append_left _ hr
  · obtain ⟨id, hid, flight', hf', rfl⟩ := mem_sends.mp hst
    by_cases hsame : id = o.id
    · rw [hsame] at hf'
      obtain rfl := Option.some.inj (hf.symm.trans hf')
      exact hrow
    · have hid' := (hleaves.outstanding id hid).resolve_right hsame
      have hf'' := (hleaves.flight id flight' hf').resolve_right hsame
      have hsend : flight'.state.stamp ∈ s'.main.books.sends := by
        rw [hbooks]
        exact mem_sends.mpr ⟨id, hid', flight', hf'', rfl⟩
      exact covered_send hsend

/-- The outcome of no send that the ledger knows. -/
theorem upheld_strayOutcome (h : Upheld t) {o : SmtpEvent} {rest : List SmtpEvent}
    (houtcomes : t.sys.main.books.outcomes = o :: rest)
    (hf : t.sys.main.books.deliveries.inFlight.lookup o.id = none)
    (hbooks : s'.main.books = { t.sys.main.books with outcomes := rest })
    (hpromised : s'.promised = t.sys.promised) (hdelivered : s'.delivered = t.sys.delivered) :
    Upheld (t.next .handleOutcome s') := by
  have hleaves : Leaves (fun _ => False) (fun _ => False) (fun id => id = o.id) t.sys.main.books
      s'.main.books := hbooks ▸ leaves_popOutcome houtcomes
  refine h.leaves (carried_handleOutcome hdelivered) hleaves
    (fun p hp => .inl (List.mem_append_left _ (hpromised ▸ hp))) (fun _ _ h => h.elim) (fun _ _ h => h.elim) ?_
  rintro id - flight hlook rfl
  exact absurd (hf.symm.trans hlook) (by simp)

theorem upheld_handleOutcome (h : Upheld t) (hok : t.loses .handleOutcome = false)
    (hstep : t.sys.step .handleOutcome = some s') : Upheld (t.next .handleOutcome s') := by
  obtain ⟨o, rest, houtcomes, rfl⟩ := System.of_step_handleOutcome hstep
  have houtcomes' : t.sys.main.books.outcomes = o :: rest := houtcomes
  have hpromised : ∀ {m : MainWindow}, m.books.mails.length ≤ t.sys.main.books.mails.length →
      t.sys.promised ++ accepted t.sys.main m = t.sys.promised := by
    intro m hmails
    rw [accepted_nil hmails, List.append_nil]
  cases o with
  | sent id =>
    simp only [loses, houtcomes] at hok
    have hbooks : ({ t.sys.main with outcomes := rest }.outcomeSent id).books =
        { t.sys.main.books with outcomes := rest }.outcomeSent t.sys.main.free id :=
      MainWindow.books_outcomeSent ..
    cases hf : t.sys.main.books.deliveries.inFlight.lookup id with
    | none =>
      have hnone : ({ t.sys.main.books with outcomes := rest } : Books).deliveries.delivered id =
          (none, t.sys.main.books.deliveries) := Deliveries.delivered_none hf
      have hpop : { t.sys.main.books with outcomes := rest }.outcomeSent t.sys.main.free id =
          { t.sys.main.books with outcomes := rest } := by
        unfold Books.outcomeSent
        rw [hnone]
      rw [hpop] at hbooks
      exact upheld_strayOutcome h houtcomes' hf hbooks
        (hpromised (Nat.le_of_eq (by rw [MainWindow.smtpEvent, hbooks]))) rfl
    | some flight =>
      have hlook : t.sys.main.deliveries.inFlight.lookup id = some flight := hf
      rw [hlook, Option.any_some, Bool.or_eq_false_iff, Bool.or_eq_false_iff, Bool.not_eq_false'] at hok
      obtain ⟨⟨hsent, hdrafts⟩, houtbox⟩ := hok
      rw [outcomeSent_eq (b := { t.sys.main.books with outcomes := rest }) hf] at hbooks
      have hleaves := (leaves_popOutcome houtcomes').trans
        (leaves_endSend { t.sys.main.books with outcomes := rest } (.inl rfl) t.sys.main.free id)
      rw [← hbooks] at hleaves
      refine h.give hleaves (promised_goOn hleaves.mails) rfl rfl (fun r hr hends => ?_)
        (fun r hr hends => ?_) ?_
      · have hdone := List.any_eq_false.mp hdrafts r hr
        have hends : t.sys.main.books.endsDraft t.sys.main.free id r.1 = true := hends
        rw [hends, Bool.true_and, Bool.not_eq_true, Bool.not_eq_false'] at hdone
        exact .inl hdone
      · have hdone := List.any_eq_false.mp houtbox r hr
        have hends : t.sys.main.books.endsRow t.sys.main.free id r.1 = true := hends
        rw [hends, Bool.true_and, Bool.not_eq_true, Bool.not_eq_false'] at hdone
        exact .inl hdone
      · rintro id' - flight' hf' rfl
        rw [← Option.some.inj (hf.symm.trans hf')]
        exact .inl hsent
  | error id error =>
    have hbooks : ({ t.sys.main with outcomes := rest }.outcomeFailed id error).books =
        { t.sys.main.books with outcomes := rest }.outcomeFailed t.sys.main.free id :=
      MainWindow.books_outcomeFailed ..
    -- A failure that is not recorded: the message rests elsewhere, or falls to the window.
    have hdropped : ∀ {flight : Flight}, t.sys.main.books.deliveries.inFlight.lookup id = some flight →
        records t.sys.main id flight = false →
        ({ t.sys.main with outcomes := rest }.outcomeFailed id error).books =
          { t.sys.main.books with outcomes := rest }.failedSend id →
        Upheld (t.next .handleOutcome
          (t.sys.goOn ({ t.sys.main with outcomes := rest }.smtpEvent (.error id error)))) := by
      intro flight hf hrecords heq
      have hlook : t.sys.main.deliveries.inFlight.lookup id = some flight := hf
      have hleaves := (leaves_popOutcome (D := fun _ => False) (O := fun _ => False) houtcomes').trans
        (leaves_failedSend { t.sys.main.books with outcomes := rest } id)
      rw [← heq] at hleaves
      refine h.give hleaves (promised_goOn hleaves.mails) rfl rfl (fun _ _ h => h.elim)
        (fun _ _ h => h.elim) ?_
      rintro id' - flight' hf' rfl
      rw [← Option.some.inj (hf.symm.trans hf')]
      have hfalls : t.rests t.sys.main.books.ahead flight.state.stamp = false →
          (id', flight.state.stamp) ∈ t.falls .handleOutcome := fun hrests => by
        simp [falls, houtcomes, hlook, hrecords, hrests]
      exact mayGo_of_falls id' hfalls
    have hcases := outcomeFailed_cases { t.sys.main.books with outcomes := rest } t.sys.main.free id
    rw [← hbooks] at hcases
    generalize heq : ({ t.sys.main with outcomes := rest }.outcomeFailed id error).books = b' at hcases
    cases hcases with
    | unknown hf =>
      exact upheld_strayOutcome h houtcomes' hf heq
        (hpromised (Nat.le_of_eq (by rw [MainWindow.smtpEvent, heq]))) rfl
    | backoff hf hrow =>
      refine hdropped hf ?_ heq
      have hlook : t.sys.main.deliveries.outboxRows.lookup id = some _ := hrow
      simp [records, hlook]
    | homeless hf _ hconfig =>
      refine hdropped hf ?_ heq
      have hnone : t.sys.main.accounts[_]? = none := hconfig
      simp [records, hnone]
    | enqueued hf _ _ =>
      unfold push at heq
      split at heq
      · exact upheld_record h houtcomes' hf heq
          (hpromised (Nat.le_of_eq (by rw [MainWindow.smtpEvent, heq]; rfl))) rfl
      · next hfree =>
        refine hdropped hf ?_ heq
        simp [records, hfree]

/-! ## 5. The Drafts and the Outbox window -/

theorem upheld_deleteRow (h : Upheld t) {kind : QueueKind} {row : Row}
    (hstep : t.sys.step (.deleteRow kind row) = some s') : Upheld (t.next (.deleteRow kind row) s') := by
  obtain ⟨-, heq⟩ := Option.ite_none_right_eq_some.mp hstep
  cases heq
  have hbooks := t.sys.main.books_deleteRow kind row
  cases kind with
  | drafts =>
    have hleaves := t.sys.main.books.leaves_pushDeleteDraft (O := fun _ => False) (F := fun _ => False)
      t.sys.main.free row
    rw [← hbooks] at hleaves
    refine h.leaves (carried_next (fun _ hp => hp) (by simp [settles])) hleaves
      (fun p hp => .inl (List.mem_append_left _ hp)) ?_ (fun _ _ h => h.elim) fun _ _ _ _ h => h.elim
    rintro r hr ⟨hrow, -⟩
    have hgone : r.2.stamp ∈ throws t.sys (.deleteRow .drafts row) :=
      List.mem_map.mpr ⟨r, List.mem_filter.mpr ⟨hr, decide_eq_true hrow⟩, rfl⟩
    exact covered_thrown (t := t.next (.deleteRow .drafts row) _) (List.mem_append_right _ hgone)
  | outbox =>
    have hleaves := t.sys.main.books.leaves_pushDelete (D := fun _ => False) (F := fun _ => False) (.inr rfl)
      t.sys.main.free row
    rw [← hbooks] at hleaves
    refine h.leaves (carried_next (fun _ hp => hp) (by simp [settles])) hleaves
      (fun p hp => .inl (List.mem_append_left _ hp)) (fun _ _ h => h.elim) ?_ fun _ _ _ _ h => h.elim
    rintro r hr ⟨hrow, -⟩
    have hgone : r.2.stamp ∈ throws t.sys (.deleteRow .outbox row) :=
      List.mem_map.mpr ⟨r, List.mem_filter.mpr ⟨hr, decide_eq_true hrow⟩, rfl⟩
    exact covered_thrown (t := t.next (.deleteRow .outbox row) _) (List.mem_append_right _ hgone)

/-- The row that goes falls to the window that opens, if no other row has its message. -/
theorem upheld_editQueued (h : Upheld t) {row : Row} {opens : Bool}
    (hstep : t.sys.step (.editQueued row opens) = some s') : Upheld (t.next (.editQueued row opens) s') := by
  simp only [System.step] at hstep
  split at hstep
  · cases hstep
    exact h.quiet rfl rfl rfl rfl
  · next item hitem =>
    cases hstep
    obtain ⟨hlisted, hid⟩ := listedItem_mem hitem
    have hbooks := t.sys.main.books_editQueued item opens
    have hleaves : Leaves (fun _ => False) (fun r => r = row ∧ 0 < t.sys.main.free) (fun _ => False)
        t.sys.main.books (t.sys.main.editQueued item opens).books := by
      rw [hbooks, ← hid]
      exact leaves_editQueued ..
    refine h.give hleaves (fun p hp => List.mem_append_left _ hp) rfl rfl (fun _ _ h => h.elim) ?_
      fun _ _ _ _ h => h.elim
    rintro r hr ⟨hrow, hfree⟩
    cases hrests : t.rests { t.sys.main.books.ahead with
        outbox := t.sys.main.books.ahead.outbox.filter fun r => r.1 ≠ row } r.2.stamp with
    | true =>
      refine .inr (.inl ⟨_, hrests, fun _ hr => ⟨hr, fun h => h⟩, fun r' hr' => ?_⟩)
      obtain ⟨hmem, hne⟩ := List.mem_filter.mp hr'
      exact ⟨hmem, fun hgone => of_decide_eq_true hne hgone.1⟩
    | false =>
      refine .inr (.inr ⟨t.sys.main.deliveries.nextId.1, ?_⟩)
      simp only [falls, hitem, if_pos hfree]
      exact List.mem_map.mpr ⟨r, List.mem_filter.mpr ⟨hr, by rw [hrests, decide_eq_true hrow]; rfl⟩, rfl⟩

theorem upheld_retryQueued (h : Upheld t) (hnumbered : Numbered t.sys.main.books) {row : Row}
    {refusal : ComposeId → Option String} (hstep : t.sys.step (.retryQueued row refusal) = some s') :
    Upheld (t.next (.retryQueued row refusal) s') := by
  simp only [System.step] at hstep
  split at hstep
  · cases hstep
    exact h.quiet rfl rfl rfl rfl
  · cases hstep
    exact h.retries hnumbered (carried_next (fun _ hp => hp) (by simp [settles])) rfl rfl

/-! ## 6. The cache actor, the mailer, and a new core -/

/-- A command that stores a version writes a table. -/
theorem stored_write (cs : List DbCommand) :
    cs.flatMap stored = (cs.filter DbCommand.isWrite).flatMap stored := by
  induction cs with
  | nil => rfl
  | cons c cs ih =>
    rw [List.flatMap_cons, ih, List.filter_cons]
    cases c <;> rfl

theorem upheld_execute (h : Upheld t) (hstep : t.sys.step .execute = some s') :
    Upheld (t.next .execute s') := by
  obtain ⟨m, hm, rfl⟩ := Option.map_eq_some_iff.mp hstep
  have hleaves : Leaves (fun _ => False) (fun _ => False) (fun _ => False) t.sys.main.books m.books := by
    rcases MainWindow.books_execute hm with ⟨c, ws, hwrites, -, heq⟩ | ⟨es, hanswer, -, heq⟩
    · exact heq ▸ leaves_run hwrites
    · exact heq ▸ leaves_answers hanswer
  refine h.stay (carried_next (fun _ hp => hp) (by simp [settles])) hleaves fun p hp => .inl ?_
  rcases List.mem_append.mp hp with hp | hp
  · exact List.mem_append_left _ hp
  · refine List.mem_append_right _ ?_
    have hall : p ∈ t.sys.main.commands.flatMap stored := by
      obtain ⟨c, hc, hst⟩ := List.mem_flatMap.mp hp
      exact List.mem_flatMap.mpr ⟨c, List.mem_of_mem_take hc, hst⟩
    rw [stored_write] at hall
    exact hall

theorem upheld_mail (h : Upheld t) {error : Option String} (hstep : t.sys.step (.mail error) = some s') :
    Upheld (t.next (.mail error) s') := by
  obtain ⟨c, rest, hmails, rfl⟩ := System.of_step_mail hstep
  have hmails' : t.sys.main.books.mails = c :: rest := hmails
  have hleaves : Leaves (fun _ => False) (fun _ => False) (fun _ => False) t.sys.main.books
      { t.sys.main.books with
        mails := rest
        outcomes := t.sys.main.books.outcomes ++ [outcomeOf c.id error] } := by
    refine ⟨fun _ hr => .inl hr, fun _ hr => .inl hr, fun _ _ hf => .inl hf, fun id hid => .inl ?_,
      fun _ hst => hst, by rw [hmails']; exact Nat.le_succ _⟩
    have hsame : (outcomeOf c.id error).id = c.id := by cases error <;> rfl
    rw [outstanding, hmails'] at hid
    rw [outstanding, List.map_append, List.map_singleton, hsame, List.append_assoc]
    exact hid
  refine h.stay (carried_next (fun _ hp => List.mem_append_left _ hp) fun q hq => ?_) hleaves
    fun p hp => .inl (List.mem_append_left _ hp)
  cases error with
  | none =>
    rw [settles, hmails] at hq
    exact covered_delivered (t := t.next (.mail none) _) (List.mem_append_right _ (by simpa using hq))
  | some error => exact absurd hq (by simp [settles])

theorem upheld_reload (h : Upheld t) {accounts : List AccountId}
    (hstep : t.sys.step (.reload accounts) = some s') : Upheld (t.next (.reload accounts) s') := by
  cases hstep
  have hleaves := t.sys.main.books.leaves_reload (D := fun _ => False) (O := fun _ => False) accounts
  rw [← MainWindow.books_reloadAccounts] at hleaves
  refine h.give hleaves (fun p hp => ?_) rfl rfl (fun _ _ h => h.elim) (fun _ _ h => h.elim) ?_
  · have hp : p ∈ t.sys.promised ++ t.sys.main.commands.flatMap stored := hp
    rw [stored_write] at hp
    exact hp
  · intro id hid flight hf _
    have hlook : t.sys.main.deliveries.inFlight.lookup id = some flight := hf
    exact mayGo_of_falls id fun hrests => List.mem_flatMap.mpr ⟨id, hid, by simp [hlook, hrests]⟩

/-! ## 7. Every step, and every run -/

theorem Upheld.step (h : Upheld t) {ok : System → Action → Prop} (hr : System.machine.Reach ok t.sys)
    (hok : t.loses a = false) (hst : machine.step t a = some t') : Upheld t' := by
  obtain ⟨s', hstep, rfl⟩ := Option.map_eq_some_iff.mp hst
  cases a with
  | compose text account opens =>
    simp only [System.step] at hstep
    split at hstep
    · cases hstep
      exact h.quiet rfl rfl rfl rfl
    · cases hstep
      refine h.stay (carried_next (fun _ hp => hp) (by simp [settles])) ?_ fun p hp =>
        .inl (List.mem_append_left _ hp)
      dsimp only [Written.next]
      rw [MainWindow.books_startCompose]
      exact leaves_startCompose ..
  | edit id text sender =>
    obtain ⟨w, hw, hstep⟩ := Option.bind_eq_some_iff.mp hstep
    obtain ⟨w', hw', rfl⟩ := Option.map_eq_some_iff.mp hstep
    exact h.quiet rfl rfl rfl rfl
  | attach id _ | clickSend id | clickSave id | clickDiscard id | timer id =>
    obtain ⟨w, hw, rfl⟩ := Option.map_eq_some_iff.mp hstep
    exact h.quiet rfl rfl rfl rfl
  | closeBox id choice =>
    obtain ⟨w, hw, rfl⟩ := Option.map_eq_some_iff.mp hstep
    split <;> exact h.quiet rfl rfl rfl rfl
  | receive id =>
    obtain ⟨w, hw, hstep⟩ := Option.bind_eq_some_iff.mp hstep
    obtain ⟨p, hp, rfl⟩ := Option.map_eq_some_iff.mp hstep
    dsimp only
    split <;> exact h.quiet rfl rfl rfl rfl
  | handleRequest refusal => exact upheld_handleRequest h hr hstep
  | handleEvent refusal opens => exact upheld_handleEvent h (System.numbered hr) hok hstep
  | handleOutcome => exact upheld_handleOutcome h hok hstep
  | deleteRow kind row => exact upheld_deleteRow h hstep
  | editQueued row opens => exact upheld_editQueued h hstep
  | retryQueued row refusal => exact upheld_retryQueued h (System.numbered hr) hstep
  | execute => exact upheld_execute h hstep
  | mail error => exact upheld_mail h hstep
  | reload accounts => exact upheld_reload h hstep
  | poll | openDraft _ | otherCommand =>
    cases hstep
    exact h.quiet (MainWindow.books_command_quiet _ rfl) rfl rfl rfl
  | showQueue kind =>
    cases hstep
    exact h.quiet (MainWindow.books_showQueue ..) rfl rfl rfl
  | closeQueue kind =>
    cases hstep
    exact h.quiet (MainWindow.books_closeQueue ..) rfl rfl rfl
  | tick seconds =>
    cases hstep
    exact h.quiet rfl rfl rfl rfl

theorem sys_reach {ok : Written → Action → Prop} (h : machine.Reach ok t) :
    System.machine.Reach Machine.any t.sys := by
  refine h.forget Written.sys ?_ ?_
  · exact fun _ h0 => h0.1
  · intro t a t' hst
    obtain ⟨s', hstep, rfl⟩ := Option.map_eq_some_iff.mp hst
    exact hstep

theorem Upheld.init (h : Started t.sys) : Upheld t := by
  obtain ⟨accounts, db, hmain⟩ := h.main
  intro p hp
  have hrow : p ∈ rowStamps t.sys.main.db := by
    have hnone : t.sys.main.books.writes = [] := by
      rw [hmain]
      rfl
    rw [answerable, hnone, List.flatMap_nil, List.append_nil, h.promised] at hp
    exact hp
  have hahead : t.sys.main.books.ahead = t.sys.main.books.now := by
    rw [hmain]
    rfl
  rcases List.mem_append.mp hrow with hrow | hrow
  · obtain ⟨r, hr, rfl⟩ := List.mem_map.mp hrow
    exact covered_draft (r := r.held) (hahead.symm ▸ List.mem_map_of_mem hr)
  · obtain ⟨r, hr, rfl⟩ := List.mem_map.mp hrow
    exact covered_outbox (r := r.held) (hahead.symm ▸ List.mem_map_of_mem hr)

theorem upheld_of_reach (h : machine.Reach (fun t a => t.loses a = false) t) : Upheld t ∧ Held t := by
  refine h.invariant (P := fun t => Upheld t ∧ Held t) ?_ ?_
  · rintro t ⟨hstart, -, htaken⟩
    refine ⟨Upheld.init hstart, fun p hp => ?_⟩
    rw [htaken] at hp
    exact absurd hp List.not_mem_nil
  · rintro t a t' hr ⟨hu, hheld⟩ hok hst
    exact ⟨hu.step (sys_reach hr) hok hst, hheld.step (sys_reach hr) hok hst⟩

/-- What a table is going to hold it holds now, or a queued command stores it. -/
theorem mem_foldl_run (cs : List DbCommand) (a : Ahead) :
    (∀ r ∈ (cs.foldl Ahead.run a).drafts, (∃ r' ∈ a.drafts, r'.2.stamp = r.2.stamp) ∨
        r.2.stamp ∈ cs.flatMap stored) ∧
      ∀ r ∈ (cs.foldl Ahead.run a).outbox, (∃ r' ∈ a.outbox, r'.2.stamp = r.2.stamp) ∨
        r.2.stamp ∈ cs.flatMap stored := by
  induction cs generalizing a with
  | nil => exact ⟨fun r hr => .inl ⟨r, hr, rfl⟩, fun r hr => .inl ⟨r, hr, rfl⟩⟩
  | cons c cs ih =>
    -- A table that is updated or inserted into.
    have hwrite : ∀ {rows rows' : List (Row × ComposeState)} {x : ComposeState} {row : Row},
        (rows' = (rows.map fun r => if r.1 = row then (row, x) else r) ∨ rows' = rows ++ [(row, x)]) →
          ∀ r ∈ rows', (∃ r' ∈ rows, r'.2.stamp = r.2.stamp) ∨ r.2.stamp = x.stamp := by
      rintro rows rows' x row (rfl | rfl) r hr
      · obtain ⟨old, hold, rfl⟩ := List.mem_map.mp hr
        split
        · exact .inr rfl
        · exact .inl ⟨old, hold, rfl⟩
      · rcases List.mem_append.mp hr with hr | hr
        · exact .inl ⟨r, hr, rfl⟩
        · rw [List.mem_singleton.mp hr]
          exact .inr rfl
    have hone : (∀ r ∈ (a.run c).drafts, (∃ r' ∈ a.drafts, r'.2.stamp = r.2.stamp) ∨ r.2.stamp ∈ stored c) ∧
        ∀ r ∈ (a.run c).outbox, (∃ r' ∈ a.outbox, r'.2.stamp = r.2.stamp) ∨ r.2.stamp ∈ stored c := by
      have hsame : ∀ rows : List (Row × ComposeState), ∀ r ∈ rows,
          (∃ r' ∈ rows, r'.2.stamp = r.2.stamp) ∨ r.2.stamp ∈ stored c := fun rows r hr => .inl ⟨r, hr, rfl⟩
      cases c with
      | saveDraft row id account x =>
        refine ⟨fun r hr => ?_, ?_⟩
        · cases row with
          | some row => exact (hwrite (.inl rfl) r hr).imp_right fun he => List.mem_singleton.mpr he
          | none => exact (hwrite (.inr rfl) r hr).imp_right fun he => List.mem_singleton.mpr he
        · cases row <;> exact hsame a.outbox
      | enqueueOutbox row id account x =>
        refine ⟨?_, fun r hr => ?_⟩
        · cases row <;> exact hsame a.drafts
        · cases row with
          | some row => exact (hwrite (.inl rfl) r hr).imp_right fun he => List.mem_singleton.mpr he
          | none => exact (hwrite (.inr rfl) r hr).imp_right fun he => List.mem_singleton.mpr he
      | deleteDraft row =>
        exact ⟨fun r hr => hsame a.drafts r (List.mem_of_mem_filter hr), hsame a.outbox⟩
      | markOutboxSent row | deleteOutbox row =>
        exact ⟨hsame a.drafts, fun r hr => hsame a.outbox r (List.mem_of_mem_filter hr)⟩
      | listDrafts | loadDraft _ | dueOutbox | listOutbox | markOutboxFailed _ _ | other =>
        exact ⟨hsame a.drafts, hsame a.outbox⟩
    obtain ⟨hdrafts, houtbox⟩ := ih (a.run c)
    rw [List.flatMap_cons]
    constructor
    · intro r hr
      rcases hdrafts r hr with ⟨r', hr', he⟩ | hst
      · exact (hone.1 r' hr').imp (fun ⟨r₀, hr₀, he₀⟩ => ⟨r₀, hr₀, he₀.trans he⟩)
          fun hst => List.mem_append_left _ (he ▸ hst)
      · exact .inr (List.mem_append_right _ hst)
    · intro r hr
      rcases houtbox r hr with ⟨r', hr', he⟩ | hst
      · exact (hone.2 r' hr').imp (fun ⟨r₀, hr₀, he₀⟩ => ⟨r₀, hr₀, he₀.trans he⟩)
          fun hst => List.mem_append_left _ (he ▸ hst)
      · exact .inr (List.mem_append_right _ hst)

theorem mem_places {s : System} {q : Stamp} : q ∈ s.places ↔
    ((∃ r ∈ s.main.books.drafts, r.2.stamp = q) ∨ ∃ r ∈ s.main.books.outbox, r.2.stamp = q) ∨
      (∃ w ∈ s.windows, w.stamp = q) ∨ q ∈ asked s.requests ∨ q ∈ s.main.commands.flatMap stored ∨
        q ∈ s.main.books.sends := by
  have hdrafts : s.main.db.drafts.map (fun r => r.compose.stamp) =
      s.main.books.drafts.map fun r => r.2.stamp := by
    rw [show s.main.books.drafts = s.main.db.drafts.map DraftRow.held from rfl, List.map_map]
    rfl
  have houtbox : s.main.db.outbox.map (fun r => r.compose.stamp) =
      s.main.books.outbox.map fun r => r.2.stamp := by
    rw [show s.main.books.outbox = s.main.db.outbox.map OutboxRow.held from rfl, List.map_map]
    rfl
  rw [places, rowStamps, hdrafts, houtbox]
  simp only [List.mem_append, List.mem_map, or_assoc]

/-- In a run that takes no step by which a message is lost, every version that was stored, or accepted
for sending, is somewhere, or a newer one is, or it has been delivered or thrown away.

A version is in a table, in a command that will store it, or in a send, as long as no window has taken it
over; what a window has taken over is in that window, or in what it has asked for. -/
theorem nothing_vanishes (h : machine.Reach (fun t a => t.loses a = false) t) {st : Stamp}
    (hst : st ∈ t.sys.promised) :
    (∃ p ∈ t.sys.places, st.UpTo p) ∨ ∃ p ∈ t.sys.delivered ++ t.thrown, st.UpTo p := by
  obtain ⟨hupheld, hheld⟩ := upheld_of_reach h
  obtain ⟨q, hq, hle⟩ := hupheld st (List.mem_append_left _ hst)
  obtain ⟨hdrafts, houtbox⟩ := mem_foldl_run t.sys.main.books.writes t.sys.main.books.now
  have hqueued : ∀ {p}, p ∈ t.sys.main.books.writes.flatMap stored → p ∈ t.sys.places := fun hp =>
    mem_places.mpr (.inr (.inr (.inr (.inl ((stored_write _).symm ▸ hp)))))
  rcases mem_kept.mp hq with ⟨p, hp, rfl⟩ | ⟨r, hr, rfl⟩ | ⟨r, hr, rfl⟩ | hq | hq | hq
  · rcases hheld p hp with hshows | hasks
    · obtain ⟨w, hw, -, hle'⟩ := shows_iff.mp hshows
      exact .inl ⟨_, mem_places.mpr (.inr (.inl ⟨w, hw, rfl⟩)), hle.trans hle'⟩
    · obtain ⟨⟨id, r⟩, hmem, -, x, hx, hle'⟩ := asks_iff.mp hasks
      have hasked : x.stamp ∈ asked t.sys.requests := mem_asked.mpr ⟨id, r, x, hmem, hx, rfl⟩
      exact .inl ⟨_, mem_places.mpr (.inr (.inr (.inl hasked))), hle.trans hle'⟩
  · exact .inl ⟨_, (hdrafts r hr).elim (fun hrow => mem_places.mpr (.inl (.inl hrow))) hqueued, hle⟩
  · exact .inl ⟨_, (houtbox r hr).elim (fun hrow => mem_places.mpr (.inl (.inr hrow))) hqueued, hle⟩
  · exact .inl ⟨q, mem_places.mpr (.inr (.inr (.inr (.inr hq)))), hle⟩
  · exact .inr ⟨q, List.mem_append_left _ hq, hle⟩
  · exact .inr ⟨q, List.mem_append_right _ hq, hle⟩

/-- A message is taken back from the outbox, saved from the window that takes it over, and that window is
closed: it asks nothing, and the message is in the drafts. -/
theorem nothing_vanishes_of_save : ∃ t : Written, (⟨0, 0⟩ : Stamp) ∈ t.sys.promised ∧
    ((∃ p ∈ t.sys.places, (⟨0, 0⟩ : Stamp).UpTo p) ∨ ∃ p ∈ t.sys.delivered ++ t.thrown, (⟨0, 0⟩ : Stamp).UpTo p) := by
  obtain ⟨t, hreach, hp⟩ := Machine.exists_reach_of_trace machine (fun t a => t.loses a = false)
    [.showQueue .outbox, .execute, .handleEvent (fun _ => none) true, .editQueued 1 true, .clickSave 1,
      .handleRequest none, .execute, .execute, .execute, .closeBox 1 .cancel, .handleRequest none]
    (fun t => decide ((⟨0, 0⟩ : Stamp) ∈ t.sys.promised ∧ t.sys.windows = []))
    (s := ⟨withLeftRow, [], []⟩) ⟨started_withLeftRow, rfl, rfl⟩ (by decide)
  obtain ⟨hpromised, -⟩ := of_decide_eq_true hp
  exact ⟨t, hpromised, nothing_vanishes hreach hpromised⟩

/-- A message is taken back from the outbox, and the window is closed unchanged: it asks nothing, and
the message was only there. -/
theorem taken_back_and_lost : ¬ ∀ (t : Written) (st : Stamp), machine.Reach Machine.any t →
    st ∈ t.sys.promised →
      (∃ p ∈ t.sys.places, st.UpTo p) ∨ ∃ p ∈ t.sys.delivered ++ t.thrown, st.UpTo p := by
  intro hall
  obtain ⟨t, hreach, hp⟩ := Machine.exists_reach_of_trace machine Machine.any
    [.showQueue .outbox, .execute, .handleEvent (fun _ => none) true, .editQueued 1 true, .execute, .execute,
      .closeBox 1 .cancel]
    (fun t => decide ((⟨0, 0⟩ : Stamp) ∈ t.sys.promised ∧ t.sys.places = [] ∧
      t.sys.delivered ++ t.thrown = [])) (s := ⟨withLeftRow, [], []⟩) ⟨started_withLeftRow, rfl, rfl⟩
    (by decide)
  obtain ⟨hst, hplaces, hgone⟩ := of_decide_eq_true hp
  have hsomewhere := hall t ⟨0, 0⟩ hreach hst
  rw [hplaces, hgone] at hsomewhere
  simp at hsomewhere

end Written

end Esmail
