/-
# Newer and older versions

A version of a message is newer than another when its number from the clock is greater.  What an id
has had saved or sent is no newer than what it has yet to ask for, and that no newer than what its
window has now: requests are handled in the order they were made, and a window's text only gets newer.

The first half is about the clock: every version anywhere is older than it.  `Turns` is the step of
the windows and the requests, once for all actions, as `Effect` is that of the books.
-/
import Esmail.Outgoing.DraftRows

namespace Esmail

open Transition

/-! ## 1. Versions -/

/-- `q` is a version of the same message, and is as new. -/
def Stamp.UpTo (p q : Stamp) : Prop := p.msg = q.msg ∧ p.rev ≤ q.rev

namespace Stamp

instance (p q : Stamp) : Decidable (p.UpTo q) := inferInstanceAs (Decidable (_ ∧ _))

theorem UpTo.refl (p : Stamp) : p.UpTo p := ⟨rfl, Nat.le_refl _⟩

theorem UpTo.trans {p q r : Stamp} (h : p.UpTo q) (h' : q.UpTo r) : p.UpTo r :=
  ⟨h.1.trans h'.1, Nat.le_trans h.2 h'.2⟩

end Stamp

/-! ## 2. What a step does to windows and requests -/

namespace Books

/-- A version that an answer, or a list, shows. -/
def Shows (b : Books) (st : Stamp) : Prop :=
  (∃ row c, .draftLoaded row c ∈ b.events ∧ st = c.stamp) ∨ ∃ item, b.Listed item ∧ st = item.compose.stamp

end Books

namespace System

/-- A window is as it was, or has been changed now, or is new. -/
def Turned (s s' : System) (w' : Window) : Prop :=
  (∃ w ∈ s.windows, w.id = w'.id ∧ (w'.stamp = w.stamp ∨
    (w'.stamp = ⟨w.stamp.msg, s.clock⟩ ∧ s.clock < s'.clock))) ∨
  (w'.id = s.main.deliveries.lastId + 1 ∧
    ((w'.stamp.rev = s.clock ∧ s.clock < s'.clock) ∨ s.main.books.Shows w'.stamp))

structure Turns (s s' : System) : Prop where
  clock : s.clock ≤ s'.clock
  requests : ∃ old new, s'.requests = old ++ new ∧ old.Sublist s.requests ∧
    ∀ p ∈ new, ∀ x, p.2.state = some x → ∃ w ∈ s.windows, w.id = p.1 ∧ w.stamp = x.stamp
  window : ∀ w ∈ s'.windows, s.Turned s' w
  ids : (s'.windows.map Window.id).Sublist (s.windows.map Window.id ++ [s.main.deliveries.lastId + 1])

variable {s s' : System}

theorem Turned.same {w : Window} (h : w ∈ s.windows) : s.Turned s' w := .inl ⟨w, h, rfl, .inl rfl⟩

/-- The windows stay as they are. -/
theorem Turns.stay (hclock : s.clock ≤ s'.clock) (hrequests : s'.requests.Sublist s.requests)
    (hwindows : s'.windows = s.windows) : Turns s s' := by
  refine ⟨hclock, ⟨s'.requests, [], (List.append_nil _).symm, hrequests, by simp⟩, ?_, ?_⟩
  · exact fun w hw => .same (hwindows ▸ hw)
  · rw [hwindows]
    exact List.sublist_append_left ..

theorem ids_putWindow (w : Window) : (s.putWindow w).windows.map Window.id = s.windows.map Window.id := by
  unfold putWindow
  rw [List.map_map]
  refine List.map_congr_left fun v _ => ?_
  simp only [Function.comp_apply]
  split
  · next he => exact he.symm
  · rfl

/-- A window changes, and asks for something. -/
theorem Turns.put {id : ComposeId} {w : Window} (w' : Window) (hw : s.window id = some w)
    (hid : w'.id = w.id)
    (hstamp : w'.stamp = w.stamp ∨ (w'.stamp = ⟨w.stamp.msg, s.clock⟩ ∧ s.clock < s'.clock))
    (hclock : s.clock ≤ s'.clock) (rs : List Request)
    (hrs : ∀ r ∈ rs, ∀ x, r.state = some x → x = w.snapshot)
    (hrequests : s'.requests = s.requests ++ rs.map fun r => (id, r))
    (hwindows : s'.windows = s.windows ∨ s'.windows = (s.putWindow w').windows) : Turns s s' := by
  obtain ⟨hmem, hwid⟩ := window_mem hw
  refine ⟨hclock, ⟨s.requests, _, hrequests, .refl _, ?_⟩, ?_, ?_⟩
  · rintro p hp x hx
    obtain ⟨r, hr, rfl⟩ := List.mem_map.mp hp
    rw [hrs r hr x hx]
    exact ⟨w, hmem, hwid, rfl⟩
  · intro v hv
    rcases hwindows with heq | heq
    · exact .same (heq ▸ hv)
    · rcases mem_putWindow (heq ▸ hv) with hold | ⟨rfl, -⟩
      · exact .same hold
      · exact .inl ⟨w, hmem, hid.symm, hstamp⟩
  · have hids : s'.windows.map Window.id = s.windows.map Window.id := by
      rcases hwindows with heq | heq
      · rw [heq]
      · rw [heq, ids_putWindow]
    rw [hids]
    exact List.sublist_append_left ..

/-- A window goes, and has asked for something. -/
theorem Turns.drop {id : ComposeId} {w : Window} (hw : s.window id = some w)
    (hclock : s'.clock = s.clock) (rs : List Request)
    (hrs : ∀ r ∈ rs, ∀ x, r.state = some x → x = w.snapshot)
    (hrequests : s'.requests = s.requests ++ rs.map fun r => (id, r))
    (hwindows : s'.windows = (s.dropWindow id).windows) : Turns s s' := by
  obtain ⟨hmem, hwid⟩ := window_mem hw
  refine ⟨Nat.le_of_eq hclock.symm, ⟨s.requests, _, hrequests, .refl _, ?_⟩, ?_, ?_⟩
  · rintro p hp x hx
    obtain ⟨r, hr, rfl⟩ := List.mem_map.mp hp
    rw [hrs r hr x hx]
    exact ⟨w, hmem, hwid, rfl⟩
  · exact fun v hv => .same (mem_dropWindow (hwindows ▸ hv)).1
  · rw [hwindows]
    exact (List.filter_sublist.map _).trans (List.sublist_append_left ..)

/-- A window opens. -/
theorem Turns.opens (state : ComposeState) (opens : Bool) (hclock : s.clock ≤ s'.clock)
    (hsource : (state.stamp.rev = s.clock ∧ s.clock < s'.clock) ∨ s.main.books.Shows state.stamp)
    (hrequests : s'.requests = s.requests) (hwindows : s'.windows = s.opened state opens) :
    Turns s s' := by
  refine ⟨hclock, ⟨s.requests, [], by rw [hrequests, List.append_nil], .refl _, by simp⟩, ?_, ?_⟩
  · intro w hw
    rw [hwindows] at hw
    unfold opened at hw
    split at hw
    · rcases List.mem_append.mp hw with hw | hw
      · exact .same hw
      · rw [List.mem_singleton.mp hw]
        exact .inr ⟨rfl, hsource⟩
    · exact .same hw
  · rw [hwindows]
    unfold opened
    split
    · rw [List.map_append]
      exact .refl _
    · exact List.sublist_append_left ..

theorem closeRequested_state {w : Window} {choice : Window.Close} {rs : List Request}
    (h : w.closeRequested choice = some rs) : ∀ r ∈ rs, ∀ x, r.state = some x → x = w.snapshot := by
  unfold Window.closeRequested at h
  split at h
  · cases h
    simp [Request.state]
  · cases choice <;> cases h <;> simp [Request.state]

theorem turns {a : Action} (hstep : s.step a = some s') : Turns s s' := by
  cases a with
  | compose text account opens =>
    simp only [System.step] at hstep
    split at hstep
    · cases hstep
      exact .stay (Nat.le_refl _) (.refl _) rfl
    · cases hstep
      exact .opens _ opens (Nat.le_succ _) (.inl ⟨rfl, Nat.lt_succ_self _⟩) rfl rfl
  | edit id text sender =>
    obtain ⟨w, hw, hstep⟩ := Option.bind_eq_some_iff.mp hstep
    obtain ⟨w', hw', rfl⟩ := Option.map_eq_some_iff.mp hstep
    unfold Window.edit at hw'
    split at hw'
    · exact absurd hw' (by simp)
    · cases hw'
      exact .put { w with text := text, sender := sender, stamp := { w.stamp with rev := s.clock } } hw rfl
        (.inr ⟨rfl, Nat.lt_succ_self _⟩) (Nat.le_succ _) [] (by simp) (List.append_nil _).symm (.inr rfl)
  | attach id files =>
    obtain ⟨w, hw, rfl⟩ := Option.map_eq_some_iff.mp hstep
    exact .put (w.attachmentsRead files s.clock) hw rfl (.inr ⟨rfl, Nat.lt_succ_self _⟩) (Nat.le_succ _) []
      (by simp) (List.append_nil _).symm (.inr rfl)
  | clickSend id =>
    obtain ⟨w, hw, rfl⟩ := Option.map_eq_some_iff.mp hstep
    refine .put w hw rfl (.inl rfl) (Nat.le_refl _) w.send ?_ rfl (.inl rfl)
    unfold Window.send
    split <;> simp [Request.state]
  | clickSave id =>
    obtain ⟨w, hw, rfl⟩ := Option.map_eq_some_iff.mp hstep
    refine .put (w.saveDraft true).1 hw rfl (.inl rfl) (Nat.le_refl _) (w.saveDraft true).2 ?_ rfl (.inr rfl)
    simp [Window.saveDraft, Request.state]
  | clickDiscard id =>
    obtain ⟨w, hw, rfl⟩ := Option.map_eq_some_iff.mp hstep
    exact .drop hw rfl [.discard, .closed] (by simp [Request.state]) rfl rfl
  | closeBox id choice =>
    obtain ⟨w, hw, rfl⟩ := Option.map_eq_some_iff.mp hstep
    split
    · exact .stay (Nat.le_refl _) (.refl _) rfl
    · next rs hrs => exact .drop hw rfl rs (closeRequested_state hrs) rfl rfl
  | timer id =>
    obtain ⟨w, hw, rfl⟩ := Option.map_eq_some_iff.mp hstep
    obtain ⟨hid, hstamp⟩ := timer_stamp w
    refine .put w.timer.1 hw hid (.inl hstamp) (Nat.le_refl _) w.timer.2 ?_ rfl (.inr rfl)
    intro r hr x hx
    rw [timer_requests hr] at hx
    exact (Option.some.inj hx).symm
  | receive id =>
    obtain ⟨w, hw, hstep⟩ := Option.bind_eq_some_iff.mp hstep
    obtain ⟨p, -, rfl⟩ := Option.map_eq_some_iff.mp hstep
    dsimp only
    split
    · next w' hw' =>
      obtain ⟨hid, hstamp⟩ := update_stamp hw'
      exact .put w' hw hid (.inl hstamp) (Nat.le_refl _) [] (by simp) (List.append_nil _).symm (.inr rfl)
    · exact .drop hw rfl [.closed] (by simp [Request.state]) rfl rfl
  | handleRequest refusal =>
    obtain ⟨id, r, rest, hrequests, rfl⟩ := of_step_handleRequest hstep
    exact .stay (Nat.le_refl _) (hrequests ▸ List.sublist_cons_self ..) rfl
  | handleEvent refusal opens =>
    obtain ⟨e, rest, hevents, rfl⟩ := of_step_handleEvent hstep
    cases e with
    | draftLoaded row state =>
      have hmem : .draftLoaded row state ∈ s.main.events := hevents ▸ List.mem_cons_self
      have hshown : s.main.books.Shows state.stamp := .inl ⟨row, state, hmem, rfl⟩
      exact .opens { state with draftId := some row } opens (Nat.le_refl _) (.inr hshown) rfl rfl
    | _ => exact .stay (Nat.le_refl _) (.refl _) rfl
  | deleteRow kind row =>
    obtain ⟨-, heq⟩ := Option.ite_none_right_eq_some.mp hstep
    cases heq
    exact .stay (Nat.le_refl _) (.refl _) rfl
  | editQueued row opens =>
    simp only [System.step] at hstep
    split at hstep
    · cases hstep
      exact .stay (Nat.le_refl _) (.refl _) rfl
    · next item hitem =>
      cases hstep
      have hshown : s.main.books.Shows item.compose.stamp :=
        .inr ⟨item, .inl (listedItem_mem hitem).1, rfl⟩
      exact .opens (item.compose.withAccount (some item.accountId)) opens (Nat.le_refl _) (.inr hshown)
        rfl rfl
  | retryQueued row refusal =>
    simp only [System.step] at hstep
    split at hstep <;> cases hstep <;> exact .stay (Nat.le_refl _) (.refl _) rfl
  | execute =>
    obtain ⟨m, -, rfl⟩ := Option.map_eq_some_iff.mp hstep
    exact .stay (Nat.le_refl _) (.refl _) rfl
  | handleOutcome =>
    obtain ⟨o, rest, -, rfl⟩ := of_step_handleOutcome hstep
    exact .stay (Nat.le_refl _) (.refl _) rfl
  | mail error =>
    obtain ⟨c, rest, -, rfl⟩ := of_step_mail hstep
    exact .stay (Nat.le_refl _) (.refl _) rfl
  | poll | showQueue _ | closeQueue _ | openDraft _ | otherCommand | tick _ | reload _ =>
    cases hstep
    exact .stay (Nat.le_refl _) (.refl _) rfl

end System

/-! ## 3. What every version in the books is -/

namespace Books

variable {b b' : Books} {P : Stamp → Prop}

/-- Every version in the books is of a kind. -/
structure Stamped (P : Stamp → Prop) (b : Books) : Prop where
  flight : ∀ id flight, b.deliveries.inFlight.lookup id = some flight → P flight.state.stamp
  write : ∀ c ∈ b.writes, ∀ st ∈ System.stored c, P st
  outbox : ∀ r ∈ b.outbox, P r.2.stamp
  drafts : ∀ r ∈ b.drafts, P r.2.stamp
  shown : ∀ st, b.Shows st → P st

theorem Stamped.mono {P' : Stamp → Prop} (h : Stamped P b) (himp : ∀ st, P st → P' st) : Stamped P' b :=
  ⟨fun id f hf => himp _ (h.flight id f hf), fun c hc st hst => himp _ (h.write c hc st hst),
    fun r hr => himp _ (h.outbox r hr), fun r hr => himp _ (h.drafts r hr),
    fun st hst => himp _ (h.shown st hst)⟩

theorem Stamped.push (h : Stamped P b) {c : DbCommand} (hc : ∀ st ∈ System.stored c, P st) (free : Nat) :
    Stamped P (b.push free c) := by
  unfold Books.push
  split
  · refine { h with write := fun d hd => ?_ }
    rcases List.mem_append.mp hd with hd | hd
    · exact h.write d hd
    · exact List.mem_singleton.mp hd ▸ hc
  · exact h

theorem Stamped.pushDelete (h : Stamped P b) {delete : Row → DbCommand} (hdelete : Deletes delete)
    (free : Nat) (row : Row) : Stamped P (b.push free (delete row)) := by
  rcases hdelete with rfl | rfl <;> exact h.push (by simp [System.stored]) free

theorem Stamped.withDeliveries (h : Stamped P b) {d : Deliveries}
    (hd : ∀ id flight, d.inFlight.lookup id = some flight → P flight.state.stamp) :
    Stamped P (b.withDeliveries d) := { h with flight := hd }

theorem Stamped.forgetIfDone (h : Stamped P b) (id : ComposeId) : Stamped P (b.forgetIfDone id) := by
  unfold Books.forgetIfDone
  split
  · split
    · exact { h with }
    · exact h
  · exact h

theorem Stamped.startCompose (h : Stamped P b) (state : ComposeState) (opens : Bool) :
    Stamped P (b.startCompose state opens) := by
  cases opens <;> exact { h with }

theorem Stamped.saveDraft (h : Stamped P b) {state : ComposeState} (hstate : P state.stamp) (free : Nat)
    (id : ComposeId) (explicit : Bool) : Stamped P (b.saveDraft free id state explicit) := by
  unfold Books.saveDraft
  split
  · exact h
  · next entry _ =>
    split
    · exact h
    · have hentry : Stamped P (b.setEntry id
        { entry with savesPending := entry.savesPending + 1, announceSave := explicit }) := { h with }
      refine hentry.push (fun st hst => ?_) free
      rw [List.mem_singleton.mp hst]
      exact hstate

theorem Stamped.settle (h : Stamped P b) (free : Nat) (id : ComposeId) : Stamped P (b.settle free id) := by
  unfold Books.settle
  split
  · exact h
  · next entry _ =>
    have hentry : Stamped P (b.setEntry id { entry with settled := true, draft := none }) := { h with }
    split
    · exact hentry.push (by simp [System.stored]) free
    · exact hentry

theorem Stamped.endSend (h : Stamped P b) {delete : Row → DbCommand} (hdelete : Deletes delete)
    (free : Nat) (id : ComposeId) : Stamped P (b.endSend delete free id) := by
  have hforget : Stamped P (b.withDeliveries (b.deliveries.forget id).2) :=
    h.withDeliveries fun _ _ hf => h.flight _ _ (Deliveries.lookup_of_erase hf).2
  unfold Books.endSend
  split
  · exact (hforget.pushDelete hdelete free _).settle _ id
  · exact hforget.settle free id

theorem Stamped.windowClosed (h : Stamped P b) (id : ComposeId) : Stamped P (b.windowClosed id) := by
  unfold Books.windowClosed
  refine Stamped.forgetIfDone ?_ id
  split
  · exact { h with }
  · exact h

theorem Stamped.draftSaved (h : Stamped P b) (free : Nat) (row : Row) (id : ComposeId) :
    Stamped P (b.draftSaved free row id) := by
  unfold Books.draftSaved
  split
  · exact h
  · next entry _ =>
    refine Stamped.forgetIfDone ?_ id
    split
    · exact Stamped.push (b := b.setEntry id _) { h with } (by simp [System.stored]) free
    · exact { h with }

theorem Stamped.outcomeFailed (h : Stamped P b) (free : Nat) (id : ComposeId) :
    Stamped P (b.outcomeFailed free id) := by
  have hfewer : Stamped P (b.failedSend id) :=
    h.withDeliveries fun _ _ hf => h.flight _ _ (Deliveries.lookup_of_erase hf).2
  have hcases := b.outcomeFailed_cases free id
  generalize b.outcomeFailed free id = b' at hcases ⊢
  cases hcases with
  | unknown => exact h
  | backoff => exact hfewer
  | homeless => exact hfewer
  | enqueued hf =>
    refine hfewer.push (fun st hst => ?_) free
    rw [List.mem_singleton.mp hst]
    exact h.flight id _ hf

theorem Stamped.outcomeSent (h : Stamped P b) (free : Nat) (id : ComposeId) :
    Stamped P (b.outcomeSent free id) := by
  cases hf : b.deliveries.inFlight.lookup id with
  | none =>
    unfold Books.outcomeSent
    rw [Deliveries.delivered_none hf]
    exact h
  | some flight =>
    rw [outcomeSent_eq hf]
    exact h.endSend (.inl rfl) free id

/-- An answer is taken; the list is the old one, or that of the answer. -/
theorem Stamped.popEvent (h : Stamped P b) {e : CacheEvent} {rest : List CacheEvent}
    (hevents : b.events = e :: rest) {items : List OutboxItem}
    (hitems : ∀ item ∈ items, item ∈ b.listed ∨ item ∈ e.items) :
    Stamped P { b with events := rest, listed := items } := by
  have hsub : ∀ {e'}, e' ∈ rest → e' ∈ b.events := fun he => hevents ▸ List.mem_cons_of_mem _ he
  refine { h with shown := ?_ }
  rintro st (⟨row, c, he, hst⟩ | ⟨item, hi | ⟨e', he, hi⟩, hst⟩)
  · exact h.shown st (.inl ⟨row, c, hsub he, hst⟩)
  · refine h.shown st (.inr ⟨item, (hitems item hi).imp_right fun hmem => ?_, hst⟩)
    exact ⟨e, hevents ▸ List.mem_cons_self, hmem⟩
  · exact h.shown st (.inr ⟨item, .inr ⟨e', hsub he, hi⟩, hst⟩)

theorem Stamped.pop (h : Stamped P b) {e : CacheEvent} {rest : List CacheEvent}
    (hevents : b.events = e :: rest) : Stamped P { b with events := rest } :=
  h.popEvent hevents fun _ hi => .inl hi

/-- The actor answers, and what it shows is in the tables. -/
theorem Stamped.answers (h : Stamped P b) {es : List CacheEvent} (hes : b.Answer es) :
    Stamped P { b with events := b.events ++ es } := by
  have houtbox : ∀ {items : List OutboxItem}, (∀ p ∈ items.map fun i => (i.id, i.compose), p ∈ b.outbox) →
      ∀ item ∈ items, P item.compose.stamp := fun hall item hi =>
    h.outbox _ (hall _ (List.mem_map_of_mem hi))
  refine { h with shown := ?_ }
  rintro st (⟨row, c, he, rfl⟩ | ⟨item, hi | ⟨e, he, hi⟩, rfl⟩)
  · rcases List.mem_append.mp he with he | he
    · exact h.shown _ (.inl ⟨row, c, he, rfl⟩)
    · cases hes with
      | draft hmem =>
        cases List.mem_singleton.mp he
        exact h.drafts _ hmem
      | _ => simp at he
  · exact h.shown _ (.inr ⟨item, .inl hi, rfl⟩)
  · rcases List.mem_append.mp he with he | he
    · exact h.shown _ (.inr ⟨item, .inr ⟨e, he, hi⟩, rfl⟩)
    · cases hes with
      | due hsub =>
        cases List.mem_singleton.mp he
        exact houtbox (fun p hp => hsub.subset hp) item hi
      | outbox heq =>
        cases List.mem_singleton.mp he
        exact houtbox (fun p hp => heq ▸ hp) item hi
      | nothing => exact absurd he (by simp)
      | _ =>
        cases List.mem_singleton.mp he
        exact absurd hi (by simp [CacheEvent.items])

/-- A command that writes is run: what it stores is in a table then. -/
theorem Stamped.runStored (h : Stamped P b) {c : DbCommand} (hc : ∀ st ∈ System.stored c, P st) :
    Stamped P (b.run c) := by
  -- The tables change, and an answer is given that shows no version.
  have htables : ∀ (drafts outbox : List (Row × ComposeState)) (nextDraft nextOutbox : Row) (e : CacheEvent),
      (∀ r ∈ drafts, P r.2.stamp) → (∀ r ∈ outbox, P r.2.stamp) → e.items = [] →
        (∀ row c, e ≠ .draftLoaded row c) →
          Stamped P ⟨b.accounts, b.entries, b.deliveries, b.listed, b.writes, b.events ++ [e], outbox,
            drafts, nextOutbox, nextDraft, b.mails, b.outcomes⟩ := by
    intro drafts outbox nextDraft nextOutbox e hdrafts houtbox hitems hloaded
    refine ⟨h.flight, h.write, houtbox, hdrafts, ?_⟩
    rintro st (⟨row, c, he, rfl⟩ | ⟨item, hi | ⟨e', he, hi⟩, rfl⟩)
    · rcases List.mem_append.mp he with he | he
      · exact h.shown _ (.inl ⟨row, c, he, rfl⟩)
      · exact absurd (List.mem_singleton.mp he).symm (hloaded row c)
    · exact h.shown _ (.inr ⟨item, .inl hi, rfl⟩)
    · rcases List.mem_append.mp he with he | he
      · exact h.shown _ (.inr ⟨item, .inr ⟨e', he, hi⟩, rfl⟩)
      · rw [List.mem_singleton.mp he, hitems] at hi
        exact absurd hi List.not_mem_nil
  have hupdate : ∀ (rows : List (Row × ComposeState)) (row : Row) (x : ComposeState),
      (∀ r ∈ rows, P r.2.stamp) → P x.stamp →
        ∀ r ∈ rows.map fun r => if r.1 = row then (row, x) else r, P r.2.stamp := by
    intro rows row x hrows hx r hr
    obtain ⟨old, hold, rfl⟩ := List.mem_map.mp hr
    split
    · exact hx
    · exact hrows old hold
  have hinsert : ∀ (rows : List (Row × ComposeState)) (row : Row) (x : ComposeState),
      (∀ r ∈ rows, P r.2.stamp) → P x.stamp → ∀ r ∈ rows ++ [(row, x)], P r.2.stamp := by
    intro rows row x hrows hx r hr
    rcases List.mem_append.mp hr with hr | hr
    · exact hrows r hr
    · rw [List.mem_singleton.mp hr]
      exact hx
  cases c with
  | saveDraft row id accountId compose =>
    have hstamp : P compose.stamp := hc _ (List.mem_singleton_self _)
    cases row with
    | some row =>
      exact htables _ _ _ _ (.draftSaved row id) (hupdate b.drafts row compose h.drafts hstamp) h.outbox rfl
        (by simp)
    | none =>
      exact htables _ _ _ _ (.draftSaved _ id) (hinsert b.drafts _ compose h.drafts hstamp) h.outbox rfl
        (by simp)
  | enqueueOutbox row id accountId compose =>
    have hstamp : P compose.stamp := hc _ (List.mem_singleton_self _)
    cases row with
    | some row =>
      exact htables _ _ _ _ (.outboxEnqueued row id) h.drafts (hupdate b.outbox row compose h.outbox hstamp)
        rfl (by simp)
    | none =>
      exact htables _ _ _ _ (.outboxEnqueued _ id) h.drafts (hinsert b.outbox _ compose h.outbox hstamp) rfl
        (by simp)
  | deleteDraft row => exact { h with drafts := fun r hr => h.drafts r (List.mem_of_mem_filter hr) }
  | markOutboxSent row | deleteOutbox row =>
    exact { h with outbox := fun r hr => h.outbox r (List.mem_of_mem_filter hr) }
  | listDrafts | loadDraft _ | dueOutbox | listOutbox | markOutboxFailed _ _ | other => exact h

theorem Stamped.run (h : Stamped P b) {c : DbCommand} {ws : List DbCommand} (hwrites : b.writes = c :: ws) :
    Stamped P ({ b with writes := ws }.run c) := by
  have hsub : ∀ d ∈ ws, ∀ st ∈ System.stored d, P st := fun d hd =>
    h.write d (hwrites ▸ List.mem_cons_of_mem c hd)
  exact Stamped.runStored (b := { b with writes := ws }) { h with write := hsub }
    (h.write c (hwrites ▸ List.mem_cons_self))

theorem Stamped.runAll (ws : List DbCommand) (h : Stamped P b) (hws : ∀ c ∈ ws, ∀ st ∈ System.stored c, P st) :
    Stamped P (ws.foldl Books.run b) := by
  induction ws generalizing b with
  | nil => exact h
  | cons c ws ih =>
    exact ih (h.runStored (hws c List.mem_cons_self)) fun d hd => hws d (List.mem_cons_of_mem c hd)

theorem Stamped.reload (h : Stamped P b) (accounts : List AccountId) : Stamped P (b.reload accounts) := by
  have hall := Stamped.runAll b.writes h h.write
  rw [reload_eq]
  refine { hall with
    write := fun c hc => absurd hc List.not_mem_nil
    shown := ?_ }
  rintro st (⟨row, c, he, -⟩ | ⟨item, hi | ⟨e, he, -⟩, hst⟩)
  · exact absurd he List.not_mem_nil
  · exact hall.shown st (.inr ⟨item, .inl hi, hst⟩)
  · exact absurd he List.not_mem_nil

end Books

/-- A flight that a retry began is new, and is of one of the items. -/
theorem Deliveries.retryAll_flights (accountIndex : AccountId → Option Nat) (items : List OutboxItem)
    (d : Deliveries) : d.lastId ≤ (retryAll accountIndex d items).2.lastId ∧
      ∀ id flight, (retryAll accountIndex d items).2.inFlight.lookup id = some flight →
        d.inFlight.lookup id = some flight ∨
          (d.lastId < id ∧ ∃ item ∈ items, flight.state = item.compose) := by
  induction items generalizing d with
  | nil => exact ⟨Nat.le_refl _, fun _ _ h => .inl h⟩
  | cons item items ih =>
    unfold retryAll
    split
    · obtain ⟨hle, hall⟩ := ih d
      refine ⟨hle, fun id flight hf => (hall id flight hf).imp_right ?_⟩
      rintro ⟨hlt, i, hi, hstate⟩
      exact ⟨hlt, i, List.mem_cons_of_mem _ hi, hstate⟩
    · next account _ =>
      obtain ⟨hle, hall⟩ := ih (d.retry item account).2
      refine ⟨Nat.le_of_succ_le hle, fun id flight hf => ?_⟩
      rcases hall id flight hf with hf | ⟨hlt, i, hi, hstate⟩
      · rcases Deliveries.lookup_of_insert hf with ⟨rfl, rfl⟩ | ⟨-, hold⟩
        · exact .inr ⟨Nat.lt_succ_self _, item, List.mem_cons_self, rfl⟩
        · exact .inl hold
      · exact .inr ⟨Nat.lt_of_succ_lt hlt, i, List.mem_cons_of_mem _ hi, hstate⟩

theorem Books.Stamped.outboxDue {P : Stamp → Prop} {s : MainWindow} (h : Stamped P s.books)
    (refusal : ComposeId → Option String) {items : List OutboxItem}
    (hitems : ∀ item ∈ items, P item.compose.stamp) : Stamped P (s.outboxDue refusal items).books := by
  refine s.outboxDue_induction (P := fun _ b => Stamped P b) ?_ ?_ refusal items ?_
  · exact fun retry _ b free hb => hb.outcomeFailed free retry.id
  · exact fun _ _ _ _ hb => { hb with }
  · refine h.withDeliveries fun id flight hf => ?_
    rcases (Deliveries.retryAll_flights _ _ _).2 id flight hf with hold | ⟨-, item, hi, hstate⟩
    · exact h.flight id flight hold
    · rw [hstate]
      exact hitems item (List.mem_of_mem_filter hi)

/-! ## 4. Every version is older than the clock -/

namespace System

open Books

theorem Effect.stamped {s : System} {P : Stamp → Prop} {a : Action} {b' : Books} {delivered' : List Stamp}
    {next' : Nat} (h : Stamped P s.main.books)
    (hrequests : ∀ p ∈ s.requests, ∀ x, p.2.state = some x → P x.stamp)
    (heffect : Effect s a b' delivered' next') : Stamped P b' := by
  cases heffect with
  | quiet => exact h
  | compose => exact h.startCompose _ _
  | @send _ id state _ _ _ hreq =>
    have hstate : P state.stamp := hrequests _ (hreq ▸ List.mem_cons_self) state rfl
    refine Stamped.withDeliveries (b := s.main.books.hand _ _ _) { h with } fun id' flight hf => ?_
    rcases Deliveries.lookup_of_insert hf with ⟨rfl, rfl⟩ | ⟨-, hold⟩
    · exact hstate
    · exact h.flight id' flight hold
  | @save _ _ state _ _ hreq =>
    exact h.saveDraft (hrequests _ (hreq ▸ List.mem_cons_self) state rfl) _ _ _
  | discard => exact h.endSend (.inr rfl) _ _
  | closed => exact h.windowClosed _
  | draftSaved hevents => exact (h.pop hevents).draftSaved _ _ _
  | outboxEnqueued hevents => exact { h.pop hevents with }
  | @due _ _ items rest hevents =>
    refine Stamped.outboxDue (s := { s.main with events := rest }) (h.pop hevents) _ fun item hi => ?_
    have hmem : .outboxDue items ∈ s.main.books.events := hevents ▸ List.mem_cons_self
    exact h.shown _ (.inr ⟨item, .inr ⟨_, hmem, hi⟩, rfl⟩)
  | listed hevents => exact h.popEvent hevents fun _ hi => .inr hi
  | loaded hevents => exact (h.pop hevents).startCompose _ _
  | told hevents _ => exact h.pop hevents
  | @sent id rest _ =>
    have hpop : Stamped P { s.main.books with outcomes := rest } := { h with }
    exact hpop.outcomeSent _ _
  | @failed id _ rest _ =>
    have hpop : Stamped P { s.main.books with outcomes := rest } := { h with }
    exact hpop.outcomeFailed _ _
  | deleteDraft => exact h.push (by simp [stored]) _
  | deleteOutbox => exact h.pushDelete (.inr rfl) _ _
  | @edit _ opens item hitem =>
    have hlist : Stamped P { s.main.books with
        listed := s.main.books.listed.eraseP fun i => i.id = item.id } := by
      refine { h with shown := ?_ }
      rintro st (hloaded | ⟨i, hi | he, hst⟩)
      · exact h.shown st (.inl hloaded)
      · exact h.shown st (.inr ⟨i, .inl (List.mem_of_mem_eraseP hi), hst⟩)
      · exact h.shown st (.inr ⟨i, .inr he, hst⟩)
    exact (hlist.pushDelete (.inr rfl) s.main.free item.id).startCompose _ _
  | @retry _ _ item hitem =>
    refine h.outboxDue _ fun i hi => ?_
    rw [List.mem_singleton.mp hi]
    exact h.shown _ (.inr ⟨item, .inl (listedItem_mem hitem).1, rfl⟩)
  | write hwrites => exact h.run hwrites
  | read hanswer => exact h.answers hanswer
  | mail => exact { h with }
  | reload => exact h.reload _

structure Dated (s : System) : Prop where
  books : Stamped (fun st => st.rev < s.clock) s.main.books
  window : ∀ w ∈ s.windows, w.stamp.rev < s.clock
  request : ∀ p ∈ s.requests, ∀ x, p.2.state = some x → x.stamp.rev < s.clock

theorem Dated.step {s s' : System} (h : Dated s) {a : Action} (hstep : s.step a = some s') : Dated s' := by
  have hturns := turns hstep
  refine ⟨?_, ?_, ?_⟩
  · exact ((effect hstep).stamped h.books h.request).mono fun st hst => Nat.lt_of_lt_of_le hst hturns.clock
  · intro w' hw'
    rcases hturns.window w' hw' with ⟨w, hw, -, heq | ⟨heq, hlt⟩⟩ | ⟨-, ⟨heq, hlt⟩ | hshown⟩
    · rw [heq]
      exact Nat.lt_of_lt_of_le (h.window w hw) hturns.clock
    · rw [heq]
      exact hlt
    · rw [heq]
      exact hlt
    · exact Nat.lt_of_lt_of_le (h.books.shown _ hshown) hturns.clock
  · intro p hp x hx
    obtain ⟨old, new, heq, hold, hnew⟩ := hturns.requests
    rw [heq] at hp
    rcases List.mem_append.mp hp with hp | hp
    · exact Nat.lt_of_lt_of_le (h.request p (hold.subset hp) x hx) hturns.clock
    · obtain ⟨w, hw, -, hstamp⟩ := hnew p hp x hx
      rw [← hstamp]
      exact Nat.lt_of_lt_of_le (h.window w hw) hturns.clock

theorem Dated.init {s : System} (h : Started s) : Dated s := by
  have hrows : ∀ st ∈ rowStamps s.main.db, st.rev < s.clock := fun st hst => (h.msg_lt st hst).2
  obtain ⟨accounts, db, hmain⟩ := h.main
  refine ⟨?_, by simp [h.windows], by simp [h.requests]⟩
  rw [hmain] at hrows ⊢
  have hnone : ∀ {β : Type} (id : ComposeId), (∅ : AList fun _ : ComposeId => β).lookup id = none :=
    fun id => AList.lookup_empty id
  constructor
  · exact fun id flight hf => absurd ((hnone id).symm.trans hf) (by simp)
  · exact fun c hc => absurd hc (by simp [MainWindow.books])
  · intro r hr
    obtain ⟨row, hrow, rfl⟩ := List.mem_map.mp hr
    exact hrows _ (List.mem_append_right _ (List.mem_map_of_mem hrow))
  · intro r hr
    obtain ⟨row, hrow, rfl⟩ := List.mem_map.mp hr
    exact hrows _ (List.mem_append_left _ (List.mem_map_of_mem hrow))
  · rintro st (⟨row, c, he, -⟩ | ⟨item, hi | ⟨e, he, -⟩, -⟩)
    · exact absurd he List.not_mem_nil
    · exact absurd hi List.not_mem_nil
    · exact absurd he List.not_mem_nil

theorem dated {ok : System → Action → Prop} {s : System} (h : machine.Reach ok s) : Dated s :=
  h.invariant (P := Dated) (fun _ h0 => Dated.init h0) fun _ a _ _ hd _ hstep => Dated.step hd (a := a) hstep

end System

end Esmail
