/-
# No row of the outbox is forgotten

A due row is skipped while an id owns it whose window is open or that is being sent.  The second
reason must end some day: the mailer must still have the message, or its outcome must still be on
its way.

One step breaks that, the replacement of the mail core, because the ledger outlives the core whose
outcomes empty it: the row is skipped for ever (`reload_orphans_row`).  `skipped_row_is_owned` is about
the runs in which it does not happen to a row (`SparesRows`): a due row that `retries` neither sends nor
backs off is owned by a window that is open, or by a send whose outcome the core will still report.

`Reported` is the invariant: what is being sent is with the mailer or has an outcome that waits, or owns
no row and will own none.  It is about ids and not about rows, as an id may come to own a row long after
its send began.  The functions of the main window keep it one by one; those that only take something away
keep it by one lemma (`Reported.mono`).

That the outcome does come is up to the mailer.
-/
import Esmail.Outgoing.ExactlyOnce

namespace Esmail

open Transition

namespace Books

variable {b b' : Books}

/-- What is being sent is with the mailer or has an outcome that waits, or owns no row and will
own none. -/
def Reported (b : Books) : Prop :=
  ∀ id, b.deliveries.inFlight.lookup id ≠ none →
    id ∈ b.outstanding ∨ (b.deliveries.outboxRows.lookup id = none ∧ id ∉ b.enqueuing)

/-! ## 1. The functions of the main window -/

theorem Reported.mono (h : Reported b)
    (hflight : ∀ id, b'.deliveries.inFlight.lookup id ≠ none →
      b.deliveries.inFlight.lookup id ≠ none)
    (hrow : ∀ id, b'.deliveries.inFlight.lookup id ≠ none →
      b'.deliveries.outboxRows.lookup id = b.deliveries.outboxRows.lookup id)
    (henqueuing : ∀ id, b'.deliveries.inFlight.lookup id ≠ none →
      id ∈ b'.enqueuing → id ∈ b.enqueuing)
    (houtstanding : ∀ id, b'.deliveries.inFlight.lookup id ≠ none →
      id ∈ b.outstanding → id ∈ b'.outstanding) : Reported b' := by
  intro id hid
  rcases h id (hflight id hid) with hout | ⟨hnone, hanswered⟩
  · exact .inl (houtstanding id hid hout)
  · exact .inr ⟨(hrow id hid).trans hnone, fun hmem => hanswered (henqueuing id hid hmem)⟩

theorem Reported.aside (h : Reported b) (ha : Aside b b') : Reported b' := by
  refine h.mono ?_ ?_ ?_ ?_
  · exact fun id hid => ha.deliveries ▸ hid
  · exact fun id _ => by rw [ha.deliveries]
  · exact fun id _ hmem => ha.enqueuing ▸ hmem
  · exact fun id _ hout => by rwa [outstanding, ha.mails, ha.outcomes]

theorem Reported.endSend (h : Reported b) {delete : Row → DbCommand} (hdelete : Deletes delete)
    (free : Nat) {id : ComposeId} {outs : List SmtpEvent}
    (hothers : ∀ o ∈ b.outcomes, o.id ≠ id → o ∈ outs) :
    Reported ({ b with outcomes := outs }.endSend delete free id) := by
  refine Reported.aside ?_ (aside_endSend { b with outcomes := outs } hdelete free id)
  have hlook : ∀ {id'}, (b.deliveries.inFlight.erase id).lookup id' ≠ none →
      id' ≠ id ∧ b.deliveries.inFlight.lookup id' ≠ none := by
    intro id' hid'
    obtain ⟨flight, hf⟩ := Option.ne_none_iff_exists'.mp hid'
    obtain ⟨hne, hold⟩ := Deliveries.lookup_of_erase hf
    exact ⟨hne, by rw [hold]; simp⟩
  refine h.mono ?_ ?_ ?_ ?_
  · exact fun id' hid' => (hlook hid').2
  · exact fun id' hid' => AList.lookup_erase_ne (hlook hid').1
  · exact fun id' _ hmem => hmem
  · intro id' hid' hout
    rcases List.mem_append.mp hout with hout | hout
    · obtain ⟨o, ho, rfl⟩ := List.mem_map.mp hout
      exact List.mem_append_left _ (List.mem_map_of_mem (hothers o ho (hlook hid').1))
    · exact List.mem_append_right _ hout

/-- An outcome is taken whose id is no longer being sent. -/
theorem Reported.popOutcome (h : Reported b) {o : SmtpEvent} {rest : List SmtpEvent}
    (houtcomes : b.outcomes = o :: rest) (hidle : b.deliveries.inFlight.lookup o.id = none) :
    Reported { b with outcomes := rest } := by
  refine h.mono (fun _ hid => hid) (fun _ _ => rfl) (fun _ _ hmem => hmem) ?_
  intro id hid hout
  have hne : id ≠ o.id := fun heq => hid (heq ▸ hidle)
  rw [outstanding, houtcomes, List.map_cons, List.cons_append] at hout
  exact (List.mem_cons.mp hout).resolve_left hne

theorem Reported.outcomeSent (h : Reported b) (free : Nat) {id : ComposeId} {rest : List SmtpEvent}
    (houtcomes : b.outcomes = .sent id :: rest) :
    Reported ({ b with outcomes := rest }.outcomeSent free id) := by
  cases hf : b.deliveries.inFlight.lookup id with
  | none =>
    have hnone : ({ b with outcomes := rest } : Books).outcomeSent free id =
        { b with outcomes := rest } := by
      unfold Books.outcomeSent
      rw [Deliveries.delivered_none hf]
    rw [hnone]
    exact h.popOutcome houtcomes hf
  | some flight =>
    rw [outcomeSent_eq (b := { b with outcomes := rest }) hf]
    refine h.endSend (.inl rfl) free ?_
    intro o ho hne
    rw [houtcomes] at ho
    refine (List.mem_cons.mp ho).resolve_left ?_
    rintro rfl
    exact hne rfl

/-- A failed send: only its own id may be enqueued, and that is no longer being sent. -/
theorem outcomeFailed_facts (b : Books) (free : Nat) (id : ComposeId) :
    (∀ id', (b.outcomeFailed free id).deliveries.inFlight.lookup id' ≠ none →
      id' ≠ id ∧ b.deliveries.inFlight.lookup id' ≠ none) ∧
    (b.outcomeFailed free id).deliveries.outboxRows = b.deliveries.outboxRows ∧
    (∀ id', id' ≠ id → id' ∈ (b.outcomeFailed free id).enqueuing → id' ∈ b.enqueuing) ∧
    (b.outcomeFailed free id).outstanding = b.outstanding := by
  have hlook : ∀ id', (b.deliveries.inFlight.erase id).lookup id' ≠ none →
      id' ≠ id ∧ b.deliveries.inFlight.lookup id' ≠ none := by
    intro id' hid'
    obtain ⟨flight, hold⟩ := Option.ne_none_iff_exists'.mp hid'
    exact ⟨(Deliveries.lookup_of_erase hold).1, by rw [(Deliveries.lookup_of_erase hold).2]; simp⟩
  have hcases := b.outcomeFailed_cases free id
  generalize b.outcomeFailed free id = b' at hcases ⊢
  cases hcases with
  | unknown hf =>
    refine ⟨fun id' hid' => ⟨?_, hid'⟩, rfl, fun _ _ hmem => hmem, rfl⟩
    rintro rfl
    exact hid' hf
  | backoff => exact ⟨hlook, rfl, fun _ _ hmem => hmem, rfl⟩
  | homeless => exact ⟨hlook, rfl, fun _ _ hmem => hmem, rfl⟩
  | enqueued =>
    unfold Books.push
    split
    · refine ⟨hlook, rfl, ?_, rfl⟩
      intro id' hne hmem
      simp only [enqueuing, failedSend, Books.withDeliveries, List.filterMap_append, DbCommand.enqueues,
        List.filterMap_cons, List.filterMap_nil, ← List.append_assoc] at hmem
      exact (List.mem_append.mp hmem).resolve_right fun heq => hne (List.mem_singleton.mp heq)
    · exact ⟨hlook, rfl, fun _ _ hmem => hmem, rfl⟩

theorem Reported.outcomeFailed (h : Reported b) (free : Nat) {id : ComposeId} {error : String}
    {rest : List SmtpEvent} (houtcomes : b.outcomes = .error id error :: rest) :
    Reported ({ b with outcomes := rest }.outcomeFailed free id) := by
  obtain ⟨hflight, hrow, henqueuing, houtstanding⟩ :=
    outcomeFailed_facts { b with outcomes := rest } free id
  refine h.mono (fun id' hid' => (hflight id' hid').2) (fun _ _ => by rw [hrow])
    (fun id' hid' hmem => henqueuing id' (hflight id' hid').1 hmem) ?_
  intro id' hid' hout
  rw [houtstanding]
  rw [outstanding, houtcomes, List.map_cons, List.cons_append] at hout
  exact (List.mem_cons.mp hout).resolve_left (hflight id' hid').1

theorem Reported.outboxEnqueued (h : Reported b) {row : Row} {id : ComposeId}
    {rest : List CacheEvent} (hevents : b.events = .outboxEnqueued row id :: rest) :
    Reported ({ b with events := rest }.outboxEnqueued row id) := by
  have henqueuing : b.enqueuing = id :: ({ b with events := rest } : Books).enqueuing := by
    unfold enqueuing
    rw [hevents]
    rfl
  intro id' hid'
  rcases h id' hid' with hout | ⟨hnone, hanswered⟩
  · exact .inl hout
  · rw [henqueuing, List.mem_cons, not_or] at hanswered
    exact .inr ⟨(AList.lookup_insert_ne hanswered.1).trans hnone, hanswered.2⟩

/-- Between two attempts: the sends that are not yet with the mailer are known. -/
def ReportedBut (retries : List Retry) (b : Books) : Prop :=
  ∀ id, b.deliveries.inFlight.lookup id ≠ none → id ∈ retries.map Retry.id ∨
    id ∈ b.outstanding ∨ (b.deliveries.outboxRows.lookup id = none ∧ id ∉ b.enqueuing)

/-- The ledger of retries: an id that was given before keeps what it has. -/
theorem retryAll_facts (accountIndex : AccountId → Option Nat) : ∀ (items : List OutboxItem)
    (d : Deliveries),
    (∀ id, (Deliveries.retryAll accountIndex d items).2.inFlight.lookup id ≠ none →
      id ∈ (Deliveries.retryAll accountIndex d items).1.1.map Retry.id ∨
        d.inFlight.lookup id ≠ none) ∧
    ∀ id, id ≤ d.lastId → (Deliveries.retryAll accountIndex d items).2.outboxRows.lookup id =
      d.outboxRows.lookup id
  | [], d => ⟨fun _ hid => .inr hid, fun _ _ => rfl⟩
  | item :: items, d => by
    unfold Deliveries.retryAll
    split
    · exact retryAll_facts accountIndex items d
    · next account _ =>
      obtain ⟨hflight, hrow⟩ := retryAll_facts accountIndex items (d.retry item account).2
      constructor
      · intro id hid
        rcases hflight id hid with hmem | hold
        · exact .inl (List.mem_cons_of_mem _ hmem)
        · obtain ⟨flight, hlook⟩ := Option.ne_none_iff_exists'.mp hold
          rcases Deliveries.lookup_of_insert hlook with ⟨rfl, -⟩ | ⟨-, hlook⟩
          · exact .inl List.mem_cons_self
          · exact .inr (by rw [hlook]; simp)
      · intro id hid
        have hne : id ≠ d.lastId + 1 := fun heq => absurd (heq ▸ hid) (Nat.not_succ_le_self _)
        exact (hrow id (Nat.le_succ_of_le hid)).trans (AList.lookup_insert_ne hne)

theorem Reported.outboxDue {s : MainWindow} (h : Reported s.books) (hnumbered : Numbered s.books)
    (refusal : ComposeId → Option String) (items : List OutboxItem) :
    Reported (s.outboxDue refusal items).books := by
  have hend : ReportedBut [] (s.outboxDue refusal items).books := by
    refine s.outboxDue_induction (P := ReportedBut) ?_ ?_ refusal items ?_
    · intro retry rest b free hb id hid
      obtain ⟨hflight, hrow, henqueuing, houtstanding⟩ := outcomeFailed_facts b free retry.id
      obtain ⟨hne, hold⟩ := hflight id hid
      rcases hb id hold with hmem | hout | ⟨hnone, hanswered⟩
      · exact .inl ((List.mem_cons.mp hmem).resolve_left hne)
      · exact .inr (.inl (houtstanding ▸ hout))
      · exact .inr (.inr ⟨by rw [hrow]; exact hnone, fun hmem => hanswered (henqueuing id hne hmem)⟩)
    · intro retry rest b config hb id hid
      have houtstanding : (b.hand retry.id config retry.state).outstanding =
          b.outstanding ++ [retry.id] := by
        simp [outstanding, Books.hand]
      rcases hb id hid with hmem | hout | hquiet
      · rcases List.mem_cons.mp hmem with rfl | hmem
        · exact .inr (.inl (houtstanding ▸ List.mem_append_right _ (List.mem_singleton_self _)))
        · exact .inl hmem
      · exact .inr (.inl (houtstanding ▸ List.mem_append_left _ hout))
      · exact .inr (.inr hquiet)
    · intro id hid
      obtain ⟨hflight, hrow⟩ := retryAll_facts s.accountIndex
        (items.filter fun item => item.id ∉ s.books.deliveries.ownedRows s.books.windowOpen)
        s.books.deliveries
      rcases hflight id hid with hmem | hold
      · exact .inl hmem
      · refine .inr ((h id hold).imp_right fun hquiet => ⟨?_, hquiet.2⟩)
        exact (hrow id (hnumbered.flight_le id hold)).trans hquiet.1
  exact fun id hid => (hend id hid).resolve_left (by simp)

theorem Reported.run (h : Reported b) {c : DbCommand} {ws : List DbCommand}
    (hwrites : b.writes = c :: ws) : Reported ({ b with writes := ws }.run c) := by
  have henqueuing : ∀ id, id ∈ ({ b with writes := ws }.run c).enqueuing → id ∈ b.enqueuing := by
    intro id
    unfold enqueuing
    rw [hwrites]
    cases c with
    | saveDraft row _ _ _ => cases row <;> simp [Books.run, CacheEvent.enqueued, DbCommand.enqueues]
    | enqueueOutbox row _ _ _ =>
      cases row <;> simp [Books.run, CacheEvent.enqueued, DbCommand.enqueues]
    | _ => simp [Books.run, DbCommand.enqueues]
  have hframe : ({ b with writes := ws }.run c).deliveries = b.deliveries ∧
      ({ b with writes := ws }.run c).outstanding = b.outstanding := by
    cases c with
    | saveDraft row _ _ _ => cases row <;> exact ⟨rfl, rfl⟩
    | enqueueOutbox row _ _ _ => cases row <;> exact ⟨rfl, rfl⟩
    | _ => exact ⟨rfl, rfl⟩
  refine h.mono ?_ ?_ (fun id _ => henqueuing id) ?_
  · exact fun id hid => hframe.1 ▸ hid
  · exact fun id _ => by rw [hframe.1]
  · exact fun id _ hout => hframe.2 ▸ hout

end Books

namespace System

open Books

/-! ## 2. The steps -/

/-- The core is replaced only while nothing that is being sent owns a row. -/
def SparesRows (s : System) : Action → Prop
  | .reload _ => ∀ id ∈ s.main.deliveries.inFlight.keys, s.main.deliveries.outboxRows.lookup id = none
  | _ => True

instance (s : System) (a : Action) : Decidable (s.SparesRows a) := by
  cases a <;> unfold SparesRows <;> infer_instance

theorem Reported.step {s s' : System} (hnumbered : Numbered s.main.books)
    (h : Reported s.main.books) {a : Action} (hok : s.SparesRows a) (hstep : s.step a = some s') :
    Reported s'.main.books := by
  have heffect := effect hstep
  generalize s'.main.books = b' at heffect ⊢
  generalize s'.delivered = delivered' at heffect
  generalize s'.nextMsg = nextMsg' at heffect
  cases heffect with
  | quiet => exact h
  | @compose _ _ opens _ => cases opens <;> exact h
  | @send _ id state _ account config =>
    have houtstanding : (s.main.books.hand id config state).outstanding =
        s.main.books.outstanding ++ [id] := by
      simp [outstanding, Books.hand]
    intro id' hid'
    by_cases hid : id' = id
    · subst hid
      exact .inl (houtstanding ▸ List.mem_append_right _ (List.mem_singleton_self _))
    · have hold : s.main.books.deliveries.inFlight.lookup id' ≠ none :=
        fun hnone => hid' ((AList.lookup_insert_ne hid).trans hnone)
      exact (h id' hold).imp_left fun hout => houtstanding ▸ List.mem_append_left _ hout
  | save => exact h.aside (aside_saveDraft ..)
  | discard => exact h.endSend (.inr rfl) _ fun _ ho _ => ho
  | closed => exact h.aside (aside_windowClosed ..)
  | @draftSaved _ _ row id rest hevents =>
    have hpop : Reported { s.main.books with events := rest } :=
      h.mono (fun _ hid => hid) (fun _ _ => rfl)
        (fun _ _ hmem => by rw [enqueuing, hevents]; exact hmem) fun _ _ hout => hout
    exact hpop.aside (aside_draftSaved ..)
  | outboxEnqueued hevents => exact h.outboxEnqueued hevents
  | @due _ _ items rest hevents =>
    have hpop : Reported { s.main.books with events := rest } :=
      h.mono (fun _ hid => hid) (fun _ _ => rfl)
        (fun _ _ hmem => by rw [enqueuing, hevents]; exact hmem) fun _ _ hout => hout
    exact Reported.outboxDue (s := { s.main with events := rest }) hpop (hnumbered.pop hevents) _ _
  | listed hevents =>
    exact h.mono (fun _ hid => hid) (fun _ _ => rfl)
      (fun _ _ hmem => by rw [enqueuing, hevents]; exact hmem) fun _ _ hout => hout
  | @loaded _ opens _ _ rest hevents =>
    have hpop : Reported { s.main.books with events := rest } :=
      h.mono (fun _ hid => hid) (fun _ _ => rfl)
        (fun _ _ hmem => by rw [enqueuing, hevents]; exact hmem) fun _ _ hout => hout
    cases opens <;> exact hpop
  | told hevents hquiet =>
    refine h.mono (fun _ hid => hid) (fun _ _ => rfl) (fun _ _ hmem => ?_) fun _ _ hout => hout
    rw [enqueuing, hevents]
    rcases hquiet with rfl | rfl <;> exact hmem
  | sent houtcomes => exact h.outcomeSent _ houtcomes
  | failed houtcomes => exact h.outcomeFailed _ houtcomes
  | deleteDraft => exact h.aside (aside_push _ _ rfl)
  | deleteOutbox => exact h.aside (aside_push _ _ rfl)
  | @edit _ opens item =>
    have hpush := Reported.aside (b := { s.main.books with
      listed := s.main.books.listed.eraseP fun i => i.id = item.id }) h
      (aside_push _ s.main.free (c := .deleteOutbox item.id) rfl)
    cases opens <;> exact hpush
  | retry => exact Reported.outboxDue h hnumbered _ _
  | write hwrites => exact h.run hwrites
  | read hanswer =>
    refine h.mono (fun _ hid => hid) (fun _ _ => rfl) (fun id _ hmem => ?_) fun _ _ hout => hout
    rw [enqueuing, List.filterMap_append,
      List.filterMap_eq_nil_iff.mpr (answer_enqueued hanswer), List.append_nil] at hmem
    exact hmem
  | @mail error c rest hmails =>
    have hid : (outcomeOf c.id error).id = c.id := by cases error <;> rfl
    refine h.mono (fun _ hid => hid) (fun _ _ => rfl) (fun _ _ hmem => hmem) fun id' _ hout => ?_
    simpa [outstanding, hmails, hid] using hout
  | reload =>
    intro id hid
    refine .inr ⟨hok id ?_, fun hmem => absurd hmem (by simp [enqueuing, Books.reload])⟩
    exact AList.mem_keys.mpr (AList.lookup_isSome.mp (Option.isSome_iff_ne_none.mpr hid))

theorem Reported.init {s : System} (h : Started s) : Reported s.main.books := by
  obtain ⟨accounts, db, hmain⟩ := h.main
  rw [hmain]
  exact fun id hid => absurd (AList.lookup_empty id) hid

theorem reported {s : System} (h : machine.Reach SparesRows s) : Reported s.main.books :=
  Machine.Reach.invariant (P := fun s => Reported s.main.books) (fun _ h0 => Reported.init h0)
    (fun _ a _ hr ho hok hstep => Reported.step (numbered hr) ho (a := a) hok hstep) h

/-! ## 3. What `retries` skips -/

/-- A due row that `retries` neither sends nor gives back to be backed off. -/
def Skips (m : MainWindow) (due : List OutboxItem) (item : OutboxItem) : Prop :=
  let r := m.deliveries.retries due m.windowOpen m.accountIndex
  item ∉ r.1.2 ∧ ∀ retry ∈ r.1.1, r.2.outboxRows.lookup retry.id ≠ some item.id

/-- Whatever is not owned is retried, or given back. -/
theorem mem_retryAll (accountIndex : AccountId → Option Nat) : ∀ (items : List OutboxItem)
    (d : Deliveries) {item : OutboxItem}, item ∈ items →
    item ∈ (Deliveries.retryAll accountIndex d items).1.2 ∨
      ∃ retry ∈ (Deliveries.retryAll accountIndex d items).1.1,
        (Deliveries.retryAll accountIndex d items).2.outboxRows.lookup retry.id = some item.id
  | first :: items, d, item, hitem => by
    unfold Deliveries.retryAll
    cases haccount : accountIndex first.accountId with
    | none =>
      dsimp only
      rcases List.mem_cons.mp hitem with rfl | hitem
      · exact .inl List.mem_cons_self
      · exact (mem_retryAll accountIndex items d hitem).imp_left (List.mem_cons_of_mem _)
    | some account =>
      dsimp only
      rcases List.mem_cons.mp hitem with rfl | hitem
      · refine .inr ⟨_, List.mem_cons_self, ?_⟩
        have hkeeps := (retryAll_facts accountIndex items (d.retry item account).2).2
          (d.lastId + 1) (Nat.le_refl (d.lastId + 1))
        exact hkeeps.trans (AList.lookup_insert _)
      · refine (mem_retryAll accountIndex items (d.retry first account).2 hitem).imp_right ?_
        rintro ⟨retry, hmem, hlook⟩
        exact ⟨retry, List.mem_cons_of_mem _ hmem, hlook⟩

theorem owned_of_skips {m : MainWindow} {due : List OutboxItem} {item : OutboxItem}
    (hitem : item ∈ due) (hskips : Skips m due item) :
    item.id ∈ m.deliveries.ownedRows m.windowOpen := by
  by_contra howned
  have hmem : item ∈ due.filter fun i => i.id ∉ m.deliveries.ownedRows m.windowOpen :=
    List.mem_filter.mpr ⟨hitem, decide_eq_true howned⟩
  rcases mem_retryAll m.accountIndex _ m.deliveries hmem with hback | ⟨retry, hretry, hlook⟩
  · exact hskips.1 hback
  · exact hskips.2 retry hretry hlook

/-- In these runs a due row is skipped only if an open window owns it, or a send of it whose outcome
the core will still report: so it is retried when the window is closed, or the outcome has been handled. -/
theorem skipped_row_is_owned {s : System} (h : machine.Reach SparesRows s) {due : List OutboxItem}
    {item : OutboxItem} (hitem : item ∈ due) (hskips : Skips s.main due item) :
    ∃ id, s.main.deliveries.outboxRows.lookup id = some item.id ∧
      (s.main.windowOpen id = true ∨
        (s.main.deliveries.inFlight.lookup id ≠ none ∧ id ∈ s.main.books.outstanding)) := by
  obtain ⟨id, hlook, hacts⟩ := Deliveries.mem_ownedRows.mp (owned_of_skips hitem hskips)
  refine ⟨id, hlook, hacts.imp_right fun hsending => ⟨hsending, ?_⟩⟩
  refine (reported h id hsending).resolve_right fun hquiet => ?_
  exact absurd (hquiet.1.symm.trans hlook) (by simp)

/-- A row that an earlier run left in the outbox. -/
def leftRow : OutboxRow := ⟨1, "a", ⟨⟨"b", "", "", "", "text", []⟩, some "a", none, ⟨0, 0⟩⟩, 0, 0, none⟩

/-- One account, and that row. -/
def withLeftRow : System where
  main := { accounts := ["a"], db := { outbox := [leftRow], nextOutbox := 2 } }
  clock := 1
  nextMsg := 1
  promised := [leftRow.compose.stamp]

theorem started_withLeftRow : Started withLeftRow := by
  refine ⟨⟨["a"], { outbox := [leftRow], nextOutbox := 2 }, rfl⟩, rfl, rfl, rfl, rfl, rfl, ?_, ?_, ?_,
    ?_, ?_, ?_⟩ <;> simp [withLeftRow, leftRow, rowStamps]

/-- The timer finds the row due, and it is handed to the mailer. -/
def retryRun : List Action := [.poll, .execute, .handleEvent (fun _ => none) true]

instance (m : MainWindow) (due : List OutboxItem) (item : OutboxItem) :
    Decidable (Skips m due item) := inferInstanceAs (Decidable (_ ∧ _))

theorem skipped_row_is_owned_of_retry : ∃ s : System, s.main.mails.length = 1 ∧
    ∃ id, s.main.deliveries.outboxRows.lookup id = some leftRow.id ∧
      (s.main.windowOpen id = true ∨
        (s.main.deliveries.inFlight.lookup id ≠ none ∧ id ∈ s.main.books.outstanding)) := by
  obtain ⟨s, hreach, hp⟩ := Machine.exists_reach_of_trace machine SparesRows retryRun
    (fun s => s.main.mails.length = 1 ∧ Skips s.main [leftRow.toItem] leftRow.toItem)
    started_withLeftRow (by decide)
  obtain ⟨hmails, hskips⟩ := of_decide_eq_true hp
  exact ⟨s, hmails, skipped_row_is_owned hreach (List.mem_singleton_self _) hskips⟩

/-- An account is added while the row is being sent. -/
theorem reload_orphans_row : ¬ ∀ (s : System) (due : List OutboxItem) (item : OutboxItem),
    machine.Reach Machine.any s → item ∈ due → Skips s.main due item →
    ∃ id, s.main.deliveries.outboxRows.lookup id = some item.id ∧
      (s.main.windowOpen id = true ∨
        (s.main.deliveries.inFlight.lookup id ≠ none ∧ id ∈ s.main.books.outstanding)) := by
  intro h
  obtain ⟨s, hreach, hp⟩ := Machine.exists_reach_of_trace machine Machine.any
    (retryRun ++ [.reload ["a", "c"]])
    (fun s => (Skips s.main [leftRow.toItem] leftRow.toItem ∧ s.main.entries.keys = []) ∧
      s.main.books.outstanding = []) started_withLeftRow (by decide)
  obtain ⟨⟨hskips, hclosed⟩, hout⟩ := of_decide_eq_true hp
  obtain ⟨id, -, hopen | ⟨-, hmem⟩⟩ := h s _ _ hreach (List.mem_singleton_self _) hskips
  · have hnone : s.main.entries.lookup id = none := by
      refine AList.lookup_eq_none.mpr fun hmem => ?_
      have hkey : id ∈ s.main.entries.keys := hmem
      rw [hclosed] at hkey
      exact absurd hkey (by simp)
    rw [MainWindow.windowOpen, hnone] at hopen
    exact absurd hopen (by simp)
  · rw [hout] at hmem
    exact absurd hmem (by simp)

end System

end Esmail
