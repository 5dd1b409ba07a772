/-
# What a step of the main window leaves

Of what the books hold, `Leaves D O F b b'` says what is still there after a step: the rows of the
tables as they will be when the queued commands have run, all but those that `D` and `O` name, and the
sends whose outcome will be handled, all but those of `F`.  Each function of the main window has a lemma.
-/
import Esmail.Outgoing.Lines

namespace Esmail

/-! ## 1. Steps that hand nothing over -/

namespace Books

variable {b b' b'' : Books} {D D' O O' : Row → Prop} {F F' : ComposeId → Prop}

/-- What is left: of the tables all but some rows, of the sends all but some, and no new command that
stores. -/
structure Leaves (D O : Row → Prop) (F : ComposeId → Prop) (b b' : Books) : Prop where
  drafts : ∀ r ∈ b.ahead.drafts, r ∈ b'.ahead.drafts ∨ D r.1
  outbox : ∀ r ∈ b.ahead.outbox, r ∈ b'.ahead.outbox ∨ O r.1
  flight : ∀ id flight, b.deliveries.inFlight.lookup id = some flight →
    b'.deliveries.inFlight.lookup id = some flight ∨ F id
  outstanding : ∀ id ∈ b.outstanding, id ∈ b'.outstanding ∨ F id
  stored : ∀ st ∈ b'.writes.flatMap System.stored, st ∈ b.writes.flatMap System.stored
  mails : b'.mails.length ≤ b.mails.length

theorem Leaves.refl (b : Books) : Leaves D O F b b :=
  ⟨fun _ hr => .inl hr, fun _ hr => .inl hr, fun _ _ hf => .inl hf, fun _ hid => .inl hid,
    fun _ hst => hst, Nat.le_refl _⟩

theorem Leaves.trans (h : Leaves D O F b b') (h' : Leaves D O F b' b'') : Leaves D O F b b'' := by
  refine ⟨fun r hr => ?_, fun r hr => ?_, fun id flight hf => ?_, fun id hid => ?_,
    fun st hst => h.stored st (h'.stored st hst), Nat.le_trans h'.mails h.mails⟩
  · exact (h.drafts r hr).elim (h'.drafts r) .inr
  · exact (h.outbox r hr).elim (h'.outbox r) .inr
  · exact (h.flight id flight hf).elim (h'.flight id flight) .inr
  · exact (h.outstanding id hid).elim (h'.outstanding id) .inr

theorem Leaves.mono (h : Leaves D O F b b') (hD : ∀ row, D row → D' row) (hO : ∀ row, O row → O' row)
    (hF : ∀ id, F id → F' id) : Leaves D' O' F' b b' :=
  ⟨fun r hr => (h.drafts r hr).imp_right (hD _), fun r hr => (h.outbox r hr).imp_right (hO _),
    fun id flight hf => (h.flight id flight hf).imp_right (hF _),
    fun id hid => (h.outstanding id hid).imp_right (hF _), h.stored, h.mails⟩

/-- Nothing goes. -/
theorem Leaves.same (hdrafts : b'.ahead.drafts = b.ahead.drafts) (houtbox : b'.ahead.outbox = b.ahead.outbox)
    (hd : b'.deliveries.inFlight = b.deliveries.inFlight) (hout : b'.outstanding = b.outstanding)
    (hwrites : b'.writes = b.writes) (hmails : b'.mails = b.mails) : Leaves D O F b b' :=
  ⟨fun _ hr => .inl (hdrafts ▸ hr), fun _ hr => .inl (houtbox ▸ hr), fun _ _ hf => .inl (hd ▸ hf),
    fun _ hid => .inl (hout ▸ hid), fun _ hst => hwrites ▸ hst, Nat.le_of_eq (by rw [hmails])⟩

theorem push_outstanding (b : Books) (free : Nat) (c : DbCommand) :
    (b.push free c).outstanding = b.outstanding := by
  unfold Books.push
  split <;> rfl

theorem push_mails (b : Books) (free : Nat) (c : DbCommand) : (b.push free c).mails = b.mails := by
  unfold Books.push
  split <;> rfl

theorem push_stored (b : Books) (free : Nat) {c : DbCommand} (hc : System.stored c = []) :
    ∀ st ∈ (b.push free c).writes.flatMap System.stored, st ∈ b.writes.flatMap System.stored := by
  unfold Books.push
  split
  · intro st hst
    rw [List.flatMap_append, List.flatMap_singleton, hc, List.append_nil] at hst
    exact hst
  · exact fun _ hst => hst

theorem leaves_pushDeleteDraft (b : Books) (free : Nat) (row : Row) :
    Leaves (fun r => r = row ∧ 0 < free) O F b (b.push free (.deleteDraft row)) := by
  have hahead := b.ahead_push free (.deleteDraft row)
  refine ⟨fun r hr => ?_, fun r hr => .inl ?_, fun _ _ hf => .inl (by simpa using hf), fun _ hid => .inl ?_,
    push_stored b free rfl, Nat.le_of_eq (by rw [push_mails])⟩
  · rw [hahead]
    by_cases hfree : 0 < free
    · rw [if_pos hfree]
      by_cases hrow : r.1 = row
      · exact .inr ⟨hrow, hfree⟩
      · exact .inl (List.mem_filter.mpr ⟨hr, by simpa using hrow⟩)
    · rw [if_neg hfree]
      exact .inl hr
  · rw [hahead]
    split <;> exact hr
  · rw [push_outstanding]
    exact hid

theorem leaves_pushDelete (b : Books) {delete : Row → DbCommand} (hdelete : Deletes delete) (free : Nat)
    (row : Row) : Leaves D (fun r => r = row ∧ 0 < free) F b (b.push free (delete row)) := by
  have hahead := b.ahead_push free (delete row)
  have hrun : ∀ a : Ahead, (a.run (delete row)).drafts = a.drafts ∧
      (a.run (delete row)).outbox = a.outbox.filter fun r => r.1 ≠ row := by
    rcases hdelete with rfl | rfl <;> exact fun a => ⟨rfl, rfl⟩
  refine ⟨fun r hr => .inl ?_, fun r hr => ?_, fun _ _ hf => .inl (by simpa using hf), fun _ hid => .inl ?_,
    push_stored b free ?_, Nat.le_of_eq (by rw [push_mails])⟩
  · rw [hahead]
    split
    · rw [(hrun _).1]
      exact hr
    · exact hr
  · rw [hahead]
    by_cases hfree : 0 < free
    · rw [if_pos hfree, (hrun _).2]
      by_cases hrow : r.1 = row
      · exact .inr ⟨hrow, hfree⟩
      · exact .inl (List.mem_filter.mpr ⟨hr, by simpa using hrow⟩)
    · rw [if_neg hfree]
      exact .inl hr
  · rw [push_outstanding]
    exact hid
  · rcases hdelete with rfl | rfl <;> rfl

theorem leaves_setEntry (b : Books) (id : ComposeId) (entry : Entry) :
    Leaves D O F b (b.setEntry id entry) := .same rfl rfl rfl rfl rfl rfl

theorem leaves_forgetIfDone (b : Books) (id : ComposeId) : Leaves D O F b (b.forgetIfDone id) := by
  unfold Books.forgetIfDone
  split
  · split
    · exact .same rfl rfl rfl rfl rfl rfl
    · exact .refl b
  · exact .refl b

theorem leaves_windowClosed (b : Books) (id : ComposeId) : Leaves D O F b (b.windowClosed id) := by
  unfold Books.windowClosed
  refine Leaves.trans ?_ (leaves_forgetIfDone _ id)
  split
  · exact leaves_setEntry ..
  · exact .refl b

theorem leaves_startCompose (b : Books) (state : ComposeState) (opens : Bool) :
    Leaves D O F b (b.startCompose state opens) := by
  cases opens <;> exact .same rfl rfl rfl rfl rfl rfl

theorem leaves_editQueued (b : Books) (free : Nat) (item : OutboxItem) (opens : Bool) :
    Leaves D (fun r => r = item.id ∧ 0 < free) F b (b.editQueued free item opens) := by
  have hlist : Leaves D (fun r => r = item.id ∧ 0 < free) F b
      { b with listed := b.listed.eraseP fun i => i.id = item.id } := .same rfl rfl rfl rfl rfl rfl
  exact (hlist.trans (leaves_pushDelete _ (.inr rfl) free item.id)).trans (leaves_startCompose ..)

theorem leaves_settle (b : Books) (free : Nat) (id : ComposeId) :
    Leaves (fun row => b.draftOf id = some row ∧ 0 < free) O F b (b.settle free id) := by
  unfold Books.settle
  split
  · exact .refl b
  · next entry hentry =>
    split
    · next draft hdraft =>
      refine Leaves.trans (leaves_setEntry b id _) ((leaves_pushDeleteDraft _ free draft).mono ?_
        (fun _ h => h) fun _ h => h)
      rintro row ⟨rfl, hfree⟩
      exact ⟨(draftOf_eq hentry).trans hdraft, hfree⟩
    · exact leaves_setEntry ..

/-- The rows that go when the message of `id` is done: those that are known, if the queue has room. -/
def endsRow (b : Books) (free : Nat) (id : ComposeId) (row : Row) : Bool :=
  b.deliveries.outboxRows.lookup id = some row && 0 < free

def endsDraft (b : Books) (free : Nat) (id : ComposeId) (row : Row) : Bool :=
  b.draftOf id = some row && (b.deliveries.outboxRows.lookup id).toList.length < free

/-- What is left when a message is done. -/
theorem leaves_endSend (b : Books) {delete : Row → DbCommand} (hdelete : Deletes delete) (free : Nat)
    (id : ComposeId) : Leaves (fun row => b.endsDraft free id row = true)
      (fun row => b.endsRow free id row = true) (fun id' => id' = id) b (b.endSend delete free id) := by
  have hforget : ∀ {D O : Row → Prop},
      Leaves D O (fun id' => id' = id) b (b.withDeliveries (b.deliveries.forget id).2) := by
    refine ⟨fun _ hr => .inl hr, fun _ hr => .inl hr, fun id' flight hf => ?_, fun _ hid => .inl hid,
      fun _ hst => hst, Nat.le_refl _⟩
    by_cases hid : id' = id
    · exact .inr hid
    · exact .inl ((AList.lookup_erase_ne hid).trans hf)
  unfold Books.endSend
  cases hrow : b.deliveries.outboxRows.lookup id with
  | none =>
    refine hforget.trans ((leaves_settle _ free id).mono ?_ (fun _ h => h) fun _ h => h)
    rintro row ⟨hdraft, hfree⟩
    rw [endsDraft, hrow, Bool.and_eq_true]
    exact ⟨decide_eq_true hdraft, decide_eq_true hfree⟩
  | some row =>
    refine (hforget.trans ((leaves_pushDelete _ hdelete free row).mono (fun _ h => h) ?_ fun _ h => h)).trans
      ((leaves_settle _ (free - 1) id).mono ?_ (fun _ h => h) fun _ h => h)
    · rintro row' ⟨rfl, hfree⟩
      rw [endsRow, hrow, Bool.and_eq_true]
      exact ⟨decide_eq_true rfl, decide_eq_true hfree⟩
    · rintro row' ⟨hdraft, hfree⟩
      rw [draftOf, push_entries] at hdraft
      rw [endsDraft, hrow, Bool.and_eq_true]
      exact ⟨decide_eq_true hdraft, decide_eq_true (Nat.lt_of_sub_pos hfree)⟩

/-- A row ahead that was given before is in the table now: the outbox is only ever inserted into. -/
theorem outbox_foldl_run (cs : List DbCommand) (a : Ahead)
    (h : ∀ row id account c, .enqueueOutbox row id account c ∈ cs → row = none) :
    a.nextOutbox ≤ (cs.foldl Ahead.run a).nextOutbox ∧
      ∀ r ∈ (cs.foldl Ahead.run a).outbox, r ∈ a.outbox ∨ a.nextOutbox ≤ r.1 := by
  induction cs generalizing a with
  | nil => exact ⟨Nat.le_refl _, fun _ hr => .inl hr⟩
  | cons c cs ih =>
    obtain ⟨hle, hrows⟩ := ih (a.run c) fun row id account x hx =>
      h row id account x (List.mem_cons_of_mem c hx)
    have hone : a.nextOutbox ≤ (a.run c).nextOutbox ∧
        ∀ r ∈ (a.run c).outbox, r ∈ a.outbox ∨ a.nextOutbox ≤ r.1 := by
      cases c with
      | saveDraft row _ _ _ => cases row <;> exact ⟨Nat.le_refl _, fun _ hr => .inl hr⟩
      | enqueueOutbox row id account x =>
        obtain rfl := h row id account x List.mem_cons_self
        refine ⟨Nat.le_succ _, fun r hr => ?_⟩
        rcases List.mem_append.mp hr with hr | hr
        · exact .inl hr
        · rw [List.mem_singleton.mp hr]
          exact .inr (Nat.le_refl _)
      | markOutboxSent row | deleteOutbox row =>
        exact ⟨Nat.le_refl _, fun _ hr => .inl (List.mem_of_mem_filter hr)⟩
      | _ => exact ⟨Nat.le_refl _, fun _ hr => .inl hr⟩
    refine ⟨Nat.le_trans hone.1 hle, fun r hr => ?_⟩
    rcases hrows r hr with hr | hlt
    · exact hone.2 r hr
    · exact .inr (Nat.le_trans hone.1 hlt)

theorem Numbered.mem_outbox (h : Numbered b) {r : Row × ComposeState} (hr : r ∈ b.ahead.outbox)
    (hlt : r.1 < b.nextOutbox) : r ∈ b.outbox := by
  have hrows := (outbox_foldl_run b.writes b.now fun row id account c hc => (h.write _ hc).1).2
  exact (hrows r hr).resolve_right (Nat.not_le_of_lt hlt)

theorem Stamped.ahead {P : Stamp → Prop} (h : Stamped P b) :
    (∀ r ∈ b.ahead.drafts, P r.2.stamp) ∧ ∀ r ∈ b.ahead.outbox, P r.2.stamp := by
  have hall := Stamped.runAll b.writes h h.write
  rw [Books.ahead, ← now_foldl_run]
  exact ⟨hall.drafts, hall.outbox⟩

theorem leaves_pop {e : CacheEvent} {rest : List CacheEvent} (hevents : b.events = e :: rest) :
    Leaves D O F b { b with events := rest } := by
  obtain ⟨saved, hahead, -⟩ := ahead_pop hevents
  exact .same (by rw [hahead]) (by rw [hahead]) rfl rfl rfl rfl

theorem leaves_draftSaved {row : Row} {id : ComposeId} {rest : List CacheEvent} (free : Nat)
    (hevents : b.events = .draftSaved row id :: rest) :
    Leaves (fun r => r = row ∧ 0 < free ∧ ∃ entry, b.entries.lookup id = some entry ∧ entry.settled = true)
      O F b ({ b with events := rest }.draftSaved free row id) := by
  have hpop := leaves_pop (D := fun r => r = row ∧ 0 < free ∧
    ∃ entry, b.entries.lookup id = some entry ∧ entry.settled = true) (O := O) (F := F) hevents
  unfold Books.draftSaved
  split
  · exact hpop
  · next entry hentry =>
    refine (hpop.trans ?_).trans (leaves_forgetIfDone _ id)
    dsimp only
    split
    · next hsettled =>
      refine (leaves_setEntry _ id _).trans ((leaves_pushDeleteDraft _ free row).mono ?_ (fun _ h => h)
        fun _ h => h)
      rintro r ⟨hrow, hfree⟩
      exact ⟨hrow, hfree, entry, hentry, hsettled⟩
    · exact leaves_setEntry ..

theorem leaves_answers {es : List CacheEvent} (hes : b.Answer es) :
    Leaves D O F b { b with events := b.events ++ es } := by
  have hnone : es.filterMap CacheEvent.saved = [] := by cases hes <;> rfl
  have hahead : ({ b with events := b.events ++ es } : Books).ahead = b.ahead := by
    rw [ahead, ahead, now, now, List.filterMap_append, hnone, List.append_nil]
  exact .same (by rw [hahead]) (by rw [hahead]) rfl rfl rfl rfl

theorem leaves_run {c : DbCommand} {ws : List DbCommand} (hwrites : b.writes = c :: ws) :
    Leaves D O F b ({ b with writes := ws }.run c) := by
  obtain ⟨-, hd, -⟩ := run_frame { b with writes := ws } c
  have hahead := ahead_run hwrites
  have hout : ({ b with writes := ws }.run c).outstanding = b.outstanding := by
    cases c with
    | saveDraft id _ _ _ => cases id <;> rfl
    | enqueueOutbox id _ _ _ => cases id <;> rfl
    | _ => rfl
  have hmails : ({ b with writes := ws }.run c).mails = b.mails := by
    cases c with
    | saveDraft id _ _ _ => cases id <;> rfl
    | enqueueOutbox id _ _ _ => cases id <;> rfl
    | _ => rfl
  refine ⟨fun r hr => .inl (hahead ▸ hr), fun r hr => .inl (hahead ▸ hr),
    fun _ _ hf => .inl (by rw [hd]; exact hf), fun _ hid => .inl (hout ▸ hid), ?_, Nat.le_of_eq (by rw [hmails])⟩
  rw [run_writes, hwrites, List.flatMap_cons]
  exact fun st hst => List.mem_append_right _ hst

theorem leaves_reload (b : Books) (accounts : List AccountId) :
    Leaves D O (fun _ => True) b (b.reload accounts) := by
  have hahead := b.ahead_reload accounts
  exact ⟨fun r hr => .inl (by rw [hahead]; exact hr), fun r hr => .inl (by rw [hahead]; exact hr),
    fun _ _ _ => .inr trivial, fun _ _ => .inr trivial, fun _ hst => absurd hst List.not_mem_nil,
    Nat.zero_le _⟩

/-- The outcome of a send is taken. -/
theorem leaves_popOutcome {o : SmtpEvent} {rest : List SmtpEvent} (houtcomes : b.outcomes = o :: rest) :
    Leaves D O (fun id => id = o.id) b { b with outcomes := rest } := by
  refine ⟨fun _ hr => .inl hr, fun _ hr => .inl hr, fun _ _ hf => .inl hf, fun id hid => ?_,
    fun _ hst => hst, Nat.le_refl _⟩
  rw [outstanding, houtcomes, List.map_cons, List.cons_append] at hid
  exact (List.mem_cons.mp hid).symm

/-- The ledger forgets a send. -/
theorem leaves_failedSend (b : Books) (id : ComposeId) :
    Leaves D O (fun id' => id' = id) b (b.failedSend id) := by
  refine ⟨fun _ hr => .inl hr, fun _ hr => .inl hr, fun id' flight hf => ?_, fun _ hid => .inl hid,
    fun _ hst => hst, Nat.le_refl _⟩
  by_cases hid : id' = id
  · exact .inr hid
  · exact .inl ((AList.lookup_erase_ne hid).trans hf)

end Books

/-! ## 2. The outbox timer -/

/-- The sends that `retries` begins have new ids, each its own, and are in the ledger; the sends there
were before stay. -/
theorem Deliveries.retryAll_sends (accountIndex : AccountId → Option Nat) (items : List OutboxItem)
    (d : Deliveries) :
    (∀ id, id ≤ d.lastId →
        (retryAll accountIndex d items).2.inFlight.lookup id = d.inFlight.lookup id) ∧
      ((retryAll accountIndex d items).1.1.map Retry.id).Nodup ∧
      ∀ retry ∈ (retryAll accountIndex d items).1.1, d.lastId < retry.id ∧
        ∃ account, (retryAll accountIndex d items).2.inFlight.lookup retry.id =
          some ⟨account, retry.state⟩ := by
  induction items generalizing d with
  | nil => exact ⟨fun _ _ => rfl, List.nodup_nil, fun _ hr => absurd hr List.not_mem_nil⟩
  | cons item items ih =>
    unfold retryAll
    split
    · exact ih d
    · next account _ =>
      obtain ⟨hstays, hids, hsends⟩ := ih (d.retry item account).2
      refine ⟨fun id hid => ?_, ?_, fun r hr => ?_⟩
      · have hne : id ≠ d.lastId + 1 := fun heq => absurd (heq ▸ hid) (Nat.not_succ_le_self _)
        exact (hstays id (Nat.le_succ_of_le hid)).trans (AList.lookup_insert_ne hne)
      · rw [List.map_cons, List.nodup_cons]
        refine ⟨fun hmem => ?_, hids⟩
        obtain ⟨r, hr, hid⟩ := List.mem_map.mp hmem
        exact absurd (hsends r hr).1 (hid ▸ Nat.lt_irrefl _)
      · rcases List.mem_cons.mp hr with rfl | hr
        · exact ⟨Nat.lt_succ_self _, account, (hstays _ (Nat.le_refl _)).trans (AList.lookup_insert _)⟩
        · obtain ⟨hlt, hsend⟩ := hsends r hr
          exact ⟨Nat.lt_of_succ_lt hlt, hsend⟩

namespace Books

/-- Between two attempts: the sends that are not yet with the mailer are in the ledger and own their
rows, and those that are with it are in the ledger too. -/
structure Retried (b₀ : Books) (retries : List Retry) (b : Books) : Prop where
  ahead : b.ahead = b₀.ahead
  writes : b.writes = b₀.writes
  outcomes : b.outcomes = b₀.outcomes
  flight : ∀ id flight, b₀.deliveries.inFlight.lookup id = some flight →
    b.deliveries.inFlight.lookup id = some flight
  ids : (retries.map Retry.id).Nodup
  ready : ∀ retry ∈ retries, b₀.deliveries.lastId < retry.id ∧
    (∃ account, b.deliveries.inFlight.lookup retry.id = some ⟨account, retry.state⟩) ∧
      b.deliveries.outboxRows.lookup retry.id ≠ none
  mails : ∃ new, b.mails = b₀.mails ++ new ∧ ∀ c ∈ new, c.id ∉ retries.map Retry.id ∧
    ∃ account, b.deliveries.inFlight.lookup c.id = some ⟨account, c.compose⟩

variable {b₀ b : Books} {retry : Retry} {rest : List Retry}

theorem Retried.hand (h : Retried b₀ (retry :: rest) b) (config : AccountId) :
    Retried b₀ rest (b.hand retry.id config retry.state) := by
  have hids := h.ids
  rw [List.map_cons, List.nodup_cons] at hids
  refine { h with
    ids := hids.2
    ready := fun r hr => h.ready r (List.mem_cons_of_mem _ hr)
    mails := ?_ }
  obtain ⟨new, hmails, hnew⟩ := h.mails
  refine ⟨new ++ [⟨retry.id, config, retry.state⟩], ?_, fun c hc => ?_⟩
  · rw [Books.hand, hmails, List.append_assoc]
  · rcases List.mem_append.mp hc with hc | hc
    · obtain ⟨hother, hsend⟩ := hnew c hc
      exact ⟨fun hmem => hother (List.mem_cons_of_mem _ hmem), hsend⟩
    · rw [List.mem_singleton.mp hc]
      exact ⟨hids.1, (h.ready retry List.mem_cons_self).2.1⟩

/-- The row is backed off, and the send is forgotten. -/
theorem Retried.failed (h : Retried b₀ (retry :: rest) b) (hnumbered : Numbered b₀) (free : Nat) :
    Retried b₀ rest (b.outcomeFailed free retry.id) := by
  have hids := h.ids
  rw [List.map_cons, List.nodup_cons] at hids
  obtain ⟨hlt, ⟨account, hf⟩, howned⟩ := h.ready retry List.mem_cons_self
  obtain ⟨row, hrow⟩ := Option.ne_none_iff_exists'.mp howned
  rw [outcomeFailed_owned hf hrow]
  refine ⟨h.ahead, h.writes, h.outcomes, fun id flight hold => ?_, hids.2, fun r hr => ?_, ?_⟩
  · have hle := hnumbered.flight_le id fun hnone => absurd (hold.symm.trans hnone) (by simp)
    have hne : id ≠ retry.id := fun heq => absurd (heq ▸ hle) (Nat.not_le_of_lt hlt)
    exact (AList.lookup_erase_ne hne).trans (h.flight id flight hold)
  · obtain ⟨hlt', ⟨account', hf'⟩, howned'⟩ := h.ready r (List.mem_cons_of_mem _ hr)
    have hne : r.id ≠ retry.id := fun heq => hids.1 (heq ▸ List.mem_map_of_mem hr)
    exact ⟨hlt', ⟨account', (AList.lookup_erase_ne hne).trans hf'⟩, howned'⟩
  · obtain ⟨new, hmails, hnew⟩ := h.mails
    refine ⟨new, hmails, fun c hc => ?_⟩
    obtain ⟨hother, account', hsend⟩ := hnew c hc
    rw [List.map_cons, List.mem_cons, not_or] at hother
    exact ⟨hother.2, account', (AList.lookup_erase_ne hother.1).trans hsend⟩

theorem retried (m : MainWindow) (hnumbered : Numbered m.books) (refusal : ComposeId → Option String)
    (items : List OutboxItem) : Retried m.books [] (m.outboxDue refusal items).books := by
  refine m.outboxDue_induction (P := Retried m.books) ?_ ?_ refusal items ?_
  · exact fun _ _ _ free hb => hb.failed hnumbered free
  · exact fun _ _ _ config hb => hb.hand config
  · obtain ⟨hstays, hids, hsends⟩ := Deliveries.retryAll_sends m.accountIndex
      (items.filter fun item => item.id ∉ m.books.deliveries.ownedRows m.books.windowOpen) m.books.deliveries
    refine ⟨rfl, rfl, rfl, fun id flight hold => ?_, hids, fun r hr => ?_, [], (List.append_nil _).symm,
      fun _ hc => absurd hc List.not_mem_nil⟩
    · have hle := hnumbered.flight_le id fun hnone => absurd (hold.symm.trans hnone) (by simp)
      exact (hstays id hle).trans hold
    · exact ⟨(hsends r hr).1, (hsends r hr).2, ((Deliveries.retryAll_spec _ _ _).2 r hr).1⟩

end Books

end Esmail
