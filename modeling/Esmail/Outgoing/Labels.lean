/-
# Which message an id, and a row, is about

In EVERY run an id stands for one message and a row of the outbox for one message: whatever carries
the id (its entry, a send, an enqueueing) carries that message, and the row that an id owns is a row
of the id's message.  Numbers are given once, so what a new number stands for can be chosen when it
is given: `Labelled` is about two functions that are extended along a run.
-/
import Esmail.Outgoing.Holders

namespace Esmail

open Transition

namespace Books

variable {b b' : Books} {idMsg idMsg' : ComposeId → Nat} {rowMsg rowMsg' : Row → Nat}

structure Labelled (b : Books) (idMsg : ComposeId → Nat) (rowMsg : Row → Nat) : Prop where
  entry : ∀ id entry, b.entries.lookup id = some entry → entry.msg = idMsg id
  flight : ∀ id m, b.Flying id m → m = idMsg id
  enqueue : ∀ row id config c, .enqueueOutbox row id config c ∈ b.writes → c.stamp.msg = idMsg id
  outbox : ∀ row c, (row, c) ∈ b.outbox → c.stamp.msg = rowMsg row
  listed : ∀ item, b.Listed item → item.compose.stamp.msg = rowMsg item.id
  owner : ∀ id row, b.Knows id row → rowMsg row = idMsg id

/-! ## 1. New numbers -/

theorem label_self (label : Nat → Nat) (n m : Nat) : Function.update label n m n = m :=
  Function.update_self n m label

/-- No id is used before it is given. -/
theorem Labelled.newId (h : Labelled b idMsg rowMsg) (hnumbered : Numbered b)
    (hgiven : ∀ id, b.entries.lookup id ≠ none → id ≤ b.deliveries.lastId) (m : Nat) :
    Labelled b (Function.update idMsg (b.deliveries.lastId + 1) m) rowMsg := by
  have hold : ∀ {id}, id ≤ b.deliveries.lastId →
      Function.update idMsg (b.deliveries.lastId + 1) m id = idMsg id := by
    intro id hle
    refine Function.update_of_ne ?_ ..
    rintro rfl
    exact Nat.not_succ_le_self _ hle
  refine { h with
    entry := ?_
    flight := ?_
    enqueue := ?_
    owner := ?_ }
  · intro id entry hlook
    rw [hold (hgiven id (by rw [hlook]; simp))]
    exact h.entry id entry hlook
  · intro id m' hf
    rw [hold (hnumbered.flight_le id hf.ne_none)]
    exact h.flight id m' hf
  · intro row id config c hc
    rw [hold (hnumbered.write _ hc).2]
    exact h.enqueue row id config c hc
  · rintro id row hk
    have hle : id ≤ b.deliveries.lastId := by
      rcases hk with hlook | he
      · exact hnumbered.row_le id (by rw [hlook]; simp)
      · exact hnumbered.enqueued_le row id he
    rw [hold hle]
    exact h.owner id row hk

/-- No row is used before it is given. -/
theorem Labelled.newRow (h : Labelled b idMsg rowMsg) (hnumbered : Numbered b) (m : Nat) :
    Labelled b idMsg (Function.update rowMsg b.nextOutbox m) := by
  have hold : ∀ {row}, row < b.nextOutbox →
      Function.update rowMsg b.nextOutbox m row = rowMsg row := by
    intro row hlt
    refine Function.update_of_ne ?_ ..
    rintro rfl
    exact Nat.lt_irrefl _ hlt
  refine { h with
    outbox := ?_
    listed := ?_
    owner := ?_ }
  · intro row c hc
    rw [hold (hnumbered.outbox_lt _ hc)]
    exact h.outbox row c hc
  · intro item hitem
    rw [hold (hnumbered.item_lt hitem)]
    exact h.listed item hitem
  · intro id row hk
    have hlt : row < b.nextOutbox := by
      rcases hk with hlook | he
      · exact hnumbered.row_lt id row hlook
      · exact hnumbered.event_lt _ he row (List.mem_singleton_self _)
    rw [hold hlt]
    exact h.owner id row hk

/-! ## 2. The functions of the main window -/

/-- What says no more than before. -/
theorem Labelled.mono (h : Labelled b idMsg rowMsg)
    (hentry : ∀ id entry', b'.entries.lookup id = some entry' →
      ∃ entry, b.entries.lookup id = some entry ∧ entry'.msg = entry.msg)
    (hflight : ∀ id m, b'.Flying id m → b.Flying id m)
    (hwrites : ∀ row id config c, .enqueueOutbox row id config c ∈ b'.writes →
      .enqueueOutbox row id config c ∈ b.writes)
    (houtbox : ∀ r ∈ b'.outbox, r ∈ b.outbox) (hlisted : ∀ item, b'.Listed item → b.Listed item)
    (hknows : ∀ id row, b'.Knows id row → b.Knows id row) : Labelled b' idMsg rowMsg where
  entry id entry' hlook := by
    obtain ⟨entry, hold, hmsg⟩ := hentry id entry' hlook
    exact hmsg.trans (h.entry id entry hold)
  flight id m hf := h.flight id m (hflight id m hf)
  enqueue row id config c hc := h.enqueue row id config c (hwrites row id config c hc)
  outbox row c hc := h.outbox row c (houtbox _ hc)
  listed item hi := h.listed item (hlisted item hi)
  owner id row hk := h.owner id row (hknows id row hk)

theorem Labelled.aside (h : Labelled b idMsg rowMsg) (ha : Aside b b') :
    Labelled b' idMsg rowMsg := by
  obtain ⟨cs, hcs, hquiet⟩ := ha.writes
  refine h.mono ?_ ?_ ?_ ?_ ?_ ?_
  · intro id entry' hlook
    obtain ⟨entry, hold, hfades⟩ := ha.entry id entry' hlook
    exact ⟨entry, hold, hfades.msg⟩
  · exact fun id m hf => by rwa [Flying, ha.deliveries] at hf
  · intro row id config c hc
    rw [hcs] at hc
    refine (List.mem_append.mp hc).resolve_right fun hmem => ?_
    exact absurd (hquiet _ hmem) (by simp [DbCommand.enqueues])
  · exact fun r hr => ha.outbox ▸ hr
  · exact fun item hi => by rwa [Listed, ha.listed, ha.events] at hi
  · exact fun id row hk => by rwa [Knows, ha.deliveries, ha.events] at hk

/-- The ledger forgets sends and rows. -/
theorem Labelled.fewer (h : Labelled b idMsg rowMsg) {d : Deliveries}
    (hflight : ∀ id flight, d.inFlight.lookup id = some flight →
      b.deliveries.inFlight.lookup id = some flight)
    (hrow : ∀ id row, d.outboxRows.lookup id = some row →
      b.deliveries.outboxRows.lookup id = some row) :
    Labelled (b.withDeliveries d) idMsg rowMsg := by
  refine h.mono (fun _ entry hlook => ⟨entry, hlook, rfl⟩) ?_ (fun _ _ _ _ hc => hc) (fun _ hr => hr)
    (fun _ hi => hi) ?_
  · rintro id m ⟨flight, hf, hmsg⟩
    exact ⟨flight, hflight id flight hf, hmsg⟩
  · exact fun id row hk => hk.imp_left (hrow id row)

theorem Labelled.endSend (h : Labelled b idMsg rowMsg) {delete : Row → DbCommand}
    (hdelete : Deletes delete) (free : Nat) (id : ComposeId) :
    Labelled (b.endSend delete free id) idMsg rowMsg := by
  refine Labelled.aside ?_ (aside_endSend b hdelete free id)
  exact h.fewer (fun _ _ hf => (Deliveries.lookup_of_erase hf).2)
    fun _ _ hr => (Deliveries.lookup_of_erase hr).2

theorem Labelled.outcomeSent (h : Labelled b idMsg rowMsg) (free : Nat) (id : ComposeId) :
    Labelled (b.outcomeSent free id) idMsg rowMsg := by
  cases hf : b.deliveries.inFlight.lookup id with
  | none =>
    unfold Books.outcomeSent
    rw [Deliveries.delivered_none hf]
    exact h
  | some flight =>
    rw [outcomeSent_eq hf]
    exact h.endSend (.inl rfl) free id

theorem Labelled.outcomeFailed (h : Labelled b idMsg rowMsg) (free : Nat) (id : ComposeId) :
    Labelled (b.outcomeFailed free id) idMsg rowMsg := by
  have hfewer : Labelled (b.failedSend id) idMsg rowMsg :=
    h.fewer (fun _ _ hf => (Deliveries.lookup_of_erase hf).2) fun _ _ hr => hr
  have hcases := b.outcomeFailed_cases free id
  generalize b.outcomeFailed free id = b' at hcases ⊢
  cases hcases with
  | unknown => exact h
  | backoff => exact hfewer
  | homeless => exact hfewer
  | @enqueued flight config hf =>
    have hmsg := h.flight id _ ⟨flight, hf, rfl⟩
    unfold push
    split
    · refine { hfewer with enqueue := ?_ }
      intro row id' config' c hc
      rcases List.mem_append.mp hc with hc | hc
      · exact h.enqueue row id' config' c hc
      · cases List.mem_singleton.mp hc
        exact hmsg
    · exact hfewer

/-- An id that was just given opens a window. -/
theorem Labelled.startCompose (h : Labelled b idMsg rowMsg) {state : ComposeState}
    (hmsg : state.stamp.msg = idMsg (b.deliveries.lastId + 1)) (opens : Bool) :
    Labelled (b.startCompose state opens) idMsg rowMsg := by
  unfold Books.startCompose
  cases opens with
  | false => exact { h with }
  | true =>
    refine { h with entry := ?_ }
    intro id entry hlook
    rcases Deliveries.lookup_of_insert hlook with ⟨rfl, rfl⟩ | ⟨-, hold⟩
    · exact hmsg
    · exact h.entry id entry hold

theorem Labelled.begin (h : Labelled b idMsg rowMsg) {id : ComposeId} {state : ComposeState}
    (hmsg : state.stamp.msg = idMsg id) (account : Nat) :
    Labelled (b.withDeliveries (b.deliveries.begin id account state)) idMsg rowMsg := by
  refine { h with flight := ?_ }
  rintro id' m ⟨flight, hf, rfl⟩
  rcases Deliveries.lookup_of_insert hf with ⟨rfl, rfl⟩ | ⟨-, hold⟩
  · exact hmsg
  · exact h.flight id' _ ⟨flight, hold, rfl⟩

theorem Labelled.outboxEnqueued (h : Labelled b idMsg rowMsg) {row : Row} {id : ComposeId}
    {rest : List CacheEvent} (hevents : b.events = .outboxEnqueued row id :: rest) :
    Labelled ({ b with events := rest }.outboxEnqueued row id) idMsg rowMsg := by
  have hmem : CacheEvent.outboxEnqueued row id ∈ b.events := hevents ▸ List.mem_cons_self
  have hsub : ∀ {e}, e ∈ rest → e ∈ b.events := fun he => hevents ▸ List.mem_cons_of_mem _ he
  refine { h with
    listed := fun item hi => h.listed item (hi.imp_right fun ⟨e, he, hi⟩ => ⟨e, hsub he, hi⟩)
    owner := ?_ }
  rintro id' row' (hlook | he)
  · rcases Deliveries.lookup_of_insert hlook with ⟨rfl, rfl⟩ | ⟨-, hold⟩
    · exact h.owner _ _ (.inr hmem)
    · exact h.owner id' row' (.inl hold)
  · exact h.owner id' row' (.inr (hsub he))

/-- The list is the old one, or that of an answer. -/
theorem Labelled.popEvent (h : Labelled b idMsg rowMsg) {e : CacheEvent} {rest : List CacheEvent}
    (hevents : b.events = e :: rest) {items : List OutboxItem}
    (hitems : ∀ item ∈ items, item ∈ b.listed ∨ item ∈ e.items) :
    Labelled { b with events := rest, listed := items } idMsg rowMsg := by
  have hsub : ∀ {e'}, e' ∈ rest → e' ∈ b.events := fun he => hevents ▸ List.mem_cons_of_mem _ he
  refine { h with
    listed := ?_
    owner := fun id row hk => h.owner id row (hk.imp_right hsub) }
  rintro item (hi | ⟨e', he, hi⟩)
  · exact h.listed item ((hitems item hi).imp_right fun hmem => ⟨e, hevents ▸ List.mem_cons_self, hmem⟩)
  · exact h.listed item (.inr ⟨e', hsub he, hi⟩)

/-- The actor answers, and what it lists is in the table. -/
theorem Labelled.answers (h : Labelled b idMsg rowMsg) {es : List CacheEvent} (hes : b.Answer es) :
    Labelled { b with events := b.events ++ es } idMsg rowMsg := by
  have hquiet := answer_enqueued hes
  have hitems : ∀ e ∈ es, ∀ item ∈ e.items, (item.id, item.compose) ∈ b.outbox := by
    intro e he item hi
    cases hes with
    | due hsub =>
      cases List.mem_singleton.mp he
      exact hsub.subset (List.mem_map_of_mem (f := fun i => (i.id, i.compose)) hi)
    | outbox heq =>
      cases List.mem_singleton.mp he
      exact heq ▸ List.mem_map_of_mem (f := fun i => (i.id, i.compose)) hi
    | nothing => exact absurd he (by simp)
    | _ =>
      cases List.mem_singleton.mp he
      exact absurd hi (by simp [CacheEvent.items])
  refine { h with
    listed := ?_
    owner := ?_ }
  · rintro item (hi | ⟨e, he, hi⟩)
    · exact h.listed item (.inl hi)
    · rcases List.mem_append.mp he with he | he
      · exact h.listed item (.inr ⟨e, he, hi⟩)
      · exact h.outbox _ _ (hitems e he item hi)
  · rintro id row (hlook | he)
    · exact h.owner id row (.inl hlook)
    · refine h.owner id row (.inr ((List.mem_append.mp he).resolve_right fun hmem => ?_))
      exact absurd (hquiet _ hmem) (by simp [CacheEvent.enqueued])

/-- Every id and every row stands for one message. -/
def HasLabels (b : Books) : Prop := ∃ idMsg rowMsg, Labelled b idMsg rowMsg

theorem Labelled.retry (h : Labelled b idMsg rowMsg) (hnumbered : Numbered b)
    (hgiven : ∀ id, b.entries.lookup id ≠ none → id ≤ b.deliveries.lastId) {item : OutboxItem}
    (hitem : item.compose.stamp.msg = rowMsg item.id) (account : Nat) :
    Labelled (b.withDeliveries (b.deliveries.retry item account).2)
      (Function.update idMsg (b.deliveries.lastId + 1) item.compose.stamp.msg) rowMsg := by
  have hnew := h.newId hnumbered hgiven item.compose.stamp.msg
  refine { hnew with
    flight := ?_
    owner := ?_ }
  · rintro id m ⟨flight, hf, rfl⟩
    rcases Deliveries.lookup_of_insert hf with ⟨rfl, rfl⟩ | ⟨-, hold⟩
    · exact (label_self idMsg _ _).symm
    · exact hnew.flight id _ ⟨flight, hold, rfl⟩
  · rintro id row (hlook | he)
    · rcases Deliveries.lookup_of_insert hlook with ⟨rfl, rfl⟩ | ⟨-, hold⟩
      · exact hitem.symm.trans (label_self idMsg _ _).symm
      · exact hnew.owner id row (.inl hold)
    · exact hnew.owner id row (.inr he)

theorem Labelled.retryAll (accountIndex : AccountId → Option Nat) : ∀ (items : List OutboxItem)
    {b : Books} {idMsg : ComposeId → Nat}, Labelled b idMsg rowMsg → Numbered b →
    (∀ id, b.entries.lookup id ≠ none → id ≤ b.deliveries.lastId) →
    (∀ item ∈ items, item.compose.stamp.msg = rowMsg item.id ∧ item.id < b.nextOutbox ∧
      ∀ id, CacheEvent.outboxEnqueued item.id id ∉ b.events) →
    HasLabels (b.withDeliveries (Deliveries.retryAll accountIndex b.deliveries items).2)
  | [], _, _, h, _, _, _ => ⟨_, _, h⟩
  | item :: items, b, idMsg, h, hnumbered, hgiven, hitems => by
    have hrest := fun i hi => hitems i (List.mem_cons_of_mem item hi)
    obtain ⟨hmsg, hlt, htold⟩ := hitems item List.mem_cons_self
    unfold Deliveries.retryAll
    split
    · exact Labelled.retryAll accountIndex items h hnumbered hgiven hrest
    · next account _ =>
      exact Labelled.retryAll accountIndex items (h.retry hnumbered hgiven hmsg account)
        (hnumbered.retry hlt htold account) (fun id hid => Nat.le_succ_of_le (hgiven id hid)) hrest

theorem Labelled.outboxDue {s : MainWindow} (h : Labelled s.books idMsg rowMsg)
    (hnumbered : Numbered s.books)
    (hgiven : ∀ id, s.books.entries.lookup id ≠ none → id ≤ s.books.deliveries.lastId)
    (refusal : ComposeId → Option String) {items : List OutboxItem}
    (hlisted : ∀ item ∈ items, item.compose.stamp.msg = rowMsg item.id)
    (hitems : ∀ item ∈ items, item.id < s.books.nextOutbox ∧
      ∀ id, CacheEvent.outboxEnqueued item.id id ∉ s.books.events) :
    HasLabels (s.outboxDue refusal items).books := by
  refine s.outboxDue_induction (P := fun _ b => HasLabels b) ?_ ?_ refusal items ?_
  · rintro retry _ b free ⟨idMsg, rowMsg, hb⟩
    exact ⟨idMsg, rowMsg, hb.outcomeFailed free retry.id⟩
  · rintro _ _ _ _ ⟨idMsg, rowMsg, hb⟩
    exact ⟨idMsg, rowMsg, { hb with }⟩
  · refine Labelled.retryAll _ _ h hnumbered hgiven fun item hi => ?_
    have hmem := List.mem_of_mem_filter hi
    exact ⟨hlisted item hmem, hitems item hmem⟩

/-- A command that writes is run; a new row is a row of the message that was enqueued. -/
theorem HasLabels.run (h : HasLabels b) (hnumbered : Numbered b) {c : DbCommand}
    {ws : List DbCommand} (hwrites : b.writes = c :: ws) :
    HasLabels ({ b with writes := ws }.run c) := by
  obtain ⟨idMsg, rowMsg, h⟩ := h
  have hsub : ∀ {d}, d ∈ ws → d ∈ b.writes := fun hd => hwrites ▸ List.mem_cons_of_mem c hd
  have hpop : Labelled { b with writes := ws } idMsg rowMsg :=
    { h with enqueue := fun row id config c hc => h.enqueue row id config c (hsub hc) }
  have hsaved : ∀ {row : Row} {id : ComposeId} {drafts : List (Row × ComposeState)} {next : Row},
      Labelled { b with
        writes := ws
        drafts := drafts
        nextDraft := next
        events := b.events ++ [.draftSaved row id] } idMsg rowMsg := by
    intro row id drafts next
    refine { hpop with
      listed := ?_
      owner := ?_ }
    · rintro item (hi | ⟨e, he, hi⟩)
      · exact h.listed item (.inl hi)
      · rcases List.mem_append.mp he with he | he
        · exact h.listed item (.inr ⟨e, he, hi⟩)
        · rw [List.mem_singleton.mp he] at hi
          exact absurd hi (by simp [CacheEvent.items])
    · rintro id' row' (hlook | he)
      · exact h.owner id' row' (.inl hlook)
      · exact h.owner id' row' (.inr ((List.mem_append.mp he).resolve_right (by simp)))
  have hdeleted : ∀ row : Row, Labelled { b with
      writes := ws
      outbox := b.outbox.filter fun r => r.1 ≠ row } idMsg rowMsg := fun row =>
    { hpop with outbox := fun r c hc => h.outbox r c (List.mem_of_mem_filter hc) }
  cases c with
  | saveDraft row id accountId compose =>
    cases row with
    | some row => exact ⟨idMsg, rowMsg, hsaved⟩
    | none => exact ⟨idMsg, rowMsg, hsaved⟩
  | enqueueOutbox row id accountId compose =>
    obtain ⟨rfl, -⟩ := hnumbered.write _ (hwrites ▸ List.mem_cons_self)
    have hmsg := h.enqueue none id accountId compose (hwrites ▸ List.mem_cons_self)
    have hpopped : Numbered { b with writes := ws } :=
      { hnumbered with write := fun d hd => hnumbered.write d (hsub hd) }
    have hnew := hpop.newRow hpopped compose.stamp.msg
    refine ⟨idMsg, Function.update rowMsg b.nextOutbox compose.stamp.msg, { hnew with
      outbox := ?_
      listed := ?_
      owner := ?_ }⟩
    · intro row c hc
      rcases List.mem_append.mp hc with hc | hc
      · exact hnew.outbox row c hc
      · cases List.mem_singleton.mp hc
        exact (label_self rowMsg _ _).symm
    · rintro item (hi | ⟨e, he, hi⟩)
      · exact hnew.listed item (.inl hi)
      · rcases List.mem_append.mp he with he | he
        · exact hnew.listed item (.inr ⟨e, he, hi⟩)
        · rw [List.mem_singleton.mp he] at hi
          exact absurd hi (by simp [CacheEvent.items])
    · rintro id' row (hlook | he)
      · exact hnew.owner id' row (.inl hlook)
      · rcases List.mem_append.mp he with he | he
        · exact hnew.owner id' row (.inr he)
        · cases List.mem_singleton.mp he
          exact (label_self rowMsg _ _).trans hmsg
  | deleteDraft row => exact ⟨idMsg, rowMsg, { hpop with }⟩
  | markOutboxSent row => exact ⟨idMsg, rowMsg, hdeleted row⟩
  | deleteOutbox row => exact ⟨idMsg, rowMsg, hdeleted row⟩
  | listDrafts | loadDraft _ | dueOutbox | listOutbox | markOutboxFailed _ _ | other =>
    exact ⟨idMsg, rowMsg, hpop⟩

theorem HasLabels.runAll : ∀ (ws : List DbCommand) {b : Books}, HasLabels { b with writes := ws } →
    Numbered { b with writes := ws } → HasLabels { ws.foldl Books.run b with writes := [] }
  | [], _, h, _ => h
  | c :: ws, b, h, hnumbered => by
    have hrun : HasLabels ({ b with writes := ws }.run c) := h.run hnumbered rfl
    have hnumbered' : Numbered ({ b with writes := ws }.run c) := hnumbered.run rfl
    rw [run_writes b c ws] at hrun hnumbered'
    exact HasLabels.runAll ws hrun hnumbered'

theorem HasLabels.reload (h : HasLabels b) (hnumbered : Numbered b) (accounts : List AccountId) :
    HasLabels (b.reload accounts) := by
  obtain ⟨idMsg, rowMsg, hall⟩ := HasLabels.runAll b.writes h hnumbered
  rw [reload_eq]
  refine ⟨idMsg, rowMsg, { hall with
    listed := fun item hi => hall.listed item (.inl (hi.resolve_right (by simp)))
    owner := fun id row hk => hall.owner id row (.inl (hk.resolve_right (by simp))) }⟩

end Books

namespace System

open Books

/-! ## 3. Every run -/

theorem HasLabels.step {s s' : System} (hwired : s.Wired) (hnumbered : Numbered s.main.books)
    (h : HasLabels s.main.books) {a : Action} (hstep : s.step a = some s') :
    HasLabels s'.main.books := by
  have hhas := h
  obtain ⟨idMsg, rowMsg, h⟩ := h
  have heffect := effect hstep
  generalize s'.main.books = b' at heffect ⊢
  generalize s'.delivered = delivered' at heffect
  generalize s'.nextMsg = nextMsg' at heffect
  have hopens : ∀ {b : Books}, Labelled b idMsg rowMsg → Numbered b →
      b.entries = s.main.books.entries → b.deliveries = s.main.books.deliveries →
      ∀ (state : ComposeState) (opens : Bool), HasLabels (b.startCompose state opens) := by
    intro b hb hnumbered' he hd state opens
    refine ⟨_, rowMsg, (hb.newId hnumbered' ?_ state.stamp.msg).startCompose ?_ opens⟩
    · rw [he, hd]
      exact hwired.given
    · rw [hd]
      exact (label_self idMsg _ _).symm
  cases heffect with
  | quiet => exact hhas
  | compose => exact hopens h hnumbered rfl rfl _ _
  | @send _ id state _ account config hrequests =>
    obtain ⟨m, ⟨entry, hentry, -, hmsg⟩, hstate⟩ :=
      hwired.request _ _ (hrequests ▸ List.mem_cons_self)
    have hlabel : state.stamp.msg = idMsg id :=
      ((hstate state rfl).trans hmsg.symm).trans (h.entry id entry hentry)
    exact ⟨idMsg, rowMsg, { h.begin hlabel account with }⟩
  | save => exact ⟨idMsg, rowMsg, h.aside (aside_saveDraft ..)⟩
  | discard => exact ⟨idMsg, rowMsg, h.endSend (.inr rfl) _ _⟩
  | closed => exact ⟨idMsg, rowMsg, h.aside (aside_windowClosed ..)⟩
  | draftSaved hevents =>
    exact ⟨idMsg, rowMsg, (h.popEvent hevents fun _ hi => .inl hi).aside (aside_draftSaved ..)⟩
  | outboxEnqueued hevents => exact ⟨idMsg, rowMsg, h.outboxEnqueued hevents⟩
  | @due _ _ items rest hevents =>
    have hpop : Labelled { s.main.books with events := rest } idMsg rowMsg :=
      h.popEvent hevents fun _ hi => .inl hi
    have hmem : CacheEvent.outboxDue items ∈ s.main.books.events := hevents ▸ List.mem_cons_self
    refine Labelled.outboxDue (s := { s.main with events := rest }) hpop (hnumbered.pop hevents)
      hwired.given _ ?_ (Numbered.items (e := .outboxDue items) hnumbered hevents rfl)
    exact fun item hi => h.listed item (.inr ⟨_, hmem, hi⟩)
  | listed hevents => exact ⟨idMsg, rowMsg, h.popEvent hevents fun _ hi => .inr hi⟩
  | loaded hevents =>
    exact hopens (h.popEvent hevents fun _ hi => .inl hi) (hnumbered.pop hevents) rfl rfl _ _
  | told hevents => exact ⟨idMsg, rowMsg, h.popEvent hevents fun _ hi => .inl hi⟩
  | @sent _ rest _ =>
    have hpop : Labelled { s.main.books with outcomes := rest } idMsg rowMsg := { h with }
    exact ⟨idMsg, rowMsg, hpop.outcomeSent _ _⟩
  | @failed _ _ rest _ =>
    have hpop : Labelled { s.main.books with outcomes := rest } idMsg rowMsg := { h with }
    exact ⟨idMsg, rowMsg, hpop.outcomeFailed _ _⟩
  | deleteDraft => exact ⟨idMsg, rowMsg, h.aside (aside_push _ _ rfl)⟩
  | deleteOutbox => exact ⟨idMsg, rowMsg, h.aside (aside_push _ _ rfl)⟩
  | @edit _ opens item hitem =>
    have hlist : Labelled { s.main.books with
        listed := s.main.books.listed.eraseP fun i => i.id = item.id } idMsg rowMsg :=
      { h with listed := fun i hi => h.listed i (hi.imp_left List.mem_of_mem_eraseP) }
    have hlt := hnumbered.listed_lt item (listedItem_mem hitem).1
    refine hopens (hlist.aside (aside_push _ s.main.free (c := .deleteOutbox item.id) rfl))
      ((hnumbered.editQueued_list item).push (c := .deleteOutbox item.id) hlt _)
      (push_entries ..) (push_deliveries ..) _ opens
  | retry hitem =>
    obtain ⟨hmem, -⟩ := listedItem_mem hitem
    refine h.outboxDue hnumbered hwired.given _ ?_ ?_
    · intro i hi
      rw [List.mem_singleton.mp hi]
      exact h.listed _ (.inl hmem)
    · intro i hi
      rw [List.mem_singleton.mp hi]
      exact ⟨hnumbered.listed_lt _ hmem, fun id he => absurd rfl ((hnumbered.untold _ _ he).1 _ hmem)⟩
  | write hwrites => exact hhas.run hnumbered hwrites
  | read hanswer => exact ⟨idMsg, rowMsg, h.answers hanswer⟩
  | mail => exact ⟨idMsg, rowMsg, { h with }⟩
  | reload => exact hhas.reload hnumbered _

/-- At the start a row stands for the message that it holds. -/
theorem HasLabels.init {s : System} (h : Started s) : HasLabels s.main.books := by
  have hnumbered := Numbered.init h
  obtain ⟨accounts, db, hmain⟩ := h.main
  have hnone : ∀ {β : Type} (id : ComposeId), (∅ : AList fun _ : ComposeId => β).lookup id = none :=
    fun id => AList.lookup_empty id
  refine ⟨fun _ => 0, fun row => ((s.main.books.outbox.find? fun r => r.1 = row).map
    fun r => r.2.stamp.msg).getD 0, ?_⟩
  have houtbox : ∀ row c, (row, c) ∈ s.main.books.outbox → c.stamp.msg =
      ((s.main.books.outbox.find? fun r => r.1 = row).map fun r => r.2.stamp.msg).getD 0 := by
    intro row c hc
    cases hfind : s.main.books.outbox.find? fun r => r.1 = row with
    | none => exact absurd hc (fun hmem => by simpa using List.find?_eq_none.mp hfind _ hmem)
    | some r =>
      have hrow : r.1 = row := by simpa using List.find?_some hfind
      have hr := List.mem_of_find?_eq_some hfind
      rw [List.inj_on_of_nodup_map hnumbered.outbox_ids hr hc hrow]
      rfl
  refine {
    entry := ?_
    flight := ?_
    enqueue := ?_
    outbox := houtbox
    listed := ?_
    owner := ?_ } <;> rw [hmain]
  · exact fun id entry hlook => absurd ((hnone id).symm.trans hlook) (by simp)
  · rintro id m ⟨flight, hlook, -⟩
    exact absurd ((hnone id).symm.trans hlook) (by simp)
  · exact fun row id config c hc => absurd hc (by simp [MainWindow.books])
  · rintro item (hi | ⟨e, he, -⟩)
    · exact absurd hi (by simp [MainWindow.books])
    · exact absurd he (by simp [MainWindow.books])
  · rintro id row (hlook | he)
    · exact absurd ((hnone id).symm.trans hlook) (by simp)
    · exact absurd he (by simp [MainWindow.books])

/-- In every run ids and rows stand for messages. -/
theorem hasLabels {ok : System → Action → Prop} {s : System} (h : machine.Reach ok s) :
    HasLabels s.main.books :=
  Machine.Reach.invariant (P := fun s => HasLabels s.main.books) (fun _ h0 => HasLabels.init h0)
    (fun _ a _ hr hl _ hstep => HasLabels.step (wired hr) (numbered hr) hl (a := a) hstep) h

end System

end Esmail
