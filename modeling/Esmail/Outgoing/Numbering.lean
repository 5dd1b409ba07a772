/-
# Numbers are given once

Compose ids, outbox rows and draft rows are numbers that are given in order and never again.  What
follows from that holds in EVERY run: nothing names a number that has not been given; a row that is
listed is the row that was in the table when the list was made; and, because the cache answers in
order, a row that the main window has not yet been told about is in no list that it has seen.
-/
import Esmail.Outgoing.Wiring
import Esmail.Outgoing.Steps

namespace Esmail

open Transition

/-! ## 1. What the answers say about outbox rows -/

/-- The outbox rows that an answer names. -/
def CacheEvent.rows : CacheEvent → List Row
  | .outboxEnqueued row _ => [row]
  | .outboxDue items | .outbox items => items.map OutboxItem.id
  | _ => []

/-- The items that an answer lists. -/
def CacheEvent.items : CacheEvent → List OutboxItem
  | .outboxDue items | .outbox items => items
  | _ => []

namespace Books

/-- An item of the outbox that the main window has, or is about to get. -/
def Listed (b : Books) (item : OutboxItem) : Prop :=
  item ∈ b.listed ∨ ∃ e ∈ b.events, item ∈ e.items

/-- A row that a queued command is going to delete. -/
def Doomed (b : Books) (row : Row) : Prop :=
  .markOutboxSent row ∈ b.writes ∨ .deleteOutbox row ∈ b.writes

/-- A command names no number that has not been given. -/
def Given (b : Books) : DbCommand → Prop
  | .saveDraft row id _ _ => (∀ d, row = some d → d < b.nextDraft) ∧ id ≤ b.deliveries.lastId
  | .deleteDraft row => row < b.nextDraft
  | .enqueueOutbox row id _ _ => row = none ∧ id ≤ b.deliveries.lastId
  | .markOutboxSent row | .deleteOutbox row => row < b.nextOutbox
  | _ => True

structure Numbered (b : Books) : Prop where
  flight_le : ∀ id, b.deliveries.inFlight.lookup id ≠ none → id ≤ b.deliveries.lastId
  row_le : ∀ id, b.deliveries.outboxRows.lookup id ≠ none → id ≤ b.deliveries.lastId
  row_lt : ∀ id row, b.deliveries.outboxRows.lookup id = some row → row < b.nextOutbox
  draft_lt : ∀ id entry d, b.entries.lookup id = some entry → entry.draft = some d → d < b.nextDraft
  write : ∀ c ∈ b.writes, b.Given c
  outbox_ids : (b.outbox.map Prod.fst).Nodup
  outbox_lt : ∀ p ∈ b.outbox, p.1 < b.nextOutbox
  drafts_ids : (b.drafts.map Prod.fst).Nodup
  drafts_lt : ∀ p ∈ b.drafts, p.1 < b.nextDraft
  saved_lt : ∀ row id, CacheEvent.draftSaved row id ∈ b.events →
    row < b.nextDraft ∧ id ≤ b.deliveries.lastId
  enqueued_le : ∀ row id, CacheEvent.outboxEnqueued row id ∈ b.events → id ≤ b.deliveries.lastId
  /-- The rows that answers name. -/
  event_lt : ∀ e ∈ b.events, ∀ row ∈ e.rows, row < b.nextOutbox
  listed_lt : ∀ item ∈ b.listed, item.id < b.nextOutbox
  /-- A listed item is the row of its number, as long as the table has that. -/
  listed_eq : ∀ item, b.Listed item → ∀ c, (item.id, c) ∈ b.outbox → c = item.compose
  listed_ids : ∀ e ∈ b.events, (e.items.map OutboxItem.id).Nodup
  /-- A row that is still to be told about is in no answer before, in no list, and owned by none. -/
  order : b.events.Pairwise fun e e' => ∀ row id, e' = .outboxEnqueued row id → row ∉ e.rows
  untold : ∀ row id, CacheEvent.outboxEnqueued row id ∈ b.events →
    (∀ item ∈ b.listed, item.id ≠ row) ∧ ∀ id', b.deliveries.outboxRows.lookup id' ≠ some row

/-! ## 2. The elementary changes -/

variable {b : Books}

theorem Numbered.push (h : Numbered b) {c : DbCommand} (hc : b.Given c) (free : Nat) :
    Numbered (b.push free c) := by
  unfold Books.push
  split
  · refine { h with write := ?_ }
    intro d hd
    rcases List.mem_append.mp hd with hd | hd
    · exact h.write d hd
    · exact List.mem_singleton.mp hd ▸ hc
  · exact h

theorem Numbered.setEntry (h : Numbered b) {id : ComposeId} {entry : Entry}
    (hd : ∀ d, entry.draft = some d → d < b.nextDraft) : Numbered (b.setEntry id entry) := by
  refine { h with draft_lt := ?_ }
  intro id' entry' d hlook hdraft
  by_cases hid : id' = id
  · subst hid
    cases (AList.lookup_insert _).symm.trans hlook
    exact hd d hdraft
  · exact h.draft_lt id' entry' d ((AList.lookup_insert_ne hid).symm.trans hlook) hdraft

theorem Numbered.forgetIfDone (h : Numbered b) (id : ComposeId) : Numbered (b.forgetIfDone id) := by
  have hd : ∀ id' entry d, (b.forgetIfDone id).entries.lookup id' = some entry →
      entry.draft = some d → d < b.nextDraft :=
    fun id' entry d hlook => h.draft_lt id' entry d (forgetIfDone_lookup _ _ hlook)
  unfold Books.forgetIfDone at hd ⊢
  split
  · next entry hentry =>
    rw [hentry] at hd
    dsimp only at hd
    split
    · next hdone =>
      rw [if_pos hdone] at hd
      exact { h with draft_lt := hd }
    · exact h
  · exact h

/-- The ledger changes, but names no new row. -/
theorem Numbered.withDeliveries (h : Numbered b) {d : Deliveries}
    (hid : b.deliveries.lastId ≤ d.lastId)
    (hflight : ∀ id, d.inFlight.lookup id ≠ none → id ≤ d.lastId)
    (hrow : ∀ id row, d.outboxRows.lookup id = some row → id ≤ d.lastId ∧ row < b.nextOutbox ∧
      ∀ id', CacheEvent.outboxEnqueued row id' ∉ b.events) : Numbered (b.withDeliveries d) := by
  refine { h with
    flight_le := hflight
    row_le := ?_
    row_lt := fun id row hlook => (hrow id row hlook).2.1
    write := ?_
    saved_lt := fun row id he => ⟨(h.saved_lt row id he).1, Nat.le_trans (h.saved_lt row id he).2 hid⟩
    enqueued_le := fun row id he => Nat.le_trans (h.enqueued_le row id he) hid
    untold := fun row id he => ⟨(h.untold row id he).1, fun id' hlook => (hrow id' row hlook).2.2 id he⟩ }
  · intro id hne
    obtain ⟨row, hlook⟩ := Option.ne_none_iff_exists'.mp hne
    exact (hrow id row hlook).1
  · intro c hc
    have hgiven := h.write c hc
    cases c with
    | saveDraft row id _ _ => exact ⟨hgiven.1, Nat.le_trans hgiven.2 hid⟩
    | enqueueOutbox row id _ _ => exact ⟨hgiven.1, Nat.le_trans hgiven.2 hid⟩
    | _ => exact hgiven

/-- The ledger forgets rows and sends. -/
theorem Numbered.fewer (h : Numbered b) {d : Deliveries} (hid : d.lastId = b.deliveries.lastId)
    (hflight : ∀ id f, d.inFlight.lookup id = some f → b.deliveries.inFlight.lookup id ≠ none)
    (hrow : ∀ id row, d.outboxRows.lookup id = some row →
      b.deliveries.outboxRows.lookup id = some row) : Numbered (b.withDeliveries d) := by
  refine h.withDeliveries (Nat.le_of_eq hid.symm) ?_ ?_
  · intro id hne
    obtain ⟨f, hf⟩ := Option.ne_none_iff_exists'.mp hne
    exact hid ▸ h.flight_le id (hflight id f hf)
  · intro id row hlook
    have hold := hrow id row hlook
    refine ⟨?_, h.row_lt id row hold, fun id' he => (h.untold row id' he).2 id hold⟩
    rw [hid]
    exact h.row_le id (by rw [hold]; simp)

open Deliveries in
theorem Numbered.forget (h : Numbered b) (id : ComposeId) :
    Numbered (b.withDeliveries (b.deliveries.forget id).2) := by
  refine h.fewer rfl ?_ ?_
  · intro id' f hf
    rw [(lookup_of_erase hf).2]
    simp
  · exact fun id' row hrow => (lookup_of_erase hrow).2

open Deliveries in
theorem Numbered.failed (h : Numbered b) (id : ComposeId) :
    Numbered (b.withDeliveries (b.deliveries.failed id).2) := by
  cases hf : b.deliveries.inFlight.lookup id with
  | none =>
    rw [failed_none hf]
    exact h
  | some flight =>
    rw [failed_eq hf]
    refine h.fewer rfl ?_ fun id' row hrow => hrow
    intro id' f hf'
    rw [(lookup_of_erase hf').2]
    simp

open Deliveries in
theorem Numbered.delivered (h : Numbered b) (id : ComposeId) :
    Numbered (b.withDeliveries (b.deliveries.delivered id).2) := by
  cases hf : b.deliveries.inFlight.lookup id with
  | none =>
    rw [delivered_none hf]
    exact h
  | some flight =>
    rw [delivered_eq hf]
    exact h.forget id

/-! ## 3. The functions of the main window -/

theorem Numbered.startCompose (h : Numbered b) (state : ComposeState) (opens : Bool) :
    Numbered (b.startCompose state opens) := by
  have hnext : Numbered (b.withDeliveries b.deliveries.nextId.2) := by
    refine h.withDeliveries (Nat.le_succ _) (fun id hne => Nat.le_succ_of_le (h.flight_le id hne)) ?_
    intro id row hlook
    refine ⟨Nat.le_succ_of_le (h.row_le id ?_), h.row_lt id row hlook,
      fun id' he => (h.untold row id' he).2 id hlook⟩
    exact fun hnone => absurd (hnone.symm.trans hlook) (by simp)
  unfold Books.startCompose
  cases opens with
  | false => exact hnext
  | true => exact hnext.setEntry (by simp)

theorem Numbered.saveDraft (h : Numbered b)
    (hgiven : ∀ id, b.entries.lookup id ≠ none → id ≤ b.deliveries.lastId) (free : Nat)
    (id : ComposeId) (state : ComposeState) (explicit : Bool) :
    Numbered (b.saveDraft free id state explicit) := by
  unfold Books.saveDraft
  split
  · exact h
  · next entry hentry =>
    have hdraft := h.draft_lt id entry
    split
    · exact h
    · have hset : Numbered (b.setEntry id
          { entry with savesPending := entry.savesPending + 1, announceSave := explicit }) :=
        h.setEntry fun d hd => hdraft d hentry hd
      refine hset.push ?_ free
      exact ⟨fun d hd => hdraft d hentry hd, hgiven id (by rw [hentry]; simp)⟩

theorem Numbered.settle (h : Numbered b) (free : Nat) (id : ComposeId) :
    Numbered (b.settle free id) := by
  unfold Books.settle
  split
  · exact h
  · next entry hentry =>
    have hset : Numbered (b.setEntry id { entry with settled := true, draft := none }) :=
      h.setEntry (by simp)
    cases hdraft : entry.draft with
    | none => exact hset
    | some d => exact hset.push (c := .deleteDraft d) (h.draft_lt id entry d hentry hdraft) free

theorem Numbered.discard (h : Numbered b) (free : Nat) (id : ComposeId) :
    Numbered (b.discard free id) := by
  have hforget := h.forget id
  unfold Books.discard
  cases hrow : (b.deliveries.forget id).1 with
  | none => exact hforget.settle free id
  | some row => exact (hforget.push (c := .deleteOutbox row) (h.row_lt id row hrow) free).settle ..

theorem Numbered.windowClosed (h : Numbered b) (id : ComposeId) : Numbered (b.windowClosed id) := by
  unfold Books.windowClosed
  refine Numbered.forgetIfDone ?_ id
  split
  · next entry hentry => exact h.setEntry fun d hd => h.draft_lt id entry d hentry hd
  · exact h

theorem Numbered.draftSaved (h : Numbered b) (free : Nat) {row : Row} (hrow : row < b.nextDraft)
    (id : ComposeId) : Numbered (b.draftSaved free row id) := by
  unfold Books.draftSaved
  split
  · exact h
  · next entry hentry =>
    refine Numbered.forgetIfDone ?_ id
    split
    · have hset : Numbered (b.setEntry id { entry with savesPending := entry.savesPending - 1 }) :=
        h.setEntry fun d hd => h.draft_lt id entry d hentry hd
      exact hset.push (c := .deleteDraft row) hrow free
    · refine h.setEntry fun d hd => ?_
      cases hd
      exact hrow

theorem Numbered.outcomeFailed (h : Numbered b) (free : Nat) (id : ComposeId) :
    Numbered (b.outcomeFailed free id) := by
  have hfailed := h.failed id
  unfold Books.outcomeFailed
  split
  · exact h
  · exact hfailed
  · next account state heq =>
    split
    · next config _ =>
      refine hfailed.push (c := .enqueueOutbox none id config state) ⟨rfl, ?_⟩ free
      rw [Books.withDeliveries, failed_lastId]
      refine h.flight_le id fun hnone => ?_
      rw [Deliveries.failed_none hnone] at heq
      exact absurd heq (by simp)
    · exact hfailed

theorem Numbered.outcomeSent (h : Numbered b) (free : Nat) (id : ComposeId) :
    Numbered (b.outcomeSent free id) := by
  have hdelivered := h.delivered id
  unfold Books.outcomeSent
  split
  · exact h
  · next delivered heq =>
    cases hrow : delivered.outboxRow with
    | none => exact hdelivered.settle free id
    | some row =>
      refine (hdelivered.push (c := .markOutboxSent row) ?_ free).settle ..
      cases hf : b.deliveries.inFlight.lookup id with
      | none =>
        rw [Deliveries.delivered_none hf] at heq
        exact absurd heq (by simp)
      | some flight =>
        rw [Deliveries.delivered_eq hf] at heq
        cases heq
        exact h.row_lt id row hrow

/-- A listed row is retried. -/
theorem Numbered.retry (h : Numbered b) {item : OutboxItem} (hlt : item.id < b.nextOutbox)
    (htold : ∀ id, CacheEvent.outboxEnqueued item.id id ∉ b.events) (account : Nat) :
    Numbered (b.withDeliveries (b.deliveries.retry item account).2) := by
  refine h.withDeliveries (Nat.le_succ _) ?_ ?_
  · intro id hne
    obtain ⟨f, hf⟩ := Option.ne_none_iff_exists'.mp hne
    rcases Deliveries.lookup_of_insert hf with ⟨rfl, -⟩ | ⟨-, hold⟩
    · exact Nat.le_refl (b.deliveries.lastId + 1)
    · exact Nat.le_succ_of_le (h.flight_le id (by rw [hold]; simp))
  · intro id row hlook
    rcases Deliveries.lookup_of_insert hlook with ⟨rfl, rfl⟩ | ⟨-, hold⟩
    · exact ⟨Nat.le_refl (b.deliveries.lastId + 1), hlt, htold⟩
    · exact ⟨Nat.le_succ_of_le (h.row_le id (by rw [hold]; simp)), h.row_lt id row hold,
        fun id' he => (h.untold row id' he).2 id hold⟩

theorem Numbered.retryAll (accountIndex : AccountId → Option Nat) : ∀ (items : List OutboxItem)
    {b : Books}, Numbered b → (∀ item ∈ items, item.id < b.nextOutbox ∧
      ∀ id, CacheEvent.outboxEnqueued item.id id ∉ b.events) →
    Numbered (b.withDeliveries (Deliveries.retryAll accountIndex b.deliveries items).2)
  | [], _, h, _ => h
  | item :: items, b, h, hitems => by
    have hrest := fun i hi => hitems i (List.mem_cons_of_mem item hi)
    unfold Deliveries.retryAll
    split
    · exact Numbered.retryAll accountIndex items h hrest
    · next account _ =>
      obtain ⟨hlt, htold⟩ := hitems item List.mem_cons_self
      exact Numbered.retryAll accountIndex items (h.retry hlt htold account) hrest

/-- A row is taken off the list. -/
theorem Numbered.editQueued_list (h : Numbered b) (item : OutboxItem) :
    Numbered { b with listed := b.listed.eraseP fun i => i.id = item.id } := by
  have hsub : ∀ i ∈ b.listed.eraseP fun i => i.id = item.id, i ∈ b.listed :=
    fun i hi => List.mem_of_mem_eraseP hi
  exact { h with
    listed_lt := fun i hi => h.listed_lt i (hsub i hi)
    listed_eq := fun i hi c hc => h.listed_eq i (hi.imp_left (hsub i)) c hc
    untold := fun row id he =>
      ⟨fun i hi => (h.untold row id he).1 i (hsub i hi), (h.untold row id he).2⟩ }

theorem Numbered.editQueued (h : Numbered b) (free : Nat) {item : OutboxItem}
    (hitem : item ∈ b.listed) (opens : Bool) : Numbered (b.editQueued free item opens) := by
  have hlist := h.editQueued_list item
  exact (hlist.push (c := .deleteOutbox item.id) (h.listed_lt item hitem) free).startCompose ..

/-! ## 4. The cache -/

/-- The main window takes the next answer. -/
theorem Numbered.pop (h : Numbered b) {e : CacheEvent} {rest : List CacheEvent}
    (hevents : b.events = e :: rest) : Numbered { b with events := rest } := by
  have hsub : ∀ e' ∈ rest, e' ∈ b.events := fun e' he => hevents ▸ List.mem_cons_of_mem e he
  have horder := h.order
  rw [hevents, List.pairwise_cons] at horder
  exact { h with
    saved_lt := fun row id he => h.saved_lt row id (hsub _ he)
    enqueued_le := fun row id he => h.enqueued_le row id (hsub _ he)
    event_lt := fun e' he => h.event_lt e' (hsub e' he)
    listed_eq := fun item hi =>
      h.listed_eq item (hi.imp_right fun ⟨e', he, hmem⟩ => ⟨e', hsub e' he, hmem⟩)
    listed_ids := fun e' he => h.listed_ids e' (hsub e' he)
    order := horder.2
    untold := fun row id he => h.untold row id (hsub _ he) }

/-- What the answer that was taken says about those behind it. -/
theorem Numbered.told (h : Numbered b) {e : CacheEvent} {rest : List CacheEvent}
    (hevents : b.events = e :: rest) {row : Row} (hrow : row ∈ e.rows) (id : ComposeId) :
    CacheEvent.outboxEnqueued row id ∉ rest := by
  have horder := h.order
  rw [hevents, List.pairwise_cons] at horder
  exact fun he => horder.1 _ he row id rfl hrow

theorem Numbered.outboxEnqueued (h : Numbered b) {row : Row} {id : ComposeId}
    {rest : List CacheEvent} (hevents : b.events = .outboxEnqueued row id :: rest) :
    Numbered ({ b with events := rest }.outboxEnqueued row id) := by
  have hmem : CacheEvent.outboxEnqueued row id ∈ b.events := hevents ▸ List.mem_cons_self
  refine (h.pop hevents).withDeliveries (Nat.le_refl _) h.flight_le ?_
  intro id' row' hlook
  rcases Deliveries.lookup_of_insert hlook with ⟨rfl, rfl⟩ | ⟨-, hold⟩
  · exact ⟨h.enqueued_le _ _ hmem, h.event_lt _ hmem _ (List.mem_singleton_self _),
      fun id' => h.told hevents (List.mem_singleton_self _) id'⟩
  · exact ⟨h.row_le id' (by rw [hold]; simp), h.row_lt id' row' hold,
      fun id'' he => (h.untold row' id'' (hevents ▸ List.mem_cons_of_mem _ he)).2 id' hold⟩

/-- The main window takes a list of the outbox. -/
theorem Numbered.takeList (h : Numbered b) {items : List OutboxItem} {rest : List CacheEvent}
    (hevents : b.events = .outbox items :: rest) :
    Numbered { b with events := rest, listed := items } := by
  have hmem : CacheEvent.outbox items ∈ b.events := hevents ▸ List.mem_cons_self
  have hid : ∀ item ∈ items, item.id ∈ (CacheEvent.outbox items).rows :=
    fun item hi => List.mem_map_of_mem hi
  refine { h.pop hevents with
    listed_lt := fun item hi => h.event_lt _ hmem _ (hid item hi)
    listed_eq := ?_
    untold := ?_ }
  · rintro item (hi | ⟨e, he, hi⟩)
    · exact h.listed_eq item (.inr ⟨_, hmem, hi⟩)
    · exact h.listed_eq item (.inr ⟨e, hevents ▸ List.mem_cons_of_mem _ he, hi⟩)
  · intro row id he
    refine ⟨fun item hi heq => ?_, (h.untold row id (hevents ▸ List.mem_cons_of_mem _ he)).2⟩
    exact h.told hevents (heq ▸ hid item hi) id he

/-- The cache answers. -/
theorem Numbered.answer (h : Numbered b) {e : CacheEvent}
    (hsaved : ∀ row id, e = .draftSaved row id → row < b.nextDraft ∧ id ≤ b.deliveries.lastId)
    (henqueued : ∀ row id, e = .outboxEnqueued row id → id ≤ b.deliveries.lastId ∧
      (∀ e' ∈ b.events, row ∉ e'.rows) ∧ (∀ item ∈ b.listed, item.id ≠ row) ∧
      ∀ id', b.deliveries.outboxRows.lookup id' ≠ some row)
    (hrows : ∀ row ∈ e.rows, row < b.nextOutbox)
    (hids : (e.items.map OutboxItem.id).Nodup)
    (hitems : ∀ item ∈ e.items, ∀ c, (item.id, c) ∈ b.outbox → c = item.compose) :
    Numbered { b with events := b.events ++ [e] } := by
  have hmem : ∀ {e' : CacheEvent}, e' ∈ b.events ++ [e] → e' ∈ b.events ∨ e' = e :=
    fun he => (List.mem_append.mp he).imp_right List.mem_singleton.mp
  refine { h with
    saved_lt := fun row id he => (hmem he).elim (h.saved_lt row id) fun heq => hsaved row id heq.symm
    enqueued_le := fun row id he =>
      (hmem he).elim (h.enqueued_le row id) fun heq => (henqueued row id heq.symm).1
    event_lt := fun e' he => (hmem he).elim (h.event_lt e') fun heq => heq ▸ hrows
    listed_eq := ?_
    listed_ids := fun e' he => (hmem he).elim (h.listed_ids e') fun heq => heq ▸ hids
    order := ?_
    untold := fun row id he =>
      (hmem he).elim (h.untold row id) fun heq => (henqueued row id heq.symm).2.2 }
  · rintro item (hi | ⟨e', he, hi⟩)
    · exact h.listed_eq item (.inl hi)
    · rcases hmem he with he | rfl
      · exact h.listed_eq item (.inr ⟨e', he, hi⟩)
      · exact hitems item hi
  · rw [List.pairwise_append]
    refine ⟨h.order, List.pairwise_singleton _ _, ?_⟩
    intro e' he' e'' he'' row id heq
    rw [List.mem_singleton.mp he''] at heq
    exact (henqueued row id heq).2.1 e' he'

/-- An answer that says nothing about rows or ids. -/
theorem Numbered.answer_plain (h : Numbered b) {e : CacheEvent}
    (hsaved : ∀ row id, e ≠ .draftSaved row id) (hrows : e.rows = []) (hitems : e.items = []) :
    Numbered { b with events := b.events ++ [e] } := by
  refine h.answer (fun row id heq => absurd heq (hsaved row id)) ?_ ?_ ?_ ?_
  · rintro row id rfl
    exact absurd hrows (by simp [CacheEvent.rows])
  · simp [hrows]
  · simp [hitems]
  · simp [hitems]

theorem Numbered.answers (h : Numbered b) {es : List CacheEvent} (hes : b.Answer es) :
    Numbered { b with events := b.events ++ es } := by
  have hlist : ∀ {items : List OutboxItem} {e : CacheEvent}, e.items = items →
      e.rows = items.map OutboxItem.id → (∀ row id, e ≠ .draftSaved row id) →
      (∀ row id, e ≠ .outboxEnqueued row id) →
      (items.map fun i => (i.id, i.compose)).Sublist b.outbox →
      Numbered { b with events := b.events ++ [e] } := by
    intro items e hitems hrows hsaved henqueued hsub
    have hids : items.map OutboxItem.id = (items.map fun i => (i.id, i.compose)).map Prod.fst := by
      rw [List.map_map]
      rfl
    refine h.answer (fun row id heq => absurd heq (hsaved row id))
      (fun row id heq => absurd heq (henqueued row id)) ?_ ?_ ?_
    · intro row hrow
      rw [hrows] at hrow
      obtain ⟨item, hi, rfl⟩ := List.mem_map.mp hrow
      exact h.outbox_lt _ (hsub.subset (List.mem_map_of_mem hi))
    · rw [hitems, hids]
      exact h.outbox_ids.sublist (hsub.map _)
    · intro item hi c hc
      rw [hitems] at hi
      have hmem := hsub.subset (List.mem_map_of_mem (f := fun i => (i.id, i.compose)) hi)
      exact congrArg Prod.snd (List.inj_on_of_nodup_map h.outbox_ids hc hmem rfl)
  cases hes with
  | nothing =>
    rw [List.append_nil]
    exact h
  | drafts => exact h.answer_plain (by simp) rfl rfl
  | failed => exact h.answer_plain (by simp) rfl rfl
  | draft _ => exact h.answer_plain (by simp) rfl rfl
  | due hsub => exact hlist rfl rfl (by simp) (by simp) hsub
  | outbox heq => exact hlist rfl rfl (by simp) (by simp) (heq ▸ List.Sublist.refl _)

theorem Numbered.deleteRow (h : Numbered b) (row : Row) :
    Numbered { b with outbox := b.outbox.filter fun r => r.1 ≠ row } :=
  { h with
    outbox_ids := h.outbox_ids.sublist (List.filter_sublist.map _)
    outbox_lt := fun p hp => h.outbox_lt p (List.mem_of_mem_filter hp)
    listed_eq := fun item hi c hc => h.listed_eq item hi c (List.mem_of_mem_filter hc) }

theorem Numbered.deleteDraft (h : Numbered b) (row : Row) :
    Numbered { b with drafts := b.drafts.filter fun r => r.1 ≠ row } :=
  { h with
    drafts_ids := h.drafts_ids.sublist (List.filter_sublist.map _)
    drafts_lt := fun p hp => h.drafts_lt p (List.mem_of_mem_filter hp) }

/-- A row of a number of its own comes behind the others. -/
theorem nodup_append_new {rows : List (Row × ComposeState)} {next : Row} (c : ComposeState)
    (hids : (rows.map Prod.fst).Nodup) (hlt : ∀ p ∈ rows, p.1 < next) :
    ((rows ++ [(next, c)]).map Prod.fst).Nodup ∧ ∀ p ∈ rows ++ [(next, c)], p.1 < next + 1 := by
  constructor
  · rw [List.map_append, List.nodup_append]
    refine ⟨hids, by simp, ?_⟩
    intro a ha a' ha' heq
    obtain ⟨p, hp, rfl⟩ := List.mem_map.mp ha
    have hnext : a' = next := List.mem_singleton.mp ha'
    exact Nat.ne_of_lt (hlt p hp) (heq.trans hnext)
  · intro p hp
    rcases List.mem_append.mp hp with hp | hp
    · exact Nat.lt_succ_of_lt (hlt p hp)
    · rw [List.mem_singleton.mp hp]
      exact Nat.lt_succ_self _

/-- An update of one row leaves the ids as they are. -/
theorem map_fst_update (rows : List (Row × ComposeState)) (row : Row) (c : ComposeState) :
    (rows.map fun r => if r.1 = row then (row, c) else r).map Prod.fst = rows.map Prod.fst := by
  rw [List.map_map]
  refine List.map_congr_left fun r _ => ?_
  simp only [Function.comp]
  split
  · next heq => exact heq.symm
  · rfl

theorem Numbered.updateDraft (h : Numbered b) (row : Row) (c : ComposeState) :
    Numbered { b with drafts := b.drafts.map fun r => if r.1 = row then (row, c) else r } := by
  refine { h with
    drafts_ids := ?_
    drafts_lt := ?_ }
  · dsimp only
    rw [map_fst_update]
    exact h.drafts_ids
  · intro p hp
    have hfst : p.1 ∈ b.drafts.map Prod.fst :=
      map_fst_update b.drafts row c ▸ List.mem_map_of_mem hp
    obtain ⟨q, hq, heq⟩ := List.mem_map.mp hfst
    exact heq ▸ h.drafts_lt q hq

theorem Numbered.insertDraft (h : Numbered b) (c : ComposeState) :
    Numbered { b with drafts := b.drafts ++ [(b.nextDraft, c)], nextDraft := b.nextDraft + 1 } := by
  obtain ⟨hids, hlt⟩ := nodup_append_new c h.drafts_ids h.drafts_lt
  refine { h with
    draft_lt := fun id entry d he hd => Nat.lt_succ_of_lt (h.draft_lt id entry d he hd)
    write := ?_
    drafts_ids := hids
    drafts_lt := hlt
    saved_lt := fun row id he =>
      ⟨Nat.lt_succ_of_lt (h.saved_lt row id he).1, (h.saved_lt row id he).2⟩ }
  intro d hd
  have hgiven := h.write d hd
  cases d with
  | saveDraft row id _ _ => exact ⟨fun d hd => Nat.lt_succ_of_lt (hgiven.1 d hd), hgiven.2⟩
  | deleteDraft row => exact Nat.lt_succ_of_lt hgiven
  | _ => exact hgiven

/-- A listed row has been given. -/
theorem Numbered.item_lt (h : Numbered b) {item : OutboxItem} (hi : b.Listed item) :
    item.id < b.nextOutbox := by
  rcases hi with hi | ⟨e, he, hi⟩
  · exact h.listed_lt item hi
  · refine h.event_lt e he _ ?_
    cases e with
    | outboxDue items => exact List.mem_map_of_mem hi
    | outbox items => exact List.mem_map_of_mem hi
    | _ => exact absurd hi (by simp [CacheEvent.items])

theorem Numbered.insertOutbox (h : Numbered b) (c : ComposeState) :
    Numbered { b with outbox := b.outbox ++ [(b.nextOutbox, c)], nextOutbox := b.nextOutbox + 1 } := by
  obtain ⟨hids, hlt⟩ := nodup_append_new c h.outbox_ids h.outbox_lt
  refine { h with
    row_lt := fun id row hlook => Nat.lt_succ_of_lt (h.row_lt id row hlook)
    write := ?_
    outbox_ids := hids
    outbox_lt := hlt
    event_lt := fun e he row hrow => Nat.lt_succ_of_lt (h.event_lt e he row hrow)
    listed_lt := fun item hi => Nat.lt_succ_of_lt (h.listed_lt item hi)
    listed_eq := ?_ }
  · intro d hd
    have hgiven := h.write d hd
    cases d with
    | markOutboxSent row => exact Nat.lt_succ_of_lt hgiven
    | deleteOutbox row => exact Nat.lt_succ_of_lt hgiven
    | _ => exact hgiven
  · intro item hi c' hc
    rcases List.mem_append.mp hc with hc | hc
    · exact h.listed_eq item hi c' hc
    · have hid : item.id = b.nextOutbox := congrArg Prod.fst (List.mem_singleton.mp hc)
      exact absurd (h.item_lt hi) (by rw [hid]; exact Nat.lt_irrefl _)

/-- The next command that writes is run. -/
theorem Numbered.run (h : Numbered b) {c : DbCommand} {ws : List DbCommand}
    (hwrites : b.writes = c :: ws) : Numbered ({ b with writes := ws }.run c) := by
  have hgiven := h.write c (hwrites ▸ List.mem_cons_self)
  have hpop : Numbered { b with writes := ws } :=
    { h with write := fun d hd => h.write d (hwrites ▸ List.mem_cons_of_mem c hd) }
  cases c with
  | saveDraft row id accountId compose =>
    cases row with
    | some row =>
      refine (hpop.updateDraft row compose).answer (e := .draftSaved row id) ?_ (by simp)
        (by simp [CacheEvent.rows]) (by simp [CacheEvent.items]) (by simp [CacheEvent.items])
      rintro row' id' heq
      cases heq
      exact ⟨hgiven.1 row rfl, hgiven.2⟩
    | none =>
      refine (hpop.insertDraft compose).answer (e := .draftSaved b.nextDraft id) ?_ (by simp)
        (by simp [CacheEvent.rows]) (by simp [CacheEvent.items]) (by simp [CacheEvent.items])
      rintro row' id' heq
      cases heq
      exact ⟨Nat.lt_succ_self _, hgiven.2⟩
  | enqueueOutbox row id accountId compose =>
    obtain ⟨rfl, hid⟩ := hgiven
    refine (hpop.insertOutbox compose).answer (e := .outboxEnqueued b.nextOutbox id) (by simp) ?_
      (by simp [CacheEvent.rows]) (by simp [CacheEvent.items]) (by simp [CacheEvent.items])
    rintro row id' heq
    cases heq
    refine ⟨hid, ?_, ?_, ?_⟩
    · exact fun e he hrow => absurd (h.event_lt e he _ hrow) (Nat.lt_irrefl _)
    · exact fun item hi heq => absurd (heq ▸ h.listed_lt item hi) (Nat.lt_irrefl _)
    · exact fun id' hlook => absurd (h.row_lt id' _ hlook) (Nat.lt_irrefl _)
  | deleteDraft row => exact hpop.deleteDraft row
  | markOutboxSent row => exact hpop.deleteRow row
  | deleteOutbox row => exact hpop.deleteRow row
  | listDrafts | loadDraft _ | dueOutbox | listOutbox | markOutboxFailed _ _ | other => exact hpop

/-! ## 5. The timer and a new core -/

/-- What every answer that lists rows says of them, and the list that was taken too. -/
theorem Numbered.outboxDue {m : MainWindow} (h : Numbered m.books) (refusal : ComposeId → Option String)
    {items : List OutboxItem} (hitems : ∀ item ∈ items, item.id < m.books.nextOutbox ∧
      ∀ id, CacheEvent.outboxEnqueued item.id id ∉ m.books.events) :
    Numbered (m.outboxDue refusal items).books := by
  refine m.outboxDue_induction (P := fun _ b => Numbered b) ?_ ?_ refusal items ?_
  · exact fun retry _ b free hb => hb.outcomeFailed free retry.id
  · exact fun _ _ _ _ hb => { hb with }
  · exact Numbered.retryAll _ _ h fun item hi => hitems item (List.mem_of_mem_filter hi)

/-- A command that writes changes no entry, no ledger and no list. -/
theorem run_frame (b : Books) (c : DbCommand) : (b.run c).entries = b.entries ∧
    (b.run c).deliveries = b.deliveries ∧ (b.run c).listed = b.listed := by
  cases c with
  | saveDraft row _ _ _ => cases row <;> exact ⟨rfl, rfl, rfl⟩
  | enqueueOutbox row _ _ _ => cases row <;> exact ⟨rfl, rfl, rfl⟩
  | _ => exact ⟨rfl, rfl, rfl⟩

theorem run_writes (b : Books) (c : DbCommand) (ws : List DbCommand) :
    { b with writes := ws }.run c = { b.run c with writes := ws } := by
  cases c with
  | saveDraft row _ _ _ => cases row <;> rfl
  | enqueueOutbox row _ _ _ => cases row <;> rfl
  | _ => rfl

theorem foldl_run_frame : ∀ (ws : List DbCommand) (b : Books),
    (ws.foldl Books.run b).entries = b.entries ∧
      (ws.foldl Books.run b).deliveries = b.deliveries ∧ (ws.foldl Books.run b).listed = b.listed
  | [], _ => ⟨rfl, rfl, rfl⟩
  | c :: ws, b => by
    obtain ⟨he, hd, hl⟩ := run_frame b c
    obtain ⟨he', hd', hl'⟩ := foldl_run_frame ws (b.run c)
    exact ⟨he'.trans he, hd'.trans hd, hl'.trans hl⟩

/-- All queued commands are run. -/
theorem Numbered.runAll : ∀ (ws : List DbCommand) {b : Books}, Numbered { b with writes := ws } →
    Numbered { ws.foldl Books.run b with writes := [] }
  | [], _, h => h
  | c :: ws, b, h => by
    have hrun : Numbered ({ b with writes := ws }.run c) := h.run rfl
    rw [run_writes b c ws] at hrun
    exact Numbered.runAll ws hrun

/-- The queued commands are run, and the rest is gone. -/
theorem reload_eq (b : Books) (accounts : List AccountId) :
    b.reload accounts =
      { b.writes.foldl Books.run b with
        accounts := accounts
        writes := []
        events := []
        mails := []
        outcomes := [] } := by
  obtain ⟨he, hd, hl⟩ := foldl_run_frame b.writes b
  unfold Books.reload
  dsimp only
  rw [he, hd, hl]

theorem Numbered.reload (h : Numbered b) (accounts : List AccountId) : Numbered (b.reload accounts) := by
  have hall := Numbered.runAll b.writes h
  rw [reload_eq]
  exact { hall with
    saved_lt := fun _ _ he => absurd he (by simp)
    enqueued_le := fun _ _ he => absurd he (by simp)
    event_lt := fun _ he => absurd he (by simp)
    listed_eq := fun item hi => hall.listed_eq item (.inl (hi.resolve_right (by simp)))
    listed_ids := fun _ he => absurd he (by simp)
    order := List.Pairwise.nil
    untold := fun _ _ he => absurd he (by simp) }

end Books

namespace System

open Books

theorem Numbered.items {b : Books} (h : Numbered b) {e : CacheEvent} {rest : List CacheEvent}
    (hevents : b.events = e :: rest) (hrows : e.rows = e.items.map OutboxItem.id) :
    ∀ item ∈ e.items, item.id < b.nextOutbox ∧ ∀ id, CacheEvent.outboxEnqueued item.id id ∉ rest := by
  intro item hi
  have hrow : item.id ∈ e.rows := hrows ▸ List.mem_map_of_mem hi
  exact ⟨h.event_lt e (hevents ▸ List.mem_cons_self) _ hrow, h.told hevents hrow⟩

theorem listedItem_mem {m : MainWindow} {row : Row} {item : OutboxItem}
    (h : m.listedItem row = some item) : item ∈ m.books.listed ∧ item.id = row :=
  ⟨List.mem_of_find?_eq_some h, by simpa using List.find?_some h⟩

/-- Every step keeps the numbering. -/
theorem Numbered.step {s s' : System} (hwired : s.Wired) (h : Numbered s.main.books) {a : Action}
    (hstep : s.step a = some s') : Numbered s'.main.books := by
  have heffect := effect hstep
  generalize s'.main.books = b' at heffect ⊢
  generalize s'.delivered = delivered' at heffect
  generalize s'.nextMsg = nextMsg' at heffect
  cases heffect with
  | quiet => exact h
  | compose => exact h.startCompose ..
  | send hrequests =>
    obtain ⟨m, hopen, -⟩ := hwired.request _ _ (hrequests ▸ List.mem_cons_self)
    refine Numbered.withDeliveries (b := s.main.books.hand ..) { h with } (Nat.le_refl _) ?_ ?_
    · intro id' hne
      obtain ⟨f, hf⟩ := Option.ne_none_iff_exists'.mp hne
      rcases Deliveries.lookup_of_insert hf with ⟨rfl, -⟩ | ⟨-, hold⟩
      · exact OpenEntry.le hwired hopen
      · exact h.flight_le id' (by rw [hold]; simp)
    · intro id' row hlook
      exact ⟨h.row_le id' fun hnone => absurd (hnone.symm.trans hlook) (by simp),
        h.row_lt id' row hlook, fun id'' he => (h.untold row id'' he).2 id' hlook⟩
  | save => exact h.saveDraft hwired.given ..
  | discard => exact h.discard ..
  | closed => exact h.windowClosed ..
  | draftSaved hevents =>
    exact (h.pop hevents).draftSaved _ (h.saved_lt _ _ (hevents ▸ List.mem_cons_self)).1 _
  | outboxEnqueued hevents => exact h.outboxEnqueued hevents
  | @due _ _ items rest hevents =>
    exact Numbered.outboxDue (m := { s.main with events := rest }) (h.pop hevents) _
      (Numbered.items (e := .outboxDue items) h hevents rfl)
  | listed hevents => exact h.takeList hevents
  | loaded hevents => exact (h.pop hevents).startCompose ..
  | told hevents => exact h.pop hevents
  | @sent _ rest _ =>
    exact Numbered.outcomeSent (b := { s.main.books with outcomes := rest }) { h with } ..
  | @failed _ _ rest _ =>
    exact Numbered.outcomeFailed (b := { s.main.books with outcomes := rest }) { h with } ..
  | @deleteDraft row hrow => exact h.push (c := .deleteDraft row) hrow _
  | @deleteOutbox row hrow => exact h.push (c := .deleteOutbox row) hrow _
  | edit hitem => exact h.editQueued _ (listedItem_mem hitem).1 _
  | retry hitem =>
    refine h.outboxDue _ ?_
    intro i hi
    obtain ⟨hmem, -⟩ := listedItem_mem hitem
    rw [List.mem_singleton.mp hi]
    exact ⟨h.listed_lt _ hmem, fun id he => absurd rfl ((h.untold _ _ he).1 _ hmem)⟩
  | write hwrites => exact h.run hwrites
  | read hanswer => exact h.answers hanswer
  | mail => exact { h with }
  | reload => exact h.reload _

theorem Numbered.init {s : System} (h : Started s) : Numbered s.main.books := by
  obtain ⟨accounts, db, hmain⟩ := h.main
  have hids : (s.main.books.outbox.map Prod.fst).Nodup := by
    simpa [MainWindow.books, OutboxRow.held, Function.comp_def] using h.outbox_ids
  have hdrafts : (s.main.books.drafts.map Prod.fst).Nodup := by
    simpa [MainWindow.books, DraftRow.held, Function.comp_def] using h.draft_ids
  have hlt : ∀ p ∈ s.main.books.outbox, p.1 < s.main.books.nextOutbox := by
    intro p hp
    obtain ⟨r, hr, rfl⟩ := List.mem_map.mp hp
    exact h.outbox_lt r hr
  have hdlt : ∀ p ∈ s.main.books.drafts, p.1 < s.main.books.nextDraft := by
    intro p hp
    obtain ⟨r, hr, rfl⟩ := List.mem_map.mp hp
    exact h.draft_lt r hr
  rw [hmain] at hids hdrafts hlt hdlt ⊢
  have hnone : ∀ {β : Type} (id : ComposeId), (∅ : AList fun _ : ComposeId => β).lookup id = none :=
    fun id => AList.lookup_empty id
  exact {
    flight_le := fun id hne => absurd (hnone id) hne
    row_le := fun id hne => absurd (hnone id) hne
    row_lt := fun id row hlook => absurd ((hnone id).symm.trans hlook) (by simp)
    draft_lt := fun id entry d hlook => absurd ((hnone id).symm.trans hlook) (by simp)
    write := fun c hc => absurd hc (by simp [MainWindow.books])
    outbox_ids := hids
    outbox_lt := hlt
    drafts_ids := hdrafts
    drafts_lt := hdlt
    saved_lt := fun row id he => absurd he (by simp [MainWindow.books])
    enqueued_le := fun row id he => absurd he (by simp [MainWindow.books])
    event_lt := fun e he => absurd he (by simp [MainWindow.books])
    listed_lt := fun i hi => absurd hi (by simp [MainWindow.books])
    listed_eq := by
      rintro i (hi | ⟨e, he, -⟩)
      · exact absurd hi (by simp [MainWindow.books])
      · exact absurd he (by simp [MainWindow.books])
    listed_ids := fun e he => absurd he (by simp [MainWindow.books])
    order := List.Pairwise.nil
    untold := fun row id he => absurd he (by simp [MainWindow.books]) }

/-- Numbers are given once, in every run. -/
theorem numbered {ok : System → Action → Prop} {s : System} (h : machine.Reach ok s) :
    Numbered s.main.books :=
  Machine.Reach.invariant (P := fun s => Numbered s.main.books) (fun _ h0 => Numbered.init h0)
    (fun _ a _ hr hn _ hstep => Numbered.step (wired hr) hn (a := a) hstep) h

end System

end Esmail
