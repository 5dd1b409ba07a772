/-
# The draft rows of a message

A window's saves go to the row that its entry knows, and to a NEW row where it knows none: before the
first answer is there, and where the window continues a listed draft, of which its entry is never told.
And what settles a message deletes the rows that are known then.

So a message may get two rows (`saves_fill_two_rows`).  `one_draft_row` is about the runs in which each
save goes to the message's only row, and a message is settled where every row of it is known, or about to
be told (`tidies`): no message has two draft rows, and one that has been sent or discarded has no row at
all once every command has run and every answer has been handled.

`Ahead` is the tables as they will be when the queued commands have run, with the answers to saves that
are still to be handled; for what is queued cannot be taken back, and may be what makes the second row.
`Tidy` says of the tables after any first part of the queue that no message has two rows; and that an
entry waits for as many answers as will come to it, so that a row of a message that is done is told in the
end (`ToldLater`).

Each function of the main window has a lemma that it keeps `Tidy`, with what it needs of the step as a
hypothesis; `tidies` asks for that and no more.
-/
import Esmail.Outgoing.Labels
import Esmail.Outgoing.Orphans

namespace Esmail

open Transition

/-! ## 1. The tables, ahead of time -/

structure Ahead where
  outbox : List (Row × ComposeState)
  drafts : List (Row × ComposeState)
  nextOutbox : Row
  nextDraft : Row
  /-- Rows and ids of the saves whose answer is still to be handled. -/
  saved : List (Row × ComposeId)

def CacheEvent.saved : CacheEvent → Option (Row × ComposeId)
  | .draftSaved row id => some (row, id)
  | _ => none

namespace Ahead

def run (a : Ahead) : DbCommand → Ahead
  | .saveDraft (some row) id _ compose =>
    { a with
      drafts := a.drafts.map fun r => if r.1 = row then (row, compose) else r
      saved := a.saved ++ [(row, id)] }
  | .saveDraft none id _ compose =>
    { a with
      drafts := a.drafts ++ [(a.nextDraft, compose)]
      nextDraft := a.nextDraft + 1
      saved := a.saved ++ [(a.nextDraft, id)] }
  | .enqueueOutbox (some row) _ _ compose =>
    { a with outbox := a.outbox.map fun r => if r.1 = row then (row, compose) else r }
  | .enqueueOutbox none _ _ compose =>
    { a with outbox := a.outbox ++ [(a.nextOutbox, compose)], nextOutbox := a.nextOutbox + 1 }
  | .deleteDraft row => { a with drafts := a.drafts.filter fun r => r.1 ≠ row }
  | .markOutboxSent row | .deleteOutbox row => { a with outbox := a.outbox.filter fun r => r.1 ≠ row }
  | _ => a

/-- An answer that is handled meanwhile makes no other difference. -/
theorem foldl_run_saved (cs : List DbCommand) (a : Ahead) (x : Row × ComposeId) :
    cs.foldl run { a with saved := x :: a.saved } =
      { cs.foldl run a with saved := x :: (cs.foldl run a).saved } := by
  induction cs generalizing a with
  | nil => rfl
  | cons c cs ih =>
    have hrun : run { a with saved := x :: a.saved } c = { run a c with saved := x :: (run a c).saved } := by
      cases c with
      | saveDraft id _ _ _ => cases id <;> rfl
      | enqueueOutbox id _ _ _ => cases id <;> rfl
      | _ => rfl
    rw [List.foldl_cons, List.foldl_cons, hrun]
    exact ih (run a c)

end Ahead

namespace Books

variable {b b' : Books}

def now (b : Books) : Ahead :=
  ⟨b.outbox, b.drafts, b.nextOutbox, b.nextDraft, b.events.filterMap CacheEvent.saved⟩

def ahead (b : Books) : Ahead := b.writes.foldl Ahead.run b.now

theorem now_run (b : Books) (c : DbCommand) : (b.run c).now = b.now.run c := by
  cases c with
  | saveDraft id _ _ _ => cases id <;> simp [Books.run, now, Ahead.run, CacheEvent.saved]
  | enqueueOutbox id _ _ _ => cases id <;> simp [Books.run, now, Ahead.run, CacheEvent.saved]
  | _ => rfl

theorem now_foldl_run (cs : List DbCommand) (b : Books) :
    (cs.foldl Books.run b).now = cs.foldl Ahead.run b.now := by
  induction cs generalizing b with
  | nil => rfl
  | cons c cs ih => rw [List.foldl_cons, List.foldl_cons, ih, now_run]

/-- Row ids and compose ids stay the numbers they were when the commands have run. -/
theorem Numbered.ahead (h : Numbered b) : (b.ahead.drafts.map Prod.fst).Nodup ∧
    ∀ s ∈ b.ahead.saved, s.2 ≤ b.deliveries.lastId := by
  have hall := Numbered.runAll b.writes (b := b) h
  have hnow : ({ b.writes.foldl Books.run b with writes := [] } : Books).now = b.ahead :=
    now_foldl_run b.writes b
  refine ⟨?_, fun s hs => ?_⟩
  · rw [← hnow]
    exact hall.drafts_ids
  · rw [← hnow] at hs
    obtain ⟨e, he, hsaved⟩ := List.mem_filterMap.mp hs
    cases e with
    | draftSaved row id =>
      obtain rfl := Option.some.inj hsaved
      have hle := (hall.saved_lt row id he).2
      rw [show ({ b.writes.foldl Books.run b with writes := [] } : Books).deliveries = b.deliveries from
        (foldl_run_frame b.writes b).2.1] at hle
      exact hle
    | _ => exact absurd hsaved (by simp [CacheEvent.saved])

/-- A command is queued: it will be run last, or it was dropped. -/
theorem ahead_push (b : Books) (free : Nat) (c : DbCommand) :
    (b.push free c).ahead = if 0 < free then b.ahead.run c else b.ahead := by
  unfold push
  split
  · rw [ahead, List.foldl_append]
    rfl
  · rfl

/-! ## 2. Tidy books -/

/-- How many saves the entry waits for. -/
def savesOf (b : Books) (id : ComposeId) : Nat :=
  ((b.entries.lookup id).map Entry.savesPending).getD 0

/-- A row that will go: the answer to its save is still to come, and its entry is settled. -/
def ToldLater (b : Books) (row : Row) : Prop :=
  ∃ id, (row, id) ∈ b.ahead.saved ∧
    ∃ entry, b.entries.lookup id = some entry ∧ entry.settled = true

/-- The message of what a row holds. -/
def msgOf (r : Row × ComposeState) : Nat := r.2.stamp.msg

/-- No message has two draft rows, now or after any of the queued commands; an entry waits for the
answers that come to it; and a message that is done has no row but such as will go. -/
structure Tidy (b : Books) (done : List Nat) : Prop where
  one : ∀ k, (((b.writes.take k).foldl Ahead.run b.now).drafts.map msgOf).Nodup
  waits : ∀ id, (b.ahead.saved.filter fun s => s.2 = id).length ≤ b.savesOf id
  outbox : ∀ r ∈ b.ahead.outbox, msgOf r ∉ done
  drafts : ∀ r ∈ b.ahead.drafts, msgOf r ∈ done → b.ToldLater r.1

variable {done : List Nat}

theorem Tidy.one_ahead (h : Tidy b done) : (b.ahead.drafts.map msgOf).Nodup := by
  have hall := h.one b.writes.length
  rw [List.take_length] at hall
  exact hall

/-- The entries change, but none goes, is reopened, or waits for less. -/
theorem Tidy.keepEntries (h : Tidy b done) (hnow : b'.now = b.now) (hwrites : b'.writes = b.writes)
    (hentries : ∀ id entry, b.entries.lookup id = some entry →
      ∃ entry', b'.entries.lookup id = some entry' ∧ (entry.settled = true → entry'.settled = true) ∧
        entry.savesPending ≤ entry'.savesPending) : Tidy b' done := by
  have hahead : b'.ahead = b.ahead := by rw [ahead, ahead, hnow, hwrites]
  refine ⟨?_, ?_, ?_, ?_⟩
  · rw [hnow, hwrites]
    exact h.one
  · intro id
    rw [hahead]
    refine Nat.le_trans (h.waits id) ?_
    unfold savesOf
    cases hlook : b.entries.lookup id with
    | none => exact Nat.zero_le _
    | some entry =>
      obtain ⟨entry', hlook', -, hle⟩ := hentries id entry hlook
      rw [hlook']
      exact hle
  · rw [hahead]
    exact h.outbox
  · rw [hahead]
    intro r hr hdone
    obtain ⟨id, hsaved, entry, hlook, hsettled⟩ := h.drafts r hr hdone
    obtain ⟨entry', hlook', hstays, -⟩ := hentries id entry hlook
    exact ⟨id, hahead ▸ hsaved, entry', hlook', hstays hsettled⟩

theorem Tidy.sameEntries (h : Tidy b done) (hnow : b'.now = b.now) (hwrites : b'.writes = b.writes)
    (hentries : b'.entries = b.entries) : Tidy b' done :=
  h.keepEntries hnow hwrites fun _ entry hlook => ⟨entry, hentries ▸ hlook, fun hs => hs, Nat.le_refl _⟩

/-- The tables with one more command run, after any of those before it. -/
theorem one_concat {c : DbCommand} (h : ∀ k, (((b.writes.take k).foldl Ahead.run b.now).drafts.map
      msgOf).Nodup) (hc : ((b.ahead.run c).drafts.map msgOf).Nodup) (k : Nat) :
    ((((b.writes ++ [c]).take k).foldl Ahead.run b.now).drafts.map msgOf).Nodup := by
  rcases Nat.lt_or_ge b.writes.length k with hlt | hle
  · rw [List.take_of_length_le (by simpa using Nat.succ_le_of_lt hlt), List.foldl_append]
    exact hc
  · rw [List.take_append_of_le_length hle]
    exact h k

/-- A command that only deletes is queued. -/
theorem Tidy.pushDelete (h : Tidy b done) {c : DbCommand} (free : Nat)
    (hdrafts : ∀ a : Ahead, (a.run c).drafts.Sublist a.drafts)
    (houtbox : ∀ a : Ahead, ∀ r ∈ (a.run c).outbox, r ∈ a.outbox)
    (hsaved : ∀ a : Ahead, (a.run c).saved = a.saved) : Tidy (b.push free c) done := by
  have hahead := b.ahead_push free c
  by_cases hfree : 0 < free
  · rw [if_pos hfree] at hahead
    have hpush : b.push free c = { b with writes := b.writes ++ [c] } := if_pos hfree
    refine ⟨?_, ?_, ?_, ?_⟩
    · rw [hpush]
      exact one_concat h.one (h.one_ahead.sublist ((hdrafts _).map _))
    · intro id
      rw [hahead, hsaved, savesOf, push_entries]
      exact h.waits id
    · rw [hahead]
      exact fun r hr => h.outbox r (houtbox _ r hr)
    · rw [hahead]
      intro r hr hdone
      obtain ⟨id, hmem, hentry⟩ := h.drafts r ((hdrafts _).subset hr) hdone
      refine ⟨id, ?_, by rw [push_entries]; exact hentry⟩
      rw [hahead, hsaved]
      exact hmem
  · have hpush : b.push free c = b := if_neg hfree
    rw [hpush]
    exact h

theorem Tidy.pushDeleteDraft (h : Tidy b done) (free : Nat) (row : Row) :
    Tidy (b.push free (.deleteDraft row)) done :=
  h.pushDelete free (fun _ => List.filter_sublist) (fun _ _ hr => hr) fun _ => rfl

theorem Tidy.pushDeleteRow (h : Tidy b done) {delete : Row → DbCommand} (hdelete : Deletes delete)
    (free : Nat) (row : Row) : Tidy (b.push free (delete row)) done := by
  rcases hdelete with rfl | rfl
  · exact h.pushDelete free (fun _ => .refl _) (fun _ _ hr => List.mem_of_mem_filter hr) fun _ => rfl
  · exact h.pushDelete free (fun _ => .refl _) (fun _ _ hr => List.mem_of_mem_filter hr) fun _ => rfl

/-- A first failure of a message that is not done. -/
theorem Tidy.pushEnqueue (h : Tidy b done) (free : Nat) (id : ComposeId) (config : AccountId)
    {state : ComposeState} (hmsg : 0 < free → state.stamp.msg ∉ done) :
    Tidy (b.push free (.enqueueOutbox none id config state)) done := by
  have hahead := b.ahead_push free (.enqueueOutbox none id config state)
  by_cases hfree : 0 < free
  · rw [if_pos hfree] at hahead
    have hpush : b.push free (.enqueueOutbox none id config state) =
        { b with writes := b.writes ++ [.enqueueOutbox none id config state] } := if_pos hfree
    refine ⟨?_, ?_, ?_, ?_⟩
    · rw [hpush]
      exact one_concat h.one h.one_ahead
    · intro id'
      rw [hahead, savesOf, push_entries]
      exact h.waits id'
    · rw [hahead]
      intro r hr
      rcases List.mem_append.mp hr with hr | hr
      · exact h.outbox r hr
      · rw [List.mem_singleton.mp hr]
        exact hmsg hfree
    · rw [hahead]
      intro r hr hdone
      obtain ⟨id', hmem, hentry⟩ := h.drafts r hr hdone
      refine ⟨id', ?_, by rw [push_entries]; exact hentry⟩
      rw [hahead]
      exact hmem
  · have hpush : b.push free (.enqueueOutbox none id config state) = b := if_neg hfree
    rw [hpush]
    exact h

/-- An entry that waits for nothing goes. -/
theorem Tidy.forgetIfDone (h : Tidy b done) (id : ComposeId) : Tidy (b.forgetIfDone id) done := by
  unfold Books.forgetIfDone
  split
  · next entry hentry =>
    split
    · next hover =>
      simp only [Bool.and_eq_true, beq_iff_eq] at hover
      have hnothing : b.savesOf id = 0 := by
        rw [savesOf, hentry]
        exact hover.2
      refine ⟨h.one, fun id' => ?_, h.outbox, fun r hr hdone => ?_⟩
      · by_cases hid : id' = id
        · rw [hid]
          exact Nat.le_trans (h.waits id) (hnothing ▸ Nat.zero_le _)
        · refine Nat.le_trans (h.waits id') (Nat.le_of_eq ?_)
          unfold savesOf
          rw [AList.lookup_erase_ne hid]
      · obtain ⟨id', hsaved, entry', hlook, hsettled⟩ := h.drafts r hr hdone
        have hne : id' ≠ id := by
          rintro rfl
          have hwaits := h.waits id'
          rw [hnothing, Nat.le_zero, List.length_eq_zero_iff, List.filter_eq_nil_iff] at hwaits
          exact hwaits _ hsaved (by simp)
        exact ⟨id', hsaved, entry', (AList.lookup_erase_ne hne).trans hlook, hsettled⟩
    · exact h
  · exact h

theorem Tidy.windowClosed (h : Tidy b done) (id : ComposeId) : Tidy (b.windowClosed id) done := by
  unfold Books.windowClosed
  refine Tidy.forgetIfDone ?_ id
  split
  · next entry hentry =>
    refine h.keepEntries rfl rfl fun id' entry' hlook => ?_
    by_cases hid : id' = id
    · subst hid
      obtain rfl := Option.some.inj (hentry.symm.trans hlook)
      exact ⟨_, AList.lookup_insert _, fun hs => hs, Nat.le_refl _⟩
    · exact ⟨entry', (AList.lookup_insert_ne hid).trans hlook, fun hs => hs, Nat.le_refl _⟩
  · exact h

theorem Tidy.startCompose (h : Tidy b done)
    (hgiven : ∀ id, b.entries.lookup id ≠ none → id ≤ b.deliveries.lastId) (state : ComposeState)
    (opens : Bool) : Tidy (b.startCompose state opens) done := by
  cases opens with
  | false => exact h.sameEntries rfl rfl rfl
  | true =>
    refine h.keepEntries rfl rfl fun id entry hlook => ?_
    have hne : id ≠ b.deliveries.nextId.1 := by
      rintro rfl
      have hle := hgiven _ fun hnone => absurd (hlook.symm.trans hnone) (by simp)
      exact Nat.not_succ_le_self _ hle
    exact ⟨entry, (AList.lookup_insert_ne hne).trans hlook, fun hs => hs, Nat.le_refl _⟩

/-! ## 3. Saving -/

/-- A row that is updated to a message that no other row holds. -/
theorem nodup_update {rows : List (Row × ComposeState)} {row : Row} {c : ComposeState}
    (hids : (rows.map Prod.fst).Nodup) (hmsgs : (rows.map msgOf).Nodup)
    (hown : ∀ r ∈ rows, msgOf r = c.stamp.msg → r.1 = row) :
    ((rows.map fun r => if r.1 = row then (row, c) else r).map msgOf).Nodup := by
  rw [List.map_map]
  refine List.Nodup.map_on ?_ (List.Nodup.of_map _ hids)
  intro x hx y hy hxy
  simp only [Function.comp_apply] at hxy
  by_cases hxr : x.1 = row <;> by_cases hyr : y.1 = row
  · exact List.inj_on_of_nodup_map hids hx hy (hxr.trans hyr.symm)
  · rw [if_pos hxr, if_neg hyr] at hxy
    exact absurd (hown y hy hxy.symm) hyr
  · rw [if_neg hxr, if_pos hyr] at hxy
    exact absurd (hown x hx hxy) hxr
  · rw [if_neg hxr, if_neg hyr] at hxy
    exact List.inj_on_of_nodup_map hmsgs hx hy hxy

theorem lookup_setEntry (id : ComposeId) (entry : Entry) {id' : ComposeId} {entry' : Entry}
    (h : b.entries.lookup id' = some entry') :
    (id' = id ∧ (b.setEntry id entry).entries.lookup id' = some entry) ∨
      (id' ≠ id ∧ (b.setEntry id entry).entries.lookup id' = some entry') := by
  by_cases hid : id' = id
  · subst hid
    exact .inl ⟨rfl, AList.lookup_insert _⟩
  · exact .inr ⟨hid, (AList.lookup_insert_ne hid).trans h⟩

/-- What the save makes of the tables: one row of the message, and one answer more. -/
theorem run_saveDraft (a : Ahead) (draft : Option Row) (id : ComposeId) (account : Option AccountId)
    (c : ComposeState) :
    ∃ row, (a.run (.saveDraft draft id account c)).saved = a.saved ++ [(row, id)] ∧
      (a.run (.saveDraft draft id account c)).outbox = a.outbox ∧
      ∀ r ∈ (a.run (.saveDraft draft id account c)).drafts, r ∈ a.drafts ∨ r = (row, c) := by
  cases draft with
  | none =>
    refine ⟨a.nextDraft, rfl, rfl, fun r hr => ?_⟩
    rcases List.mem_append.mp hr with hr | hr
    · exact .inl hr
    · exact .inr (List.mem_singleton.mp hr)
  | some row =>
    refine ⟨row, rfl, rfl, fun r hr => ?_⟩
    obtain ⟨old, hold, rfl⟩ := List.mem_map.mp hr
    split
    · exact .inr rfl
    · exact .inl hold

theorem one_saveDraft {a : Ahead} (hids : (a.drafts.map Prod.fst).Nodup)
    (hmsgs : (a.drafts.map msgOf).Nodup) {draft : Option Row} {c : ComposeState}
    (hown : ∀ r ∈ a.drafts, msgOf r = c.stamp.msg → draft = some r.1) (id : ComposeId)
    (account : Option AccountId) : ((a.run (.saveDraft draft id account c)).drafts.map msgOf).Nodup := by
  cases draft with
  | none =>
    have hnew : c.stamp.msg ∉ a.drafts.map msgOf := by
      intro hmem
      obtain ⟨r, hr, he⟩ := List.mem_map.mp hmem
      exact absurd (hown r hr he) (by simp)
    have happend : ((a.drafts ++ [(a.nextDraft, c)]).map msgOf).Nodup := by
      rw [List.map_append]
      exact hmsgs.append (by simp) (List.disjoint_singleton.mpr hnew)
    exact happend
  | some row => exact nodup_update hids hmsgs fun r hr he => (Option.some.inj (hown r hr he)).symm

/-- The message's only row, if it has one, is where the save goes. -/
theorem Tidy.saveDraft (h : Tidy b done) (hnumbered : Numbered b) (free : Nat) {id : ComposeId}
    {entry : Entry} {state : ComposeState} (explicit : Bool)
    (hentry : b.entries.lookup id = some entry)
    (hown : hasContent state = true → 0 < free →
      (∀ r ∈ b.ahead.drafts, msgOf r = state.stamp.msg → entry.draft = some r.1) ∧
        (state.stamp.msg ∈ done → entry.settled = true)) :
    Tidy (b.saveDraft free id state explicit) done := by
  unfold Books.saveDraft
  rw [hentry]
  dsimp only
  split
  · exact h
  -- One save more that the entry waits for.
  · next hcontent =>
    generalize hentry' : { entry with savesPending := entry.savesPending + 1, announceSave := explicit }
      = entry'
    have hpending : entry'.savesPending = entry.savesPending + 1 := by rw [← hentry']
    have hsettled : entry'.settled = entry.settled := by rw [← hentry']
    have hkept : ∀ id' e, b.entries.lookup id' = some e → ∃ e',
        (b.setEntry id entry').entries.lookup id' = some e' ∧ (e.settled = true → e'.settled = true) ∧
          e.savesPending ≤ e'.savesPending := by
      intro id' e hlook
      rcases lookup_setEntry id entry' hlook with ⟨rfl, hnew⟩ | ⟨-, hold⟩
      · obtain rfl := Option.some.inj (hentry.symm.trans hlook)
        exact ⟨entry', hnew, fun hs => hsettled.trans hs, by omega⟩
      · exact ⟨e, hold, fun hs => hs, Nat.le_refl _⟩
    generalize hc : ({ state with draftId := entry.draft } : ComposeState) = c
    have hmsg : c.stamp.msg = state.stamp.msg := by rw [← hc]
    have hahead := (b.setEntry id entry').ahead_push free (.saveDraft entry.draft id state.accountId c)
    by_cases hfree : 0 < free
    · obtain ⟨hown, hdone⟩ := hown (by simpa using hcontent) hfree
      rw [if_pos hfree] at hahead
      have hpush : (b.setEntry id entry').push free (.saveDraft entry.draft id state.accountId c) =
          { b.setEntry id entry' with
            writes := b.writes ++ [.saveDraft entry.draft id state.accountId c] } := if_pos hfree
      obtain ⟨row, hsaved, houtbox, hdrafts⟩ :=
        run_saveDraft b.ahead entry.draft id state.accountId c
      have hahead' : ((b.setEntry id entry').push free
          (.saveDraft entry.draft id state.accountId c)).ahead =
            b.ahead.run (.saveDraft entry.draft id state.accountId c) := hahead
      refine ⟨?_, ?_, ?_, ?_⟩
      · rw [hpush]
        exact one_concat h.one
          (one_saveDraft hnumbered.ahead.1 h.one_ahead (hmsg ▸ hown) id state.accountId)
      · intro id'
        rw [hahead', hsaved, List.filter_append, List.length_append, savesOf, push_entries]
        have hwaits := h.waits id'
        unfold savesOf at hwaits
        by_cases hid : id' = id
        · subst hid
          rw [hentry] at hwaits
          rw [show (b.setEntry id' entry').entries.lookup id' = some entry' from AList.lookup_insert _]
          simp only [Option.map_some, Option.getD_some] at hwaits ⊢
          have hone : ([(row, id')].filter fun s => s.2 = id').length = 1 := by simp
          rw [hone, hpending]
          omega
        · have hnone : ([(row, id)].filter fun s => s.2 = id').length = 0 := by simp [Ne.symm hid]
          rw [hnone, show (b.setEntry id entry').entries.lookup id' = b.entries.lookup id' from
            AList.lookup_insert_ne hid]
          exact hwaits
      · rw [hahead', houtbox]
        exact h.outbox
      · rw [hahead']
        intro r hr hrdone
        rcases hdrafts r hr with hold | rfl
        · obtain ⟨id', hmem, e, hlook, hs⟩ := h.drafts r hold hrdone
          obtain ⟨e', hlook', hstays, -⟩ := hkept id' e hlook
          refine ⟨id', ?_, e', by rw [push_entries]; exact hlook', hstays hs⟩
          rw [hahead', hsaved]
          exact List.mem_append_left _ hmem
        · refine ⟨id, ?_, entry', ?_, hsettled.trans (hdone (hmsg ▸ hrdone))⟩
          · rw [hahead', hsaved]
            exact List.mem_append_right _ (List.mem_singleton_self _)
          · rw [push_entries]
            exact AList.lookup_insert _
    · have hpush : (b.setEntry id entry').push free (.saveDraft entry.draft id state.accountId c) =
          b.setEntry id entry' := if_neg hfree
      rw [hpush]
      exact h.keepEntries rfl rfl hkept

/-! ## 4. Settling -/

/-- A message is done, and has no row but such as will go. -/
theorem Tidy.finish (h : Tidy b done) {m : Nat} (houtbox : ∀ r ∈ b.ahead.outbox, msgOf r ≠ m)
    (hdrafts : ∀ r ∈ b.ahead.drafts, msgOf r = m → b.ToldLater r.1) : Tidy b (m :: done) := by
  refine ⟨h.one, h.waits, fun r hr hmem => ?_, fun r hr hmem => ?_⟩
  · rcases List.mem_cons.mp hmem with he | hmem
    · exact houtbox r hr he
    · exact h.outbox r hr hmem
  · rcases List.mem_cons.mp hmem with he | hmem
    · exact hdrafts r hr he
    · exact h.drafts r hr hmem

/-- A row that will go once `id` is settled: its save is still to be answered. -/
def ToldBy (b : Books) (id : ComposeId) (row : Row) : Prop :=
  ∃ id', (row, id') ∈ b.ahead.saved ∧
    ∃ entry, b.entries.lookup id' = some entry ∧ (id' = id ∨ entry.settled = true)

/-- The draft that an id knows. -/
def draftOf (b : Books) (id : ComposeId) : Option Row := (b.entries.lookup id).bind Entry.draft

theorem Tidy.settle (h : Tidy b done) {free : Nat} {id : ComposeId} {m : Nat}
    (houtbox : ∀ r ∈ b.ahead.outbox, msgOf r ≠ m)
    (hdrafts : ∀ r ∈ b.ahead.drafts, msgOf r = m →
      (b.draftOf id = some r.1 ∧ 0 < free) ∨ b.ToldBy id r.1) :
    Tidy (b.settle free id) (m :: done) := by
  unfold Books.settle
  unfold draftOf at hdrafts
  cases hentry : b.entries.lookup id with
  | none =>
    refine h.finish houtbox fun r hr he => ?_
    rcases hdrafts r hr he with ⟨hdraft, -⟩ | ⟨id', hsaved, entry, hlook, hset⟩
    · rw [hentry] at hdraft
      exact absurd hdraft (by simp)
    · refine ⟨id', hsaved, entry, hlook, hset.resolve_left ?_⟩
      rintro rfl
      exact absurd (hentry.symm.trans hlook) (by simp)
  | some entry =>
    rw [hentry] at hdrafts
    dsimp only
    generalize hentry' : { entry with settled := true, draft := none } = entry'
    have hsettled : entry'.settled = true := by rw [← hentry']
    have hkeep : Tidy (b.setEntry id entry') done := by
      refine h.keepEntries rfl rfl fun id' e hlook => ?_
      rcases lookup_setEntry id entry' hlook with ⟨rfl, hnew⟩ | ⟨-, hold⟩
      · obtain rfl := Option.some.inj (hentry.symm.trans hlook)
        exact ⟨entry', hnew, fun _ => hsettled, by rw [← hentry']⟩
      · exact ⟨e, hold, fun hs => hs, Nat.le_refl _⟩
    have htold : ∀ row, b.ToldBy id row → (b.setEntry id entry').ToldLater row := by
      rintro row ⟨id', hsaved, e, hlook, hset⟩
      rcases lookup_setEntry id entry' hlook with ⟨-, hnew⟩ | ⟨hne, hold⟩
      · exact ⟨id', hsaved, entry', hnew, hsettled⟩
      · exact ⟨id', hsaved, e, hold, hset.resolve_left hne⟩
    cases hdraft : entry.draft with
    | none =>
      refine hkeep.finish houtbox fun r hr he => htold _ ((hdrafts r hr he).resolve_left ?_)
      rw [Option.bind_some, hdraft]
      simp
    | some draft =>
      dsimp only
      have hahead := (b.setEntry id entry').ahead_push free (.deleteDraft draft)
      by_cases hfree : 0 < free
      · rw [if_pos hfree] at hahead
        refine (hkeep.pushDeleteDraft free draft).finish ?_ ?_
        · rw [hahead]
          exact houtbox
        · rw [hahead]
          intro r hr he
          obtain ⟨hr, hother⟩ := List.mem_filter.mp hr
          rcases hdrafts r hr he with ⟨hknown, -⟩ | htellby
          · rw [Option.bind_some, hdraft, Option.some.injEq] at hknown
            exact absurd hknown.symm (of_decide_eq_true hother)
          · obtain ⟨id', hsaved, hset⟩ := htold _ htellby
            refine ⟨id', ?_, by rw [push_entries]; exact hset⟩
            rw [hahead]
            exact hsaved
      · rw [show (b.setEntry id entry').push free (.deleteDraft draft) = b.setEntry id entry' from
          if_neg hfree]
        exact hkeep.finish houtbox fun r hr he => htold _ ((hdrafts r hr he).resolve_left
          fun hknown => hfree hknown.2)

/-- A message is discarded or delivered: the rows that are known are deleted. -/
theorem Tidy.endSend (h : Tidy b done) {delete : Row → DbCommand} (hdelete : Deletes delete)
    {free : Nat} {id : ComposeId} {m : Nat}
    (houtbox : ∀ r ∈ b.ahead.outbox, msgOf r = m →
      b.deliveries.outboxRows.lookup id = some r.1 ∧ 0 < free)
    (hdrafts : ∀ r ∈ b.ahead.drafts, msgOf r = m →
      (b.draftOf id = some r.1 ∧ (b.deliveries.outboxRows.lookup id).toList.length < free) ∨
        b.ToldBy id r.1) :
    Tidy (b.endSend delete free id) (m :: done) := by
  have hledger : Tidy (b.withDeliveries (b.deliveries.forget id).2) done := h.sameEntries rfl rfl rfl
  unfold Books.endSend
  cases hrow : b.deliveries.outboxRows.lookup id with
  | none =>
    rw [hrow] at houtbox hdrafts
    refine hledger.settle (fun r hr he => ?_) hdrafts
    exact absurd (houtbox r hr he).1 (by simp)
  | some row =>
    rw [hrow] at houtbox hdrafts
    dsimp only
    have hentries : ((b.withDeliveries (b.deliveries.forget id).2).push free (delete row)).entries =
        b.entries := push_entries ..
    have hahead := (b.withDeliveries (b.deliveries.forget id).2).ahead_push free (delete row)
    have hrows : ((b.withDeliveries (b.deliveries.forget id).2).push free (delete row)).ahead =
        { b.ahead with
          outbox := b.ahead.outbox.filter fun r => decide (0 < free → r.1 ≠ row) } := by
      rw [hahead]
      by_cases hfree : 0 < free
      · simp only [hfree, if_true, forall_const]
        rcases hdelete with rfl | rfl <;> rfl
      · simp only [hfree, if_false, false_implies, decide_true, List.filter_true]
        rfl
    refine (hledger.pushDeleteRow hdelete free row).settle ?_ ?_
    · rw [hrows]
      intro r hr he
      obtain ⟨hr, hother⟩ := List.mem_filter.mp hr
      obtain ⟨hknown, hfree⟩ := houtbox r hr he
      exact of_decide_eq_true hother hfree (Option.some.inj hknown).symm
    · rw [hrows]
      intro r hr he
      rcases hdrafts r hr he with ⟨hknown, hroom⟩ | ⟨id', hsaved, hset⟩
      · refine .inl ⟨?_, Nat.sub_pos_of_lt hroom⟩
        unfold draftOf
        rw [hentries]
        exact hknown
      · refine .inr ⟨id', ?_, by rw [hentries]; exact hset⟩
        rw [hrows]
        exact hsaved

/-! ## 5. Answers -/

theorem ahead_popSaved {row : Row} {id : ComposeId} {rest : List CacheEvent}
    (hevents : b.events = .draftSaved row id :: rest) (cs : List DbCommand) :
    cs.foldl Ahead.run b.now =
      { cs.foldl Ahead.run { b with events := rest }.now with
        saved := (row, id) :: (cs.foldl Ahead.run { b with events := rest }.now).saved } := by
  rw [← Ahead.foldl_run_saved, now, hevents]
  rfl

/-- The answer to a save is handled: the entry waits for one less. -/
theorem Tidy.popSaved (h : Tidy b done) {row : Row} {id : ComposeId} {rest : List CacheEvent}
    {entry entry' : Entry} (hevents : b.events = .draftSaved row id :: rest)
    (hentry : b.entries.lookup id = some entry) (hpending : entry'.savesPending = entry.savesPending - 1)
    (hsettled : entry'.settled = entry.settled)
    (hgone : entry.settled = true → ∀ r ∈ b.ahead.drafts, r.1 ≠ row) :
    Tidy ({ b with events := rest }.setEntry id entry') done := by
  have hahead := ahead_popSaved hevents
  have hall : b.ahead = _ := hahead b.writes
  refine ⟨fun k => ?_, fun id' => ?_, ?_, fun r hr hmem => ?_⟩
  · have hone := h.one k
    rw [hahead] at hone
    exact hone
  · have hwaits := h.waits id'
    rw [hall, savesOf] at hwaits
    unfold savesOf
    by_cases hid : id' = id
    · subst hid
      rw [hentry, List.filter_cons_of_pos (by simp), List.length_cons] at hwaits
      rw [show (({ b with events := rest } : Books).setEntry id' entry').entries.lookup id' =
        some entry' from AList.lookup_insert _]
      simp only [Option.map_some, Option.getD_some] at hwaits ⊢
      rw [hpending]
      exact Nat.le_sub_of_add_le hwaits
    · rw [List.filter_cons_of_neg (by simpa using Ne.symm hid)] at hwaits
      rw [show (({ b with events := rest } : Books).setEntry id entry').entries.lookup id' =
        b.entries.lookup id' from AList.lookup_insert_ne hid]
      exact hwaits
  · have houtbox := h.outbox
    rw [hall] at houtbox
    exact houtbox
  · have hdrafts := h.drafts r (by rw [hall]; exact hr) hmem
    obtain ⟨id', hsaved, e, hlook, hset⟩ := hdrafts
    rw [hall] at hsaved
    rcases List.mem_cons.mp hsaved with he | hlater
    · obtain ⟨hrow, rfl⟩ := Prod.mk.inj he
      obtain rfl := Option.some.inj (hentry.symm.trans hlook)
      exact absurd hrow (hgone hset r (by rw [hall]; exact hr))
    · rcases lookup_setEntry id entry' hlook with ⟨rfl, hnew⟩ | ⟨-, hold⟩
      · obtain rfl := Option.some.inj (hentry.symm.trans hlook)
        exact ⟨id', hlater, entry', hnew, hsettled.trans hset⟩
      · exact ⟨id', hlater, e, hold, hset⟩

theorem Tidy.draftSaved (h : Tidy b done) {free : Nat} {row : Row} {id : ComposeId}
    {rest : List CacheEvent} (hevents : b.events = .draftSaved row id :: rest)
    (hroom : ∀ entry, b.entries.lookup id = some entry → entry.settled = true →
      ∀ r ∈ b.ahead.drafts, r.1 = row → 0 < free) :
    Tidy ({ b with events := rest }.draftSaved free row id) done := by
  unfold Books.draftSaved
  rw [show ({ b with events := rest } : Books).entries = b.entries from rfl]
  cases hentry : b.entries.lookup id with
  | none =>
    -- An id that saves are answered to has an entry, which waits for them.
    have hwaits := h.waits id
    have hall : b.ahead = _ := ahead_popSaved hevents b.writes
    rw [hall, savesOf, hentry, List.filter_cons_of_pos (by simp)] at hwaits
    exact absurd hwaits (Nat.not_succ_le_zero _)
  | some entry =>
    dsimp only
    refine Tidy.forgetIfDone ?_ id
    split
    · next hsettled =>
      by_cases hfree : 0 < free
      · have hdeleted := h.pushDeleteDraft free row
        have hahead := b.ahead_push free (.deleteDraft row)
        rw [if_pos hfree] at hahead
        have hpush : b.push free (.deleteDraft row) =
            { b with writes := b.writes ++ [.deleteDraft row] } := if_pos hfree
        rw [hpush] at hdeleted hahead
        rw [show ∀ e, (({ b with events := rest } : Books).setEntry id e).push free (.deleteDraft row) =
          ({ b with writes := b.writes ++ [.deleteDraft row], events := rest } : Books).setEntry id e
            from fun e => if_pos hfree]
        refine hdeleted.popSaved hevents hentry rfl rfl fun _ r hr => ?_
        rw [hahead] at hr
        exact of_decide_eq_true (List.mem_filter.mp hr).2
      · rw [show ∀ e, (({ b with events := rest } : Books).setEntry id e).push free (.deleteDraft row) =
          ({ b with events := rest } : Books).setEntry id e from fun e => if_neg hfree]
        exact h.popSaved hevents hentry rfl rfl fun _ r hr he => hfree (hroom entry hentry hsettled r hr he)
    · next hopen =>
      exact h.popSaved hevents hentry rfl rfl fun hset => absurd hset hopen

/-- Any other answer is taken. -/
theorem Tidy.popOther (h : Tidy b done) {e : CacheEvent} {rest : List CacheEvent}
    (hevents : b.events = e :: rest) (he : e.saved = none) : Tidy { b with events := rest } done := by
  refine h.sameEntries ?_ rfl rfl
  rw [now, now, hevents, List.filterMap_cons_none he]

/-- The actor answers to a command that only reads. -/
theorem Tidy.answers (h : Tidy b done) {es : List CacheEvent} (hes : b.Answer es) :
    Tidy { b with events := b.events ++ es } done := by
  have hnone : es.filterMap CacheEvent.saved = [] := by cases hes <;> rfl
  refine h.sameEntries ?_ rfl rfl
  rw [now, now, List.filterMap_append, hnone, List.append_nil]

/-- The actor runs the next command that writes. -/
theorem Tidy.run (h : Tidy b done) {c : DbCommand} {ws : List DbCommand}
    (hwrites : b.writes = c :: ws) : Tidy ({ b with writes := ws }.run c) done := by
  have hnow : ({ b with writes := ws }.run c).now = b.now.run c := now_run _ c
  have hrest : ({ b with writes := ws }.run c).writes = ws := by rw [run_writes]
  have hentries : ({ b with writes := ws }.run c).entries = b.entries := (run_frame _ c).1
  have hahead : ({ b with writes := ws }.run c).ahead = b.ahead := by
    rw [ahead, ahead, hnow, hrest, hwrites]
    rfl
  refine ⟨fun k => ?_, fun id => ?_, ?_, ?_⟩
  · rw [hnow, hrest]
    have hone := h.one (k + 1)
    rw [hwrites] at hone
    exact hone
  · rw [hahead, savesOf, hentries]
    exact h.waits id
  · rw [hahead]
    exact h.outbox
  · rw [hahead]
    intro r hr hmem
    obtain ⟨id, hsaved, hset⟩ := h.drafts r hr hmem
    exact ⟨id, by rw [hahead]; exact hsaved, by rw [hentries]; exact hset⟩

/-- The core is replaced where no row waits for an answer. -/
theorem Tidy.reload (h : Tidy b done) (hdrafts : ∀ r ∈ b.ahead.drafts, msgOf r ∉ done)
    (accounts : List AccountId) : Tidy (b.reload accounts) done := by
  have hrun := now_foldl_run b.writes b
  have houtbox : (b.writes.foldl Books.run b).now.outbox = b.ahead.outbox := congrArg Ahead.outbox hrun
  have hsame : (b.writes.foldl Books.run b).now.drafts = b.ahead.drafts := congrArg Ahead.drafts hrun
  constructor
  · intro k
    rw [show (b.reload accounts).writes = [] from rfl, List.take_nil]
    have hone := h.one_ahead
    rw [← hsame] at hone
    exact hone
  · exact fun id => Nat.zero_le _
  · have hnone := h.outbox
    rw [← houtbox] at hnone
    exact hnone
  · rw [← hsame] at hdrafts
    exact fun r hr hdone => absurd hdone (hdrafts r hr)

/-! ## 6. Failures -/

theorem Tidy.outcomeFailed (h : Tidy b done) (free : Nat) {id : ComposeId}
    (hfirst : ∀ flight, b.deliveries.inFlight.lookup id = some flight →
      b.deliveries.outboxRows.lookup id = none → 0 < free → flight.state.stamp.msg ∉ done) :
    Tidy (b.outcomeFailed free id) done := by
  have hledger : Tidy (b.failedSend id) done := h.sameEntries rfl rfl rfl
  have hcases := b.outcomeFailed_cases free id
  generalize b.outcomeFailed free id = b' at hcases ⊢
  cases hcases with
  | unknown => exact h
  | backoff => exact hledger
  | homeless => exact hledger
  | enqueued hflight hrow => exact hledger.pushEnqueue free id _ (hfirst _ hflight hrow)

/-- The outbox timer: each retry owns its row, so that none is enqueued. -/
theorem Tidy.outboxDue {s : MainWindow} (h : Tidy s.books done) (refusal : ComposeId → Option String)
    (items : List OutboxItem) : Tidy (s.outboxDue refusal items).books done := by
  refine (s.outboxDue_induction (P := fun retries b => Tidy b done ∧
    ∀ retry ∈ retries, b.deliveries.outboxRows.lookup retry.id ≠ none) ?_ ?_ refusal items ?_).1
  · rintro retry rest b free ⟨hb, howned⟩
    refine ⟨hb.outcomeFailed free fun _ _ hrow _ => ?_, fun r hr => ?_⟩
    · exact absurd hrow (howned retry List.mem_cons_self)
    · rw [(outcomeFailed_facts b free retry.id).2.1]
      exact howned r (List.mem_cons_of_mem _ hr)
  · rintro retry rest b config ⟨hb, howned⟩
    exact ⟨hb.sameEntries rfl rfl rfl, fun r hr => howned r (List.mem_cons_of_mem _ hr)⟩
  · refine ⟨h.sameEntries rfl rfl rfl, fun retry hretry => ?_⟩
    exact ((Deliveries.retryAll_spec s.accountIndex _ s.books.deliveries).2 retry hretry).1

/-! ## 7. What the runs must keep to -/

/-- A save goes to the message's only row, and a message that is done is only saved where the answer
will have the row deleted; but a save of nothing is none, and a full queue drops it. -/
def maySave (b : Books) (done : List Nat) (free : Nat) (id : ComposeId) (state : ComposeState) : Bool :=
  (b.entries.lookup id).all fun entry => !hasContent state || free = 0 ||
    (b.ahead.drafts.all fun r => msgOf r ≠ state.stamp.msg || entry.draft = some r.1) &&
      (state.stamp.msg ∉ done || entry.settled)

theorem maySave_spec {free : Nat} {id : ComposeId} {entry : Entry} {state : ComposeState}
    (hentry : b.entries.lookup id = some entry) (hmay : b.maySave done free id state = true)
    (hcontent : hasContent state = true) (hfree : 0 < free) :
    (∀ r ∈ b.ahead.drafts, msgOf r = state.stamp.msg → entry.draft = some r.1) ∧
      (state.stamp.msg ∈ done → entry.settled = true) := by
  rw [maySave, hentry, Option.all_some, hcontent, decide_eq_false (Nat.ne_of_gt hfree)] at hmay
  simp only [Bool.not_true, Bool.or_self, Bool.false_or, Bool.and_eq_true, List.all_eq_true,
    Bool.or_eq_true, decide_eq_true_eq] at hmay
  obtain ⟨hown, hdone⟩ := hmay
  exact ⟨fun r hr he => (hown r hr).resolve_left fun hne => hne he,
    fun hmem => hdone.resolve_left fun hne => hne hmem⟩

/-- A message is settled where each row of it is known, and the queue has room to delete it, or else its
save is still to be answered. -/
def maySettle (b : Books) (free : Nat) (id : ComposeId) (m : Nat) : Bool :=
  (b.ahead.outbox.all fun r => msgOf r ≠ m ||
      b.deliveries.outboxRows.lookup id = some r.1 && 0 < free) &&
    b.ahead.drafts.all fun r => msgOf r ≠ m ||
      (b.draftOf id = some r.1 && (b.deliveries.outboxRows.lookup id).toList.length < free ||
        b.ahead.saved.any fun s => s.1 = r.1 &&
          (b.entries.lookup s.2).any fun entry => s.2 = id || entry.settled)

theorem Tidy.ends (h : Tidy b done) {delete : Row → DbCommand} (hdelete : Deletes delete) {free : Nat}
    {id : ComposeId} {m : Nat} (hmay : b.maySettle free id m = true) :
    Tidy (b.endSend delete free id) (m :: done) := by
  simp only [maySettle, Bool.and_eq_true, decide_eq_true_eq, List.all_eq_true, Bool.or_eq_true,
    List.any_eq_true] at hmay
  obtain ⟨houtbox, hdrafts⟩ := hmay
  refine h.endSend hdelete (fun r hr he => (houtbox r hr).resolve_left (fun hne => hne he)) ?_
  intro r hr he
  rcases hdrafts r hr with hne | hknown | ⟨⟨row, id'⟩, hsaved, hrow, hentry⟩
  · exact absurd he hne
  · exact .inl hknown
  · obtain rfl : row = r.1 := hrow
    obtain ⟨entry, hlook, hset⟩ := (Option.any_eq_true _ _).mp hentry
    refine .inr ⟨id', hsaved, entry, hlook, ?_⟩
    simpa using hset

end Books

/-- The messages that have been sent or discarded. -/
structure Finished where
  sys : System
  done : List Nat

namespace Finished

/-- What a step makes of them. -/
def record (s : System) (done : List Nat) : System.Action → List Nat
  | .handleRequest _ =>
    match s.requests with
    | (id, .discard) :: _ => (s.main.entries.lookup id).toList.map Entry.msg ++ done
    | _ => done
  | .handleOutcome =>
    match s.main.outcomes with
    | .sent id :: _ =>
      (s.main.deliveries.inFlight.lookup id).toList.map (fun flight => flight.state.stamp.msg) ++ done
    | _ => done
  | _ => done

def machine : Machine Finished System.Action :=
  ⟨fun t => System.Started t.sys ∧ t.done = [],
    fun t a => (t.sys.step a).map fun s' => ⟨s', record t.sys t.done a⟩⟩

/-- When a step keeps the drafts tidy. -/
def tidies (t : Finished) : System.Action → Bool
  | .handleRequest _ =>
    match t.sys.requests with
    | (id, .saveDraft state _) :: _ => t.sys.main.books.maySave t.done t.sys.main.free id state
    | (id, .discard) :: _ =>
      (t.sys.main.entries.lookup id).all fun entry =>
        t.sys.main.books.maySettle t.sys.main.free id entry.msg
    | _ => true
  | .handleEvent _ _ =>
    match t.sys.main.events with
    | .draftSaved row id :: _ =>
      (t.sys.main.entries.lookup id).all fun entry => !entry.settled || 0 < t.sys.main.free ||
        t.sys.main.books.ahead.drafts.all fun r => r.1 ≠ row
    | _ => true
  | .handleOutcome =>
    match t.sys.main.outcomes with
    | .sent id :: _ =>
      (t.sys.main.deliveries.inFlight.lookup id).all fun flight =>
        t.sys.main.books.maySettle t.sys.main.free id flight.state.stamp.msg
    | .error id _ :: _ =>
      (t.sys.main.deliveries.inFlight.lookup id).all fun flight =>
        (t.sys.main.deliveries.outboxRows.lookup id).isSome || t.sys.main.free = 0 ||
          flight.state.stamp.msg ∉ t.done
    | [] => true
  -- The answers to the saves are lost with the core, so that no row may wait for one.
  | .reload _ => t.sys.main.books.ahead.drafts.all fun r => Books.msgOf r ∉ t.done
  | _ => true

theorem sys_reach {ok : Finished → System.Action → Prop} {t : Finished} (h : machine.Reach ok t) :
    System.machine.Reach Machine.any t.sys := by
  refine h.forget Finished.sys ?_ ?_
  · exact fun _ h0 => h0.1
  · intro t a t' hst
    obtain ⟨s', hstep, rfl⟩ := Option.map_eq_some_iff.mp hst
    exact hstep

open Books

theorem tidy_handleRequest {t : Finished} (hr : System.machine.Reach Machine.any t.sys)
    {refusal : Option String} (h : Tidy t.sys.main.books t.done)
    (hok : tidies t (.handleRequest refusal) = true) {s' : System}
    (hstep : t.sys.step (.handleRequest refusal) = some s') :
    Tidy s'.main.books (record t.sys t.done (.handleRequest refusal)) := by
  have hwired := System.wired hr
  obtain ⟨id, r, rest, hrequests, rfl⟩ := System.of_step_handleRequest hstep
  simp only [record, tidies, hrequests] at hok ⊢
  cases r with
  | send state =>
    rcases t.sys.main.books_sendMessage refusal id state with heq | ⟨account, config, -, heq⟩
    · exact heq ▸ h
    · have hhand : Tidy ((t.sys.main.books.hand id config state).withDeliveries
          (t.sys.main.books.deliveries.begin id account state)) t.done := h.sameEntries rfl rfl rfl
      exact heq ▸ hhand
  | saveDraft state explicit =>
    have hbooks := t.sys.main.books_saveDraft id state explicit
    cases hentry : t.sys.main.books.entries.lookup id with
    | none =>
      rw [Books.saveDraft, hentry] at hbooks
      exact hbooks ▸ h
    | some entry =>
      have hsave := h.saveDraft (System.numbered hr) t.sys.main.free explicit hentry
        (maySave_spec hentry hok)
      exact hbooks ▸ hsave
  | discard =>
    obtain ⟨m, ⟨entry, hentry, -, -⟩, -⟩ := hwired.request _ _ (hrequests ▸ List.mem_cons_self)
    have hlook : t.sys.main.entries.lookup id = some entry := hentry
    dsimp only at hok ⊢
    rw [hlook] at hok ⊢
    have hends := h.ends (.inr rfl) hok
    exact (t.sys.main.books_discardMessage id).symm ▸ hends
  | closed =>
    have hclosed := h.windowClosed id
    exact (t.sys.main.books_windowClosed id).symm ▸ hclosed

theorem tidy_handleOutcome {t : Finished} (h : Tidy t.sys.main.books t.done)
    (hok : tidies t .handleOutcome = true) {s' : System}
    (hstep : t.sys.step .handleOutcome = some s') :
    Tidy s'.main.books (record t.sys t.done .handleOutcome) := by
  obtain ⟨o, rest, houtcomes, rfl⟩ := System.of_step_handleOutcome hstep
  simp only [record, tidies, houtcomes] at hok ⊢
  have hpop : Tidy { t.sys.main.books with outcomes := rest } t.done := h.sameEntries rfl rfl rfl
  cases o with
  | sent id =>
    have hbooks := MainWindow.books_outcomeSent { t.sys.main with outcomes := rest } id
    dsimp only at hok ⊢
    cases hflight : t.sys.main.deliveries.inFlight.lookup id with
    | none =>
      have hnone : ({ t.sys.main with outcomes := rest } : MainWindow).books.outcomeSent
          ({ t.sys.main with outcomes := rest } : MainWindow).free id =
            { t.sys.main.books with outcomes := rest } := by
        unfold Books.outcomeSent
        rw [Deliveries.delivered_none (d := ({ t.sys.main with outcomes := rest } :
          MainWindow).books.deliveries) hflight]
        rfl
      exact (hbooks.trans hnone).symm ▸ hpop
    | some flight =>
      rw [hflight] at hok
      have hends : Tidy ({ t.sys.main.books with outcomes := rest }.endSend .markOutboxSent
          t.sys.main.free id) (flight.state.stamp.msg :: t.done) := hpop.ends (.inl rfl) hok
      exact (hbooks.trans (outcomeSent_eq hflight)).symm ▸ hends
  | error id error =>
    have hfailed : Tidy ({ t.sys.main.books with outcomes := rest }.outcomeFailed t.sys.main.free id)
        t.done := by
      refine hpop.outcomeFailed t.sys.main.free fun flight hflight hrow hfree => ?_
      have hlook : t.sys.main.deliveries.inFlight.lookup id = some flight := hflight
      have hnone : t.sys.main.deliveries.outboxRows.lookup id = none := hrow
      dsimp only at hok
      rw [hlook, Option.all_some, hnone, decide_eq_false (Nat.ne_of_gt hfree)] at hok
      simpa using hok
    exact (MainWindow.books_outcomeFailed { t.sys.main with outcomes := rest } id error).symm ▸
      hfailed

theorem tidy_effect {s : System} {a : System.Action} {b' : Books} {delivered' : List Stamp} {next' : Nat}
    {done : List Nat} (hwired : s.Wired) (h : Tidy s.main.books done)
    (hok : tidies ⟨s, done⟩ a = true) (hrequest : ∀ refusal, a ≠ .handleRequest refusal)
    (houtcome : a ≠ .handleOutcome) (heffect : System.Effect s a b' delivered' next') :
    Tidy b' done := by
  cases heffect with
  | quiet => exact h
  | compose => exact h.startCompose hwired.given _ _
  | send => exact absurd rfl (hrequest _)
  | save => exact absurd rfl (hrequest _)
  | discard => exact absurd rfl (hrequest _)
  | closed => exact absurd rfl (hrequest _)
  | sent => exact absurd rfl houtcome
  | failed => exact absurd rfl houtcome
  | @draftSaved _ _ row id rest hevents =>
    have hlist : s.main.events = .draftSaved row id :: rest := hevents
    simp only [tidies, hlist] at hok
    refine h.draftSaved hevents fun entry hentry hsettled r hr he => ?_
    have hlook : s.main.entries.lookup id = some entry := hentry
    rw [hlook, Option.all_some, hsettled] at hok
    simp only [Bool.not_true, Bool.false_or, Bool.or_eq_true, decide_eq_true_eq, List.all_eq_true] at hok
    exact hok.resolve_right fun hother => hother r hr he
  | outboxEnqueued hevents => exact (h.popOther hevents rfl).sameEntries rfl rfl rfl
  | @due _ _ items rest hevents =>
    exact Tidy.outboxDue (s := { s.main with events := rest }) (h.popOther hevents rfl) _ items
  | listed hevents => exact (h.popOther hevents rfl).sameEntries rfl rfl rfl
  | loaded hevents => exact (h.popOther hevents rfl).startCompose hwired.given _ _
  | told hevents he =>
    refine h.popOther hevents ?_
    rcases he with rfl | rfl <;> rfl
  | deleteDraft => exact h.pushDeleteDraft _ _
  | deleteOutbox => exact h.pushDeleteRow (.inr rfl) _ _
  | @edit _ opens item =>
    have hlist : Tidy { s.main.books with
        listed := s.main.books.listed.eraseP fun i => i.id = item.id } done := h.sameEntries rfl rfl rfl
    refine (hlist.pushDeleteRow (.inr rfl) s.main.free item.id).startCompose ?_ _ _
    rw [push_entries, push_deliveries]
    exact hwired.given
  | retry => exact h.outboxDue _ _
  | write hwrites => exact h.run hwrites
  | read hanswer => exact h.answers hanswer
  | mail => exact h.sameEntries rfl rfl rfl
  | reload =>
    simp only [tidies, List.all_eq_true, decide_eq_true_eq] at hok
    exact h.reload hok _

theorem tidy_step {t t' : Finished} (hr : System.machine.Reach Machine.any t.sys) {a : System.Action}
    (h : Tidy t.sys.main.books t.done) (hok : tidies t a = true) (hst : machine.step t a = some t') :
    Tidy t'.sys.main.books t'.done := by
  obtain ⟨s', hstep, rfl⟩ := Option.map_eq_some_iff.mp hst
  cases a with
  | handleRequest refusal => exact tidy_handleRequest hr h hok hstep
  | handleOutcome => exact tidy_handleOutcome h hok hstep
  | _ => exact tidy_effect (System.wired hr) h hok (by simp) (by simp) (System.effect hstep)

theorem tidy_init {t : Finished} (hstart : System.Started t.sys) (hdone : t.done = []) :
    Tidy t.sys.main.books t.done := by
  have hmsgs : (t.sys.main.books.drafts.map msgOf).Nodup := by
    have hnodup := hstart.msgs
    rw [System.rowStamps, List.map_append] at hnodup
    simpa [MainWindow.books, DraftRow.held, msgOf, Function.comp_def] using hnodup.of_append_left
  obtain ⟨accounts, db, hmain⟩ := hstart.main
  rw [hmain] at hmsgs
  rw [hdone, hmain]
  constructor
  · intro k
    rw [show (MainWindow.books { accounts := accounts, db := db }).writes = [] from rfl, List.take_nil]
    exact hmsgs
  · exact fun id => Nat.zero_le _
  · exact fun r _ => List.not_mem_nil
  · exact fun r _ hmem => absurd hmem List.not_mem_nil

/-- No run whose steps all keep the drafts tidy leaves a message two rows. -/
theorem tidy_of_reach {t : Finished} (h : machine.Reach (fun t a => tidies t a = true) t) :
    Tidy t.sys.main.books t.done := by
  refine h.invariant (P := fun t => Tidy t.sys.main.books t.done) ?_ ?_
  · rintro t ⟨hstart, hdone⟩
    exact tidy_init hstart hdone
  · intro t a t' hr ht hok hst
    exact tidy_step (sys_reach hr) ht hok hst

/-! ## 8. One row of a message, and none when it is done -/

/-- In a run whose saves go to the message's only row, and whose messages are settled where their rows
are known: no message has two draft rows, and one that has been sent or discarded has no row when every
command has run and every answer has been handled. -/
theorem one_draft_row {t : Finished} (h : machine.Reach (fun t a => tidies t a = true) t) :
    (t.sys.main.db.drafts.map fun r => r.compose.stamp.msg).Nodup ∧
      (t.sys.main.commands = [] → t.sys.main.events = [] → ∀ m ∈ t.done,
        (∀ r ∈ t.sys.main.db.drafts, r.compose.stamp.msg ≠ m) ∧
          ∀ r ∈ t.sys.main.db.outbox, r.compose.stamp.msg ≠ m) := by
  have htidy := tidy_of_reach h
  refine ⟨?_, fun hcommands hevents m hm => ?_⟩
  · have hone := htidy.one 0
    rw [List.take_zero] at hone
    simpa [now, MainWindow.books, DraftRow.held, msgOf, Function.comp_def] using hone
  · have hahead : t.sys.main.books.ahead = t.sys.main.books.now := by
      rw [ahead, show t.sys.main.books.writes = [] by simp [MainWindow.books, hcommands]]
      rfl
    have hsaved : t.sys.main.books.ahead.saved = [] := by
      rw [hahead, now, show t.sys.main.books.events = [] from hevents]
      rfl
    constructor
    · rintro r hr rfl
      have hrow : r.held ∈ t.sys.main.books.ahead.drafts := hahead ▸ List.mem_map_of_mem hr
      -- What would have it deleted is still to come, and nothing is.
      obtain ⟨id, hmem, -⟩ := htidy.drafts r.held hrow hm
      rw [hsaved] at hmem
      exact absurd hmem List.not_mem_nil
    · rintro r hr rfl
      have hrow : r.held ∈ t.sys.main.books.ahead.outbox := hahead ▸ List.mem_map_of_mem hr
      exact htidy.outbox r.held hrow hm

def fresh : Finished := ⟨{ main := { accounts := ["a"] } }, []⟩

theorem started_fresh : machine.Init fresh := by
  refine ⟨⟨⟨["a"], {}, rfl⟩, rfl, rfl, rfl, rfl, rfl, ?_, ?_, ?_, ?_, ?_, ?_⟩, rfl⟩ <;>
    simp [fresh, System.rowStamps]

/-- A message is written and saved, and discarded before the save is answered: its row goes with the
answer. -/
theorem one_draft_row_of_discard : ∃ t : Finished, 0 ∈ t.done ∧
    ∀ r ∈ t.sys.main.db.drafts, r.compose.stamp.msg ≠ 0 := by
  obtain ⟨t, hreach, hp⟩ := Machine.exists_reach_of_trace machine (fun t a => tidies t a = true)
    [.compose { body := "one" } 0 true, .clickSave 1, .handleRequest none, .clickDiscard 1,
      .handleRequest none, .handleRequest none, .execute, .handleEvent (fun _ => none) true, .execute]
    (fun t => decide (t.sys.main.commands = [] ∧ t.sys.main.events = [] ∧ 0 ∈ t.done))
    started_fresh (by decide)
  obtain ⟨hcommands, hevents, hdone⟩ := of_decide_eq_true hp
  exact ⟨t, hdone, ((one_draft_row hreach).2 hcommands hevents 0 hdone).1⟩

/-- A message is saved twice before the first save is answered: it has two rows. -/
theorem saves_fill_two_rows : ¬ ∀ t : Finished, machine.Reach Machine.any t →
    (t.sys.main.db.drafts.map fun r => r.compose.stamp.msg).Nodup := by
  intro hall
  obtain ⟨t, hreach, hp⟩ := Machine.exists_reach_of_trace machine Machine.any
    [.compose { body := "one" } 0 true, .clickSave 1, .clickSave 1, .handleRequest none,
      .handleRequest none, .execute, .execute]
    (fun t => decide (t.sys.main.db.drafts.map (fun r => r.compose.stamp.msg) = [0, 0]))
    started_fresh (by decide)
  have hone := hall t hreach
  rw [of_decide_eq_true hp] at hone
  exact absurd hone (by decide)

end Finished

end Esmail
