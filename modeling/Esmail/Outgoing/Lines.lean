/-
# What an id has saved or sent is no newer than what it has yet to say

Requests are handled in the order in which the windows made them, and a window only asks with what it
has.  So along each id versions only get newer: what was sent under it, and the draft row that its saves
go to, then the requests that are queued, then its window.  `Past` says this of one version, `Lines` of
all.  A draft row is the row of one id only, as no number is given twice.
-/
import Esmail.Outgoing.Versions

namespace Esmail

open Transition

/-! ## 1. The row that the saves of an id go to -/

namespace Books

variable {b b' b'' : Books}

/-- The id knows the row, or will when the answers to its saves have been handled. -/
def Saves (b : Books) (id : ComposeId) (row : Row) : Prop :=
  (row, id) ∈ b.ahead.saved ∨ b.draftOf id = some row

theorem saves_setEntry {id : ComposeId} {entry : Entry} {id' : ComposeId} {row : Row}
    (h : (b.setEntry id entry).Saves id' row) :
    (id' = id ∧ entry.draft = some row) ∨ (row, id') ∈ b.ahead.saved ∨ (id' ≠ id ∧ b.draftOf id' = some row) := by
  rcases h with hsaved | hdraft
  · exact .inr (.inl hsaved)
  · obtain ⟨e, hlook, hrow⟩ := Option.bind_eq_some_iff.mp hdraft
    rcases Deliveries.lookup_of_insert hlook with ⟨rfl, rfl⟩ | ⟨hne, hold⟩
    · exact .inl ⟨rfl, hrow⟩
    · refine .inr (.inr ⟨hne, ?_⟩)
      rw [draftOf, hold]
      exact hrow

/-- A step that neither sends nor saves: sends, rows and what is known of them may go, and an entry
keeps its message. -/
structure Fewer (b b' : Books) : Prop where
  lastId : b.deliveries.lastId ≤ b'.deliveries.lastId
  entry : ∀ id entry', b'.entries.lookup id = some entry' →
    (∃ entry, b.entries.lookup id = some entry ∧ entry.msg = entry'.msg) ∨ b.deliveries.lastId < id
  flight : ∀ id flight, b'.deliveries.inFlight.lookup id = some flight →
    b.deliveries.inFlight.lookup id = some flight
  saves : ∀ id row, b'.Saves id row → b.Saves id row
  draft : ∀ r ∈ b'.ahead.drafts, r ∈ b.ahead.drafts
  next : b.ahead.nextDraft ≤ b'.ahead.nextDraft

theorem Fewer.refl (b : Books) : Fewer b b :=
  ⟨Nat.le_refl _, fun _ entry h => .inl ⟨entry, h, rfl⟩, fun _ _ h => h, fun _ _ h => h, fun _ h => h,
    Nat.le_refl _⟩

theorem Fewer.trans (h : Fewer b b') (h' : Fewer b' b'') : Fewer b b'' := by
  refine ⟨Nat.le_trans h.lastId h'.lastId, ?_, fun id f hf => h.flight id f (h'.flight id f hf),
    fun id row hs => h.saves id row (h'.saves id row hs), fun r hr => h.draft r (h'.draft r hr),
    Nat.le_trans h.next h'.next⟩
  intro id e₂ he₂
  rcases h'.entry id e₂ he₂ with ⟨e₁, he₁, hmsg⟩ | hlt
  · rcases h.entry id e₁ he₁ with ⟨e, he, hmsg'⟩ | hlt
    · exact .inl ⟨e, he, hmsg'.trans hmsg⟩
    · exact .inr hlt
  · exact .inr (Nat.lt_of_le_of_lt h.lastId hlt)

/-- Only the ledger and what is ahead count, where the entries are as they were. -/
theorem Fewer.of_ahead (hlast : b.deliveries.lastId ≤ b'.deliveries.lastId) (he : b'.entries = b.entries)
    (hflight : ∀ id flight, b'.deliveries.inFlight.lookup id = some flight →
      b.deliveries.inFlight.lookup id = some flight)
    (hsaved : ∀ p ∈ b'.ahead.saved, p ∈ b.ahead.saved) (hdrafts : ∀ r ∈ b'.ahead.drafts, r ∈ b.ahead.drafts)
    (hnext : b.ahead.nextDraft ≤ b'.ahead.nextDraft) : Fewer b b' := by
  refine ⟨hlast, fun id e h => .inl ⟨e, he ▸ h, rfl⟩, hflight, fun id row hs => ?_, hdrafts, hnext⟩
  refine hs.imp (hsaved _) fun hdraft => ?_
  rw [draftOf, he] at hdraft
  exact hdraft

theorem Fewer.same (he : b'.entries = b.entries) (hd : b'.deliveries = b.deliveries)
    (hahead : b'.ahead = b.ahead) : Fewer b b' :=
  .of_ahead (by rw [hd]) he (fun _ _ hf => hd ▸ hf) (fun _ hp => hahead ▸ hp) (fun _ hr => hahead ▸ hr)
    (by rw [hahead])

theorem fewer_push (b : Books) (free : Nat) {c : DbCommand}
    (hc : ∀ row id account compose, c ≠ .saveDraft row id account compose) : Fewer b (b.push free c) := by
  have hahead := b.ahead_push free c
  have hrun : ∀ a : Ahead, (a.run c).saved = a.saved ∧ (∀ r ∈ (a.run c).drafts, r ∈ a.drafts) ∧
      (a.run c).nextDraft = a.nextDraft := by
    intro a
    cases c with
    | saveDraft row id account compose => exact absurd rfl (hc row id account compose)
    | enqueueOutbox id _ _ _ => cases id <;> exact ⟨rfl, fun _ hr => hr, rfl⟩
    | deleteDraft row => exact ⟨rfl, fun _ hr => List.mem_of_mem_filter hr, rfl⟩
    | _ => exact ⟨rfl, fun _ hr => hr, rfl⟩
  refine .of_ahead (by rw [push_deliveries]) (push_entries ..) (fun _ _ hf => by simpa using hf) ?_ ?_ ?_
  · rw [hahead]
    split
    · rw [(hrun _).1]
      exact fun _ hp => hp
    · exact fun _ hp => hp
  · rw [hahead]
    split
    · exact (hrun _).2.1
    · exact fun _ hr => hr
  · rw [hahead]
    split
    · rw [(hrun _).2.2]
    · exact Nat.le_refl _

theorem fewer_pushDelete (b : Books) {delete : Row → DbCommand} (hdelete : Deletes delete) (free : Nat)
    (row : Row) : Fewer b (b.push free (delete row)) := by
  rcases hdelete with rfl | rfl <;> exact b.fewer_push free (by simp)

/-- An entry changes, and knows no row that its id did not. -/
theorem fewer_setEntry {id : ComposeId} {entry entry' : Entry} (hentry : b.entries.lookup id = some entry)
    (hmsg : entry'.msg = entry.msg) (hdraft : ∀ row, entry'.draft = some row → b.Saves id row) :
    Fewer b (b.setEntry id entry') := by
  refine ⟨Nat.le_refl _, fun id' e he => ?_, fun _ _ hf => hf, fun id' row hs => ?_, fun _ hr => hr,
    Nat.le_refl _⟩
  · rcases Deliveries.lookup_of_insert he with ⟨rfl, rfl⟩ | ⟨-, hold⟩
    · exact .inl ⟨entry, hentry, hmsg.symm⟩
    · exact .inl ⟨e, hold, rfl⟩
  · rcases saves_setEntry hs with ⟨rfl, hrow⟩ | hsaved | ⟨-, hold⟩
    · exact hdraft row hrow
    · exact .inl hsaved
    · exact .inr hold

theorem draftOf_eq {id : ComposeId} {entry : Entry} (hentry : b.entries.lookup id = some entry) :
    b.draftOf id = entry.draft := by
  rw [draftOf, hentry]
  rfl

theorem fewer_forgetIfDone (b : Books) (id : ComposeId) : Fewer b (b.forgetIfDone id) := by
  unfold Books.forgetIfDone
  split
  · split
    · refine ⟨Nat.le_refl _, fun id' e he => ?_, fun _ _ hf => hf, fun id' row hs => ?_, fun _ hr => hr,
        Nat.le_refl _⟩
      · exact .inl ⟨e, (Deliveries.lookup_of_erase he).2, rfl⟩
      · refine hs.imp_right fun hdraft => ?_
        obtain ⟨e, hlook, hrow⟩ := Option.bind_eq_some_iff.mp hdraft
        rw [draftOf_eq (Deliveries.lookup_of_erase hlook).2]
        exact hrow
    · exact .refl b
  · exact .refl b

theorem fewer_windowClosed (b : Books) (id : ComposeId) : Fewer b (b.windowClosed id) := by
  unfold Books.windowClosed
  refine Fewer.trans ?_ (fewer_forgetIfDone _ id)
  split
  · next entry hentry =>
    exact fewer_setEntry hentry rfl fun row hrow => .inr ((draftOf_eq hentry).trans hrow)
  · exact .refl b

theorem fewer_settle (b : Books) (free : Nat) (id : ComposeId) : Fewer b (b.settle free id) := by
  unfold Books.settle
  split
  · exact .refl b
  · next entry hentry =>
    have hset : Fewer b (b.setEntry id { entry with settled := true, draft := none }) :=
      fewer_setEntry hentry rfl fun row hrow => absurd hrow (by simp)
    split
    · exact hset.trans (fewer_push _ free (by simp))
    · exact hset

/-- The ledger forgets. -/
theorem fewer_withDeliveries (b : Books) {d : Deliveries} (hlast : d.lastId = b.deliveries.lastId)
    (hflight : ∀ id flight, d.inFlight.lookup id = some flight →
      b.deliveries.inFlight.lookup id = some flight) : Fewer b (b.withDeliveries d) :=
  .of_ahead (Nat.le_of_eq hlast.symm) rfl hflight (fun _ hp => hp) (fun _ hr => hr) (Nat.le_refl _)

theorem fewer_endSend (b : Books) {delete : Row → DbCommand} (hdelete : Deletes delete) (free : Nat)
    (id : ComposeId) : Fewer b (b.endSend delete free id) := by
  have hforget : Fewer b (b.withDeliveries (b.deliveries.forget id).2) :=
    b.fewer_withDeliveries rfl fun _ _ hf => (Deliveries.lookup_of_erase hf).2
  unfold Books.endSend
  split
  · exact (hforget.trans (fewer_pushDelete _ hdelete free _)).trans (fewer_settle ..)
  · exact hforget.trans (fewer_settle ..)

theorem fewer_outcomeFailed (b : Books) (free : Nat) (id : ComposeId) : Fewer b (b.outcomeFailed free id) := by
  have hfailed : Fewer b (b.failedSend id) :=
    b.fewer_withDeliveries rfl fun _ _ hf => (Deliveries.lookup_of_erase hf).2
  have hcases := b.outcomeFailed_cases free id
  generalize b.outcomeFailed free id = b' at hcases ⊢
  cases hcases with
  | unknown => exact .refl b
  | backoff => exact hfailed
  | homeless => exact hfailed
  | enqueued => exact hfailed.trans (fewer_push _ free (by simp))

theorem fewer_startCompose (b : Books) (state : ComposeState) (opens : Bool) :
    Fewer b (b.startCompose state opens) := by
  cases opens with
  | false =>
    have hid : b.deliveries.lastId ≤ (b.startCompose state false).deliveries.lastId := Nat.le_succ _
    exact .of_ahead hid rfl (fun _ _ hf => hf) (fun _ hp => hp) (fun _ hr => hr) (Nat.le_refl _)
  | true =>
    refine ⟨Nat.le_succ _, fun id e he => ?_, fun _ _ hf => hf, fun id row hs => ?_, fun _ hr => hr,
      Nat.le_refl _⟩
    · rcases Deliveries.lookup_of_insert he with ⟨rfl, -⟩ | ⟨-, hold⟩
      · exact .inr (Nat.lt_succ_self _)
      · exact .inl ⟨e, hold, rfl⟩
    · rcases saves_setEntry hs with ⟨-, hrow⟩ | hsaved | ⟨-, hold⟩
      · exact absurd hrow (by simp)
      · exact .inl hsaved
      · exact .inr hold

/-- An answer is taken: the tables ahead stay, and no answer is new. -/
theorem ahead_pop {e : CacheEvent} {rest : List CacheEvent} (hevents : b.events = e :: rest) :
    ∃ saved, b.ahead = { ({ b with events := rest } : Books).ahead with saved := saved } ∧
      ∀ p ∈ ({ b with events := rest } : Books).ahead.saved, p ∈ saved := by
  by_cases he : ∃ row id, e = .draftSaved row id
  · obtain ⟨row, id, rfl⟩ := he
    exact ⟨_, ahead_popSaved hevents b.writes, fun p hp => List.mem_cons_of_mem _ hp⟩
  · have hnone : e.saved = none := by
      cases e with
      | draftSaved row id => exact absurd ⟨row, id, rfl⟩ he
      | _ => rfl
    refine ⟨_, ?_, fun p hp => hp⟩
    rw [ahead, ahead, now, now, hevents, List.filterMap_cons_none hnone]

theorem fewer_pop {e : CacheEvent} {rest : List CacheEvent} (hevents : b.events = e :: rest) :
    Fewer b { b with events := rest } := by
  obtain ⟨saved, hahead, hsaved⟩ := ahead_pop hevents
  refine .of_ahead (Nat.le_refl _) rfl (fun _ _ hf => hf) ?_ ?_ ?_
  · rw [hahead]
    exact hsaved
  · rw [hahead]
    exact fun r hr => hr
  · rw [hahead]

theorem fewer_draftSaved {row : Row} {id : ComposeId} {rest : List CacheEvent} (free : Nat)
    (hevents : b.events = .draftSaved row id :: rest) :
    Fewer b ({ b with events := rest }.draftSaved free row id) := by
  have hpop := fewer_pop hevents
  have hknown : b.Saves id row := by
    have hall : b.ahead = _ := ahead_popSaved hevents b.writes
    rw [Saves, hall]
    exact .inl List.mem_cons_self
  unfold Books.draftSaved
  split
  · exact hpop
  · next entry hentry =>
    refine Fewer.trans ?_ (fewer_forgetIfDone _ id)
    have hset : ∀ entry' : Entry, entry'.msg = entry.msg →
        (entry'.draft = entry.draft ∨ entry'.draft = some row) →
          Fewer b (({ b with events := rest } : Books).setEntry id entry') := by
      intro entry' hmsg hdraft
      refine ⟨Nat.le_refl _, fun id' e he => ?_, fun _ _ hf => hf, fun id' row' hs => ?_, hpop.draft,
        hpop.next⟩
      · rcases Deliveries.lookup_of_insert he with ⟨rfl, rfl⟩ | ⟨-, hold⟩
        · exact .inl ⟨entry, hentry, hmsg.symm⟩
        · exact .inl ⟨e, hold, rfl⟩
      · rcases saves_setEntry hs with ⟨rfl, hrow⟩ | hsaved | ⟨-, hold⟩
        · rcases hdraft with heq | heq
          · exact hpop.saves _ _ (.inr ((draftOf_eq hentry).trans (heq.symm.trans hrow)))
          · rw [heq, Option.some.injEq] at hrow
            exact hrow ▸ hknown
        · exact hpop.saves _ _ (.inl hsaved)
        · exact hpop.saves _ _ (.inr hold)
    dsimp only
    split
    · exact (hset { entry with savesPending := entry.savesPending - 1 } rfl (.inl rfl)).trans
        (fewer_push _ free (by simp))
    · exact hset _ rfl (.inr rfl)

/-- The actor answers to a command that only reads. -/
theorem fewer_answers {es : List CacheEvent} (hes : b.Answer es) :
    Fewer b { b with events := b.events ++ es } := by
  have hnone : es.filterMap CacheEvent.saved = [] := by cases hes <;> rfl
  refine .same rfl rfl ?_
  rw [ahead, ahead, now, now, List.filterMap_append, hnone, List.append_nil]

/-- The actor runs the next command that writes: what is ahead stays ahead. -/
theorem ahead_run {c : DbCommand} {ws : List DbCommand} (hwrites : b.writes = c :: ws) :
    ({ b with writes := ws }.run c).ahead = b.ahead := by
  have hnow : ({ b with writes := ws }.run c).now = b.now.run c := now_run _ c
  have hrest : ({ b with writes := ws }.run c).writes = ws := by rw [run_writes]
  rw [ahead, ahead, hnow, hrest, hwrites]
  rfl

theorem fewer_run {c : DbCommand} {ws : List DbCommand} (hwrites : b.writes = c :: ws) :
    Fewer b ({ b with writes := ws }.run c) := by
  obtain ⟨he, hd, -⟩ := run_frame { b with writes := ws } c
  exact .same he hd (ahead_run hwrites)

/-- The core is replaced: what was ahead is in the tables, and no answer is to come. -/
theorem ahead_reload (b : Books) (accounts : List AccountId) :
    (b.reload accounts).ahead = { b.ahead with saved := [] } := by
  have hahead : b.ahead = (b.writes.foldl Books.run b).now := (now_foldl_run b.writes b).symm
  rw [hahead]
  rfl

theorem fewer_reload (b : Books) (accounts : List AccountId) : Fewer b (b.reload accounts) := by
  have hahead := b.ahead_reload accounts
  refine .of_ahead (Nat.le_refl _) rfl (fun _ _ hf => hf) ?_ ?_ ?_
  · rw [hahead]
    exact fun _ hp => absurd hp List.not_mem_nil
  · rw [hahead]
    exact fun _ hr => hr
  · rw [hahead]

theorem Numbered.ahead_lt (h : Numbered b) : ∀ r ∈ b.ahead.drafts, r.1 < b.ahead.nextDraft := by
  have hall := Numbered.runAll b.writes (b := b) h
  have hnow : ({ b.writes.foldl Books.run b with writes := [] } : Books).now = b.ahead :=
    now_foldl_run b.writes b
  rw [← hnow]
  exact hall.drafts_lt

/-- What a save does ahead: its row is the one it names, or the next. -/
theorem run_saveDraft_row (a : Ahead) (draft : Option Row) (id : ComposeId) (account : Option AccountId)
    (c : ComposeState) :
    (a.run (.saveDraft draft id account c)).saved = a.saved ++ [(draft.getD a.nextDraft, id)] ∧
      a.nextDraft ≤ (a.run (.saveDraft draft id account c)).nextDraft ∧
      (draft = none → a.nextDraft < (a.run (.saveDraft draft id account c)).nextDraft) ∧
      ∀ r ∈ (a.run (.saveDraft draft id account c)).drafts, r = (draft.getD a.nextDraft, c) ∨
        (r ∈ a.drafts ∧ (draft = none ∨ r.1 ≠ draft.getD a.nextDraft)) := by
  cases draft with
  | none =>
    refine ⟨rfl, Nat.le_succ _, fun _ => Nat.lt_succ_self _, fun r hr => ?_⟩
    rcases List.mem_append.mp hr with hr | hr
    · exact .inr ⟨hr, .inl rfl⟩
    · exact .inl (List.mem_singleton.mp hr)
  | some row =>
    refine ⟨rfl, Nat.le_refl _, fun h => absurd h (by simp), fun r hr => ?_⟩
    obtain ⟨old, hold, rfl⟩ := List.mem_map.mp hr
    by_cases hrow : old.1 = row
    · rw [if_pos hrow]
      exact .inl rfl
    · rw [if_neg hrow]
      exact .inr ⟨hold, .inr hrow⟩

/-- A save is dropped, or it is queued. -/
theorem saveDraft_cases (b : Books) (free : Nat) (id : ComposeId) (state : ComposeState) (explicit : Bool) :
    (Fewer b (b.saveDraft free id state explicit) ∧
        (∃ entries, b.saveDraft free id state explicit = { b with entries := entries }) ∧
        (b.entries.lookup id = none ∨ hasContent state = false ∨ ¬ 0 < free)) ∨
      ∃ entry entry' c, b.entries.lookup id = some entry ∧ entry'.draft = entry.draft ∧
        entry'.msg = entry.msg ∧ c.stamp = state.stamp ∧ 0 < free ∧ hasContent state = true ∧
        b.saveDraft free id state explicit =
          { b.setEntry id entry' with writes := b.writes ++ [.saveDraft entry.draft id state.accountId c] } := by
  unfold Books.saveDraft
  split
  · next hnone => exact .inl ⟨.refl b, ⟨_, rfl⟩, .inl hnone⟩
  · next entry hentry =>
    split
    · next hcontent => exact .inl ⟨.refl b, ⟨_, rfl⟩, .inr (.inl (by simpa using hcontent))⟩
    · next hcontent =>
      by_cases hfree : 0 < free
      · exact .inr ⟨entry, { entry with savesPending := entry.savesPending + 1, announceSave := explicit },
          { state with draftId := entry.draft }, hentry, rfl, rfl, rfl, hfree, by simpa using hcontent,
          if_pos hfree⟩
      · refine .inl ?_
        unfold Books.push
        rw [if_neg hfree]
        exact ⟨fewer_setEntry hentry rfl fun row hrow => .inr ((draftOf_eq hentry).trans hrow), ⟨_, rfl⟩,
          .inr (.inr hfree)⟩

/-- The outbox timer, once the retries are in the ledger. -/
theorem fewer_attempts (s : MainWindow) (refusal : ComposeId → Option String) (items : List OutboxItem) :
    (s.outboxDue refusal items).books.entries = s.books.entries ∧
      Fewer (s.books.withDeliveries
        (s.books.deliveries.retries items s.books.windowOpen s.accountIndex).2)
        (s.outboxDue refusal items).books := by
  refine s.outboxDue_induction (P := fun _ b => b.entries = s.books.entries ∧
    Fewer (s.books.withDeliveries
      (s.books.deliveries.retries items s.books.windowOpen s.accountIndex).2) b) ?_ ?_ refusal items ?_
  · rintro retry _ b free ⟨he, hb⟩
    exact ⟨(outcomeFailed_entries b free retry.id).1.trans he, hb.trans (fewer_outcomeFailed ..)⟩
  · rintro _ _ b _ ⟨he, hb⟩
    exact ⟨he, hb.trans (.same rfl rfl rfl)⟩
  · exact ⟨rfl, .refl _⟩

end Books

/-! ## 2. Versions along an id -/

namespace System

open Books

variable {s s' : System}

/-- The id has nothing older than this version to say. -/
structure Past (s : System) (id : ComposeId) (st : Stamp) : Prop where
  entry : ∀ entry, s.main.books.entries.lookup id = some entry → entry.msg = st.msg
  request : ∀ r x, (id, r) ∈ s.requests → r.state = some x → st.UpTo x.stamp
  window : ∀ w ∈ s.windows, w.id = id → st.UpTo w.stamp

structure Lines (s : System) : Prop where
  ids : (s.windows.map Window.id).Nodup
  order : s.requests.Pairwise fun p q => p.1 = q.1 → ∀ x y, p.2.state = some x → q.2.state = some y →
    x.stamp.UpTo y.stamp
  window : ∀ id r x, (id, r) ∈ s.requests → r.state = some x → ∀ w ∈ s.windows, w.id = id →
    x.stamp.UpTo w.stamp
  flight : ∀ id flight, s.main.books.deliveries.inFlight.lookup id = some flight →
    s.Past id flight.state.stamp
  owner : ∀ id id' row, s.main.books.Saves id row → s.main.books.Saves id' row → id = id'
  given : ∀ id row, s.main.books.Saves id row →
    id ≤ s.main.books.deliveries.lastId ∧ row < s.main.books.ahead.nextDraft
  draft : ∀ id row, s.main.books.Saves id row → ∀ r ∈ s.main.books.ahead.drafts, r.1 = row →
    s.Past id r.2.stamp

theorem Lines.sameWindow (h : Lines s) {w v : Window} (hw : w ∈ s.windows) (hv : v ∈ s.windows)
    (hid : w.id = v.id) : w = v := List.inj_on_of_nodup_map h.ids hw hv hid

/-- A window as it is now is as new as it was. -/
theorem turned_upTo (hdated : Dated s) {w' : Window} (h : s.Turned s' w')
    (hid : w'.id ≤ s.main.books.deliveries.lastId) :
    ∃ w ∈ s.windows, w.id = w'.id ∧ w.stamp.UpTo w'.stamp := by
  rcases h with ⟨w, hw, heq, hstamp⟩ | ⟨hnew, -⟩
  · refine ⟨w, hw, heq, ?_⟩
    rcases hstamp with hstamp | ⟨hstamp, -⟩
    · rw [hstamp]
      exact .refl _
    · rw [hstamp]
      exact ⟨rfl, Nat.le_of_lt (hdated.window w hw)⟩
  · rw [hnew] at hid
    exact absurd hid (Nat.not_succ_le_self _)

theorem Past.turns {id : ComposeId} {st : Stamp} (h : s.Past id st) (hdated : Dated s) (hturns : Turns s s')
    (hid : id ≤ s.main.books.deliveries.lastId)
    (hentry : ∀ entry', s'.main.books.entries.lookup id = some entry' →
      ∃ entry, s.main.books.entries.lookup id = some entry ∧ entry.msg = entry'.msg) : s'.Past id st := by
  refine ⟨?_, ?_, ?_⟩
  · intro entry' hlook
    obtain ⟨entry, hold, hmsg⟩ := hentry entry' hlook
    exact hmsg.symm.trans (h.entry entry hold)
  · intro r x hr hx
    obtain ⟨old, new, heq, hold, hnew⟩ := hturns.requests
    rcases List.mem_append.mp (heq ▸ hr) with hr | hr
    · exact h.request r x (hold.subset hr) hx
    · obtain ⟨w, hw, hwid, hstamp⟩ := hnew _ hr x hx
      exact hstamp ▸ h.window w hw hwid
  · intro w' hw' hwid
    obtain ⟨w, hw, heq, hle⟩ := turned_upTo hdated (hturns.window w' hw') (hwid ▸ hid)
    exact (h.window w hw (heq.trans hwid)).trans hle

/-- The requests and windows of the next state are in order. -/
theorem Lines.turns (h : Lines s) (hwired : Wired s) (hdated : Dated s) (hturns : Turns s s') :
    (s'.windows.map Window.id).Nodup ∧
      (s'.requests.Pairwise fun p q => p.1 = q.1 → ∀ x y, p.2.state = some x → q.2.state = some y →
        x.stamp.UpTo y.stamp) ∧
      ∀ id r x, (id, r) ∈ s'.requests → r.state = some x → ∀ w ∈ s'.windows, w.id = id →
        x.stamp.UpTo w.stamp := by
  have hgiven : ∀ w ∈ s.windows, w.id ≤ s.main.books.deliveries.lastId := fun w hw =>
    OpenEntry.le hwired (hwired.window w hw).1
  obtain ⟨old, new, heq, hold, hnew⟩ := hturns.requests
  refine ⟨?_, ?_, ?_⟩
  · refine List.Nodup.sublist hturns.ids (h.ids.append (by simp) ?_)
    refine List.disjoint_singleton.mpr fun hmem => ?_
    obtain ⟨w, hw, hid⟩ := List.mem_map.mp hmem
    exact absurd (hid ▸ hgiven w hw) (Nat.not_succ_le_self _)
  · rw [heq, List.pairwise_append]
    refine ⟨h.order.sublist hold, ?_, ?_⟩
    · refine List.pairwise_of_forall_mem_list fun p hp q hq hid x y hx hy => ?_
      obtain ⟨w, hw, hwid, hstamp⟩ := hnew p hp x hx
      obtain ⟨v, hv, hvid, hstamp'⟩ := hnew q hq y hy
      have hsame := h.sameWindow hw hv (hwid.trans (hid.trans hvid.symm))
      rw [← hstamp, ← hstamp', hsame]
      exact .refl _
    · intro p hp q hq hid x y hx hy
      obtain ⟨w, hw, hwid, hstamp⟩ := hnew q hq y hy
      rw [← hstamp]
      exact h.window p.1 p.2 x (hold.subset hp) hx w hw (hwid.trans hid.symm)
  · intro id r x hr hx w' hw' hwid
    have hle : id ≤ s.main.books.deliveries.lastId := by
      rcases List.mem_append.mp (heq ▸ hr) with hr | hr
      · obtain ⟨m, hopen, -⟩ := hwired.request id r (hold.subset hr)
        exact OpenEntry.le hwired hopen
      · obtain ⟨w, hw, rfl, -⟩ := hnew _ hr x hx
        exact hgiven w hw
    obtain ⟨v, hv, hvid, hnewer⟩ := turned_upTo hdated (hturns.window w' hw') (hwid ▸ hle)
    rcases List.mem_append.mp (heq ▸ hr) with hr | hr
    · exact (h.window id r x (hold.subset hr) hx v hv (hvid.trans hwid)).trans hnewer
    · obtain ⟨w, hw, hid, hstamp⟩ := hnew _ hr x hx
      rw [← hstamp, h.sameWindow hw hv (hid.trans (hwid.symm.trans hvid.symm))]
      exact hnewer

/-! ## 3. Every step -/

/-- What a step does to sends and saves: nothing new, or a send, or a save, or retries. -/
theorem Effect.fewer {a : Action} {b' : Books} {delivered' : List Stamp} {next' : Nat}
    (heffect : Effect s a b' delivered' next') :
    s.main.books.Fewer b' ∨
      (∃ refusal id state rest account config, a = .handleRequest refusal ∧
        s.requests = (id, .send state) :: rest ∧
        b' = (s.main.books.hand id config state).withDeliveries
          (s.main.books.deliveries.begin id account state)) ∨
      (∃ refusal id state explicit rest, a = .handleRequest refusal ∧
        s.requests = (id, .saveDraft state explicit) :: rest ∧
        b' = s.main.books.saveDraft s.main.free id state explicit) ∨
      ∃ m refusal items, s.main.books.Fewer (MainWindow.books m) ∧
        m.books.entries = s.main.books.entries ∧ b' = (m.outboxDue refusal items).books ∧
        ∀ s', s.step a = some s' → s'.requests = s.requests ∧ s'.windows = s.windows := by
  cases heffect with
  | quiet => exact .inl (.refl _)
  | compose => exact .inl (fewer_startCompose ..)
  | @send refusal id state rest account config hreq =>
    exact .inr (.inl ⟨refusal, id, state, rest, account, config, rfl, hreq, rfl⟩)
  | @save refusal id state explicit rest hreq =>
    exact .inr (.inr (.inl ⟨refusal, id, state, explicit, rest, rfl, hreq, rfl⟩))
  | discard _ => exact .inl (fewer_endSend _ (.inr rfl) ..)
  | closed _ => exact .inl (fewer_windowClosed ..)
  | draftSaved hevents => exact .inl (fewer_draftSaved _ hevents)
  | outboxEnqueued hevents =>
    exact .inl ((fewer_pop hevents).trans (fewer_withDeliveries _ rfl fun _ _ hf => hf))
  | @due refusal opens items rest hevents =>
    refine .inr (.inr (.inr ⟨{ s.main with events := rest }, refusal, items, fewer_pop hevents, rfl, rfl,
      fun s' hstep => ?_⟩))
    have hlist : s.main.events = .outboxDue items :: rest := hevents
    simp only [System.step, hlist] at hstep
    cases hstep
    exact ⟨rfl, rfl⟩
  | listed hevents => exact .inl ((fewer_pop hevents).trans (.same rfl rfl rfl))
  | loaded hevents => exact .inl ((fewer_pop hevents).trans (fewer_startCompose ..))
  | told hevents _ => exact .inl (fewer_pop hevents)
  | @sent id rest houtcomes =>
    have hpop : s.main.books.Fewer { s.main.books with outcomes := rest } := .same rfl rfl rfl
    refine .inl (hpop.trans ?_)
    cases hf : s.main.books.deliveries.inFlight.lookup id with
    | none =>
      unfold Books.outcomeSent
      rw [Deliveries.delivered_none (d := ({ s.main.books with outcomes := rest } : Books).deliveries) hf]
      exact .refl _
    | some flight =>
      rw [outcomeSent_eq (b := { s.main.books with outcomes := rest }) hf]
      exact fewer_endSend _ (.inl rfl) ..
  | @failed id _ rest _ =>
    have hpop : s.main.books.Fewer { s.main.books with outcomes := rest } := .same rfl rfl rfl
    exact .inl (hpop.trans (fewer_outcomeFailed ..))
  | deleteDraft => exact .inl (fewer_push _ _ (by simp))
  | deleteOutbox => exact .inl (fewer_pushDelete _ (.inr rfl) ..)
  | @edit _ opens item _ =>
    have hlist : s.main.books.Fewer { s.main.books with
        listed := s.main.books.listed.eraseP fun i => i.id = item.id } := .same rfl rfl rfl
    exact .inl ((hlist.trans (fewer_pushDelete _ (.inr rfl) s.main.free item.id)).trans
      (fewer_startCompose ..))
  | @retry row refusal item hitem =>
    refine .inr (.inr (.inr ⟨s.main, refusal, [item], .refl _, rfl, rfl, fun s' hstep => ?_⟩))
    simp only [System.step, hitem] at hstep
    cases hstep
    exact ⟨rfl, rfl⟩
  | write hwrites => exact .inl (fewer_run hwrites)
  | read hanswer => exact .inl (fewer_answers hanswer)
  | mail => exact .inl (.same rfl rfl rfl)
  | reload => exact .inl (fewer_reload ..)

/-- What is needed of the books that a step leaves. -/
theorem Lines.next (h : Lines s) (hwired : Wired s) (hnumbered : Numbered s.main.books) (hdated : Dated s)
    (hturns : Turns s s')
    (hentry : ∀ id entry', id ≤ s.main.books.deliveries.lastId →
      s'.main.books.entries.lookup id = some entry' →
        ∃ entry, s.main.books.entries.lookup id = some entry ∧ entry.msg = entry'.msg)
    (hflight : ∀ id flight, s'.main.books.deliveries.inFlight.lookup id = some flight →
      s.main.books.deliveries.inFlight.lookup id = some flight ∨ s'.Past id flight.state.stamp)
    (howner : ∀ id id' row, s'.main.books.Saves id row → s'.main.books.Saves id' row → id = id')
    (hgiven : ∀ id row, s'.main.books.Saves id row →
      id ≤ s'.main.books.deliveries.lastId ∧ row < s'.main.books.ahead.nextDraft)
    (hdraft : ∀ id row, s'.main.books.Saves id row → ∀ r ∈ s'.main.books.ahead.drafts, r.1 = row →
      (s.main.books.Saves id row ∧ r ∈ s.main.books.ahead.drafts) ∨ s'.Past id r.2.stamp) : Lines s' := by
  obtain ⟨hids, horder, hwindow⟩ := h.turns hwired hdated hturns
  refine ⟨hids, horder, hwindow, fun id flight hf => ?_, howner, hgiven, fun id row hs r hr hrow => ?_⟩
  · rcases hflight id flight hf with hold | hnew
    · have hle := hnumbered.flight_le id fun hnone => absurd (hold.symm.trans hnone) (by simp)
      exact (h.flight id flight hold).turns hdated hturns hle fun e he => hentry id e hle he
    · exact hnew
  · rcases hdraft id row hs r hr hrow with ⟨hold, hmem⟩ | hnew
    · have hle := (h.given id row hold).1
      exact (h.draft id row hold r hmem hrow).turns hdated hturns hle fun e he => hentry id e hle he
    · exact hnew

theorem Lines.fewer (h : Lines s) (hwired : Wired s) (hnumbered : Numbered s.main.books) (hdated : Dated s)
    (hturns : Turns s s') (hfewer : s.main.books.Fewer s'.main.books) : Lines s' := by
  refine h.next hwired hnumbered hdated hturns ?_ ?_ ?_ ?_ ?_
  · exact fun id e hle he => (hfewer.entry id e he).resolve_right (Nat.not_lt_of_le hle)
  · exact fun id flight hf => .inl (hfewer.flight id flight hf)
  · exact fun id id' row hs hs' => h.owner id id' row (hfewer.saves id row hs) (hfewer.saves id' row hs')
  · intro id row hs
    obtain ⟨hle, hlt⟩ := h.given id row (hfewer.saves id row hs)
    exact ⟨Nat.le_trans hle hfewer.lastId, Nat.lt_of_lt_of_le hlt hfewer.next⟩
  · exact fun id row hs r hr _ => .inl ⟨hfewer.saves id row hs, hfewer.draft r hr⟩

/-- The request that is handled: nothing older is left of its id. -/
theorem Lines.head (h : Lines s) (hwired : Wired s) {id : ComposeId} {r : Request}
    {rest : List (ComposeId × Request)} (hrequests : s.requests = (id, r) :: rest) {x : ComposeState}
    (hx : r.state = some x) (hrest : s'.requests = rest) (hwindows : s'.windows = s.windows)
    (hentry : ∀ entry', s'.main.books.entries.lookup id = some entry' →
      ∃ entry, s.main.books.entries.lookup id = some entry ∧ entry.msg = entry'.msg) :
    s'.Past id x.stamp := by
  have hmem : (id, r) ∈ s.requests := hrequests ▸ List.mem_cons_self
  refine ⟨?_, ?_, ?_⟩
  · intro entry' hlook
    obtain ⟨entry, hold, hmsg⟩ := hentry entry' hlook
    obtain ⟨m, ⟨open', hopen, -, rfl⟩, hstate⟩ := hwired.request id r hmem
    obtain rfl := Option.some.inj (hold.symm.trans hopen)
    exact hmsg.symm.trans (hstate x hx).symm
  · intro r' y hr' hy
    have horder := h.order
    rw [hrequests, List.pairwise_cons] at horder
    exact horder.1 (id, r') (hrest ▸ hr') rfl x y hx hy
  · exact fun w hw hid => h.window id r x hmem hx w (hwindows ▸ hw) hid

theorem step_handleRequest {refusal : Option String} {id : ComposeId} {r : Request}
    {rest : List (ComposeId × Request)} (hrequests : s.requests = (id, r) :: rest)
    (hstep : s.step (.handleRequest refusal) = some s') :
    s'.requests = rest ∧ s'.windows = s.windows := by
  simp only [System.step, hrequests] at hstep
  cases hstep
  exact ⟨rfl, rfl⟩

theorem Lines.send (h : Lines s) (hwired : Wired s) (hnumbered : Numbered s.main.books) (hdated : Dated s)
    {refusal : Option String} (hstep : s.step (.handleRequest refusal) = some s') {id : ComposeId}
    {state : ComposeState} {rest : List (ComposeId × Request)} {account : Nat} {config : AccountId}
    (hrequests : s.requests = (id, .send state) :: rest)
    (hbooks : s'.main.books = (s.main.books.hand id config state).withDeliveries
      (s.main.books.deliveries.begin id account state)) : Lines s' := by
  obtain ⟨hrest, hwindows⟩ := step_handleRequest hrequests hstep
  have hentry : ∀ id entry', s'.main.books.entries.lookup id = some entry' →
      ∃ entry, s.main.books.entries.lookup id = some entry ∧ entry.msg = entry'.msg := by
    intro id entry' hlook
    rw [hbooks] at hlook
    exact ⟨entry', hlook, rfl⟩
  have hhead := h.head hwired hrequests (x := state) rfl hrest hwindows (hentry id)
  have hsaves : ∀ id row, s'.main.books.Saves id row → s.main.books.Saves id row := by
    rw [hbooks]
    exact fun _ _ hs => hs
  refine h.next hwired hnumbered hdated (System.turns hstep) (fun id e _ he => hentry id e he) ?_ ?_ ?_ ?_
  · intro id' flight hf
    rw [hbooks] at hf
    rcases Deliveries.lookup_of_insert hf with ⟨rfl, rfl⟩ | ⟨-, hold⟩
    · exact .inr hhead
    · exact .inl hold
  · exact fun id id' row hs hs' => h.owner id id' row (hsaves id row hs) (hsaves id' row hs')
  · intro id row hs
    rw [hbooks]
    exact h.given id row (hsaves id row hs)
  · intro id row hs r hr _
    rw [hbooks] at hr
    exact .inl ⟨hsaves id row hs, hr⟩

theorem Lines.save (h : Lines s) (hwired : Wired s) (hnumbered : Numbered s.main.books) (hdated : Dated s)
    {refusal : Option String} (hstep : s.step (.handleRequest refusal) = some s') {id : ComposeId}
    {state : ComposeState} {explicit : Bool} {rest : List (ComposeId × Request)}
    (hrequests : s.requests = (id, .saveDraft state explicit) :: rest)
    (hbooks : s'.main.books = s.main.books.saveDraft s.main.free id state explicit) : Lines s' := by
  obtain ⟨hrest, hwindows⟩ := step_handleRequest hrequests hstep
  rcases s.main.books.saveDraft_cases s.main.free id state explicit with ⟨hfewer, -⟩ |
    ⟨entry, entry', c, hentry, hdraft, hmsg, hc, -, -, heq⟩
  · exact h.fewer hwired hnumbered hdated (System.turns hstep) (hbooks ▸ hfewer)
  rw [heq] at hbooks
  have hahead : s'.main.books.ahead =
      s.main.books.ahead.run (.saveDraft entry.draft id state.accountId c) := by
    rw [hbooks, ahead, List.foldl_append]
    rfl
  obtain ⟨hsaved, hle, hlt, hdrafts⟩ :=
    run_saveDraft_row s.main.books.ahead entry.draft id state.accountId c
  have hknown : ∀ d, entry.draft = some d → s.main.books.Saves id d := fun d hd =>
    .inr ((draftOf_eq hentry).trans hd)
  have hkeeps : ∀ id entry', s'.main.books.entries.lookup id = some entry' →
      ∃ entry, s.main.books.entries.lookup id = some entry ∧ entry.msg = entry'.msg := by
    intro id' e hlook
    rw [hbooks] at hlook
    rcases Deliveries.lookup_of_insert hlook with ⟨rfl, rfl⟩ | ⟨-, hold⟩
    · exact ⟨entry, hentry, hmsg.symm⟩
    · exact ⟨e, hold, rfl⟩
  have hhead := h.head hwired hrequests (x := state) rfl hrest hwindows (hkeeps id)
  -- What is new is that the id saves to the row.
  have hsaves : ∀ id' row, s'.main.books.Saves id' row → s.main.books.Saves id' row ∨
      (id' = id ∧ row = entry.draft.getD s.main.books.ahead.nextDraft) := by
    rintro id' row (hmem | hknows)
    · rw [hahead, hsaved] at hmem
      rcases List.mem_append.mp hmem with hmem | hmem
      · exact .inl (.inl hmem)
      · obtain ⟨rfl, rfl⟩ := Prod.mk.inj (List.mem_singleton.mp hmem)
        exact .inr ⟨rfl, rfl⟩
    · rw [hbooks] at hknows
      have hset : (s.main.books.setEntry id entry').Saves id' row := .inr hknows
      rcases saves_setEntry hset with ⟨rfl, hrow⟩ | hmem | ⟨-, hold⟩
      · exact .inl (hknown row (hdraft.symm.trans hrow))
      · exact .inl (.inl hmem)
      · exact .inl (.inr hold)
  have hrowgiven : ∀ id' row, s.main.books.Saves id' row →
      row = entry.draft.getD s.main.books.ahead.nextDraft → id' = id := by
    rintro id' row hs rfl
    cases hd : entry.draft with
    | none =>
      rw [hd] at hs
      exact absurd (h.given id' _ hs).2 (Nat.lt_irrefl _)
    | some d =>
      rw [hd] at hs
      exact h.owner id' id d hs (hknown d hd)
  refine h.next hwired hnumbered hdated (System.turns hstep) (fun id e _ he => hkeeps id e he) ?_ ?_ ?_ ?_
  · intro id' flight hf
    rw [hbooks] at hf
    exact .inl hf
  · intro id₁ id₂ row hs₁ hs₂
    rcases hsaves id₁ row hs₁ with hold₁ | ⟨rfl, hrow⟩
    · rcases hsaves id₂ row hs₂ with hold₂ | ⟨rfl, hrow⟩
      · exact h.owner id₁ id₂ row hold₁ hold₂
      · exact hrowgiven id₁ row hold₁ hrow
    · rcases hsaves id₂ row hs₂ with hold₂ | ⟨rfl, -⟩
      · exact (hrowgiven id₂ row hold₂ hrow).symm
      · rfl
  · intro id' row hs
    rw [hahead, hbooks]
    rcases hsaves id' row hs with hold | ⟨rfl, rfl⟩
    · exact ⟨(h.given id' row hold).1, Nat.lt_of_lt_of_le (h.given id' row hold).2 hle⟩
    · refine ⟨hwired.given _ fun hnone => absurd (hentry.symm.trans hnone) (by simp), ?_⟩
      cases hd : entry.draft with
      | none =>
        have hnext := hlt hd
        rw [hd] at hnext
        exact hnext
      | some d =>
        rw [hd] at hle
        exact Nat.lt_of_lt_of_le (h.given _ d (hknown d hd)).2 hle
  · intro id' row hs r hr hrow
    rw [hahead] at hr
    rcases hdrafts r hr with rfl | ⟨hold, hother⟩
    · -- The row that is saved to.
      have hid : id' = id := (hsaves id' row hs).elim (fun hs => hrowgiven id' row hs hrow.symm) And.left
      rw [hid]
      exact .inr (hc ▸ hhead)
    · refine .inl ⟨(hsaves id' row hs).resolve_right ?_, hold⟩
      rintro ⟨-, rfl⟩
      rcases hother with hnone | hne
      · rw [hnone] at hrow
        exact absurd (hnumbered.ahead_lt r hold) (hrow ▸ Nat.lt_irrefl _)
      · exact hne hrow

/-- The retries are of new ids, of which nothing is left to say. -/
theorem Lines.retries (h : Lines s) (hwired : Wired s) (hnumbered : Numbered s.main.books)
    (hdated : Dated s) (hturns : Turns s s') {m : MainWindow} {refusal : ComposeId → Option String}
    {items : List OutboxItem} (hfewer : s.main.books.Fewer m.books)
    (hentries : m.books.entries = s.main.books.entries)
    (hbooks : s'.main.books = (m.outboxDue refusal items).books) (hrequests : s'.requests = s.requests)
    (hwindows : s'.windows = s.windows) : Lines s' := by
  obtain ⟨hsame, hattempts⟩ := fewer_attempts m refusal items
  obtain ⟨hlast, hflights⟩ := Deliveries.retryAll_flights m.accountIndex
    (items.filter fun item => item.id ∉ m.books.deliveries.ownedRows m.books.windowOpen) m.books.deliveries
  rw [← hbooks] at hsame hattempts
  have hsaves : ∀ id row, s'.main.books.Saves id row → s.main.books.Saves id row := fun id row hs =>
    hfewer.saves id row (hattempts.saves id row hs)
  refine h.next hwired hnumbered hdated hturns ?_ ?_ ?_ ?_ ?_
  · intro id e _ he
    rw [hsame, hentries] at he
    exact ⟨e, he, rfl⟩
  · intro id flight hf
    rcases hflights id flight (hattempts.flight id flight hf) with hold | ⟨hlt, -⟩
    · exact .inl (hfewer.flight id flight hold)
    · have hnew : ¬ id ≤ s.main.books.deliveries.lastId :=
        Nat.not_le_of_lt (Nat.lt_of_le_of_lt hfewer.lastId hlt)
      refine .inr ⟨fun e he => ?_, fun r x hr _ => ?_, fun w hw hid => ?_⟩
      · rw [hsame, hentries] at he
        exact absurd (hwired.given id fun hnone => absurd (he.symm.trans hnone) (by simp)) hnew
      · obtain ⟨_, hopen, -⟩ := hwired.request id r (hrequests ▸ hr)
        exact absurd (OpenEntry.le hwired hopen) hnew
      · exact absurd (hid ▸ OpenEntry.le hwired (hwired.window w (hwindows ▸ hw)).1) hnew
  · exact fun id id' row hs hs' => h.owner id id' row (hsaves id row hs) (hsaves id' row hs')
  · intro id row hs
    obtain ⟨hle, hlt⟩ := h.given id row (hsaves id row hs)
    exact ⟨Nat.le_trans (Nat.le_trans hle hfewer.lastId) (Nat.le_trans hlast hattempts.lastId),
      Nat.lt_of_lt_of_le hlt (Nat.le_trans hfewer.next hattempts.next)⟩
  · exact fun id row hs r hr _ => .inl ⟨hsaves id row hs, hfewer.draft r (hattempts.draft r hr)⟩

theorem Lines.step (h : Lines s) (hwired : Wired s) (hnumbered : Numbered s.main.books) (hdated : Dated s)
    {a : Action} (hstep : s.step a = some s') : Lines s' := by
  rcases (effect hstep).fewer with hfewer | ⟨_, _, _, _, _, _, rfl, hrequests, hbooks⟩ |
    ⟨_, _, _, _, _, rfl, hrequests, hbooks⟩ | ⟨m, _, _, hfewer, hentries, hbooks, hstays⟩
  · exact h.fewer hwired hnumbered hdated (System.turns hstep) hfewer
  · exact h.send hwired hnumbered hdated hstep hrequests hbooks
  · exact h.save hwired hnumbered hdated hstep hrequests hbooks
  · obtain ⟨hrequests, hwindows⟩ := hstays s' hstep
    exact h.retries hwired hnumbered hdated (System.turns hstep) hfewer hentries hbooks hrequests hwindows

theorem Lines.init (h : Started s) : Lines s := by
  obtain ⟨accounts, db, hmain⟩ := h.main
  have hnone : ∀ {β : Type} (id : ComposeId), (∅ : AList fun _ : ComposeId => β).lookup id = none :=
    fun id => AList.lookup_empty id
  have hsaves : ∀ id row, ¬ s.main.books.Saves id row := by
    rw [hmain]
    rintro id row (hsaved | hdraft)
    · exact absurd hsaved List.not_mem_nil
    · rw [draftOf, show (MainWindow.books { accounts := accounts, db := db }).entries.lookup id = none from
        hnone id] at hdraft
      exact absurd hdraft (by simp)
  refine ⟨by simp [h.windows], by simp [h.requests], by simp [h.requests], fun id flight hf => ?_,
    fun id _ row hs => absurd hs (hsaves id row), fun id row hs => absurd hs (hsaves id row),
    fun id row hs => absurd hs (hsaves id row)⟩
  rw [hmain] at hf
  exact absurd ((hnone id).symm.trans hf) (by simp)

/-- Along each id versions only get newer, in every run. -/
theorem lines {ok : System → Action → Prop} {s : System} (h : machine.Reach ok s) : Lines s :=
  h.invariant (P := Lines) (fun _ h0 => Lines.init h0) fun _ a _ hr hl _ hstep =>
    Lines.step hl (wired hr) (numbered hr) (dated hr) (a := a) hstep

end System

end Esmail
