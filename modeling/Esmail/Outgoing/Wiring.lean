/-
# Windows, requests and entries belong together

What holds in EVERY run, without a condition: a compose window, and a request that it has made, has
an entry in the main window that takes it for open and for a window of the same message, until the
request that says it is closed has been handled, and that one is the last.

The step on books is summed up by `Keeps`: an open entry stays one.  Handling `closed` is the only
step that does not keep, and what it does is said of one id only.
-/
import Esmail.Outgoing.Books

namespace Esmail

open Transition

namespace Books

/-- The entry of an open window of the message `m`. -/
def OpenEntry (b : Books) (id : ComposeId) (m : Nat) : Prop :=
  ∃ entry, b.entries.lookup id = some entry ∧ entry.window = true ∧ entry.msg = m

/-- Open entries stay, and what is new has a new id. -/
structure Keeps (b b' : Books) : Prop where
  lastId : b.deliveries.lastId ≤ b'.deliveries.lastId
  openEntry : ∀ id m, b.OpenEntry id m → b'.OpenEntry id m
  entry : ∀ id, b'.entries.lookup id ≠ none →
    b.entries.lookup id ≠ none ∨ (b.deliveries.lastId < id ∧ id ≤ b'.deliveries.lastId)

theorem Keeps.refl (b : Books) : Keeps b b := ⟨Nat.le_refl _, fun _ _ h => h, fun _ h => .inl h⟩

theorem Keeps.trans {b₁ b₂ b₃ : Books} (h : Keeps b₁ b₂) (h' : Keeps b₂ b₃) : Keeps b₁ b₃ := by
  refine ⟨Nat.le_trans h.lastId h'.lastId, fun id m ho => h'.openEntry id m (h.openEntry id m ho), ?_⟩
  intro id hid
  rcases h'.entry id hid with hold | ⟨hlt, hle⟩
  · rcases h.entry id hold with hold | ⟨hlt, hle⟩
    · exact .inl hold
    · exact .inr ⟨hlt, Nat.le_trans hle h'.lastId⟩
  · exact .inr ⟨Nat.lt_of_le_of_lt h.lastId hlt, hle⟩

theorem Keeps.of_eq {b b' : Books} (h : b' = b) : Keeps b b' := h ▸ .refl b

/-- What touches no entry keeps. -/
theorem Keeps.of_entries {b b' : Books} (hid : b.deliveries.lastId ≤ b'.deliveries.lastId)
    (he : b'.entries = b.entries) : Keeps b b' :=
  ⟨hid, fun _ _ h => by simpa [OpenEntry, he] using h, fun _ h => .inl (he ▸ h)⟩

/-- Only the entries and the ledger before the step count. -/
theorem Keeps.after {b c b' : Books} (h : Keeps c b') (he : c.entries = b.entries)
    (hd : c.deliveries = b.deliveries) : Keeps b b' :=
  (Keeps.of_entries (Nat.le_of_eq (by rw [hd])) he).trans h

@[simp] theorem push_entries (b : Books) (free : Nat) (c : DbCommand) :
    (b.push free c).entries = b.entries := by
  unfold push
  split <;> rfl

@[simp] theorem push_deliveries (b : Books) (free : Nat) (c : DbCommand) :
    (b.push free c).deliveries = b.deliveries := by
  unfold push
  split <;> rfl

theorem keeps_push (b : Books) (free : Nat) (c : DbCommand) : Keeps b (b.push free c) :=
  .of_entries (by simp) (by simp)

/-- An entry changes, but not whether its window is open, nor its message. -/
theorem keeps_setEntry {b : Books} {id : ComposeId} {entry entry' : Entry}
    (h : b.entries.lookup id = some entry) (hw : entry'.window = entry.window)
    (hm : entry'.msg = entry.msg) : Keeps b (b.setEntry id entry') := by
  refine ⟨Nat.le_refl _, ?_, ?_⟩
  · rintro id' m ⟨e, he, hopen, hmsg⟩
    by_cases hid : id' = id
    · subst hid
      cases h.symm.trans he
      exact ⟨entry', AList.lookup_insert _, hw.trans hopen, hm.trans hmsg⟩
    · exact ⟨e, (AList.lookup_insert_ne hid).trans he, hopen, hmsg⟩
  · intro id' hid'
    by_cases hid : id' = id
    · subst hid
      exact .inl (by rw [h]; simp)
    · exact .inl fun hnone => hid' ((AList.lookup_insert_ne hid).trans hnone)

theorem keeps_forgetIfDone (b : Books) (id : ComposeId) : Keeps b (b.forgetIfDone id) := by
  unfold forgetIfDone
  split
  · next entry hentry =>
    split
    · next hdone =>
      refine ⟨Nat.le_refl _, ?_, ?_⟩
      · rintro id' m ⟨e, he, hopen, hmsg⟩
        have hne : id' ≠ id := by
          rintro rfl
          cases hentry.symm.trans he
          simp [hopen] at hdone
        exact ⟨e, (AList.lookup_erase_ne hne).trans he, hopen, hmsg⟩
      · intro id' hid'
        refine .inl fun hnone => hid' ?_
        by_cases hid : id' = id
        · rw [hid]
          exact AList.lookup_erase ..
        · exact (AList.lookup_erase_ne hid).trans hnone
    · exact .refl b
  · exact .refl b

theorem keeps_startCompose {b : Books} (hle : ∀ id, b.entries.lookup id ≠ none → id ≤ b.deliveries.lastId)
    (state : ComposeState) (opens : Bool) : Keeps b (b.startCompose state opens) := by
  unfold startCompose
  have hlast : b.deliveries.lastId ≤ b.deliveries.nextId.2.lastId := Nat.le_succ _
  cases opens with
  | false => exact .of_entries hlast rfl
  | true =>
    refine ⟨hlast, ?_, ?_⟩
    · rintro id m ⟨e, he, hopen, hmsg⟩
      have hne : id ≠ b.deliveries.nextId.1 := by
        rintro rfl
        have hgiven := hle _ (fun hnone => absurd (he.symm.trans hnone) (by simp))
        exact Nat.not_succ_le_self _ hgiven
      exact ⟨e, (AList.lookup_insert_ne hne).trans he, hopen, hmsg⟩
    · intro id hid
      by_cases heq : id = b.deliveries.nextId.1
      · subst heq
        exact .inr ⟨Nat.lt_succ_self _, Nat.le_refl (b.deliveries.lastId + 1)⟩
      · exact .inl fun hnone => hid ((AList.lookup_insert_ne heq).trans hnone)

/-- The window that was opened has an entry. -/
theorem openEntry_startCompose (b : Books) (state : ComposeState) :
    (b.startCompose state true).OpenEntry b.deliveries.nextId.1 state.stamp.msg :=
  ⟨_, AList.lookup_insert _, rfl, rfl⟩

theorem keeps_saveDraft (b : Books) (free : Nat) (id : ComposeId) (state : ComposeState)
    (explicit : Bool) : Keeps b (b.saveDraft free id state explicit) := by
  unfold saveDraft
  split
  · exact .refl b
  · next entry hentry =>
    split
    · exact .refl b
    · refine Keeps.trans (keeps_setEntry hentry ?_ ?_) (keeps_push ..) <;> rfl

theorem keeps_settle (b : Books) (free : Nat) (id : ComposeId) : Keeps b (b.settle free id) := by
  unfold settle
  split
  · exact .refl b
  · next entry hentry =>
    have hset : Keeps b (b.setEntry id { entry with settled := true, draft := none }) :=
      keeps_setEntry hentry rfl rfl
    cases entry.draft with
    | none => exact hset
    | some draft => exact hset.trans (keeps_push ..)

theorem keeps_discard (b : Books) (free : Nat) (id : ComposeId) : Keeps b (b.discard free id) := by
  have hforget : Keeps b (b.withDeliveries (b.deliveries.forget id).2) := .of_entries (Nat.le_refl _) rfl
  unfold discard
  cases (b.deliveries.forget id).1 with
  | none => exact hforget.trans (keeps_settle ..)
  | some row => exact (hforget.trans (keeps_push ..)).trans (keeps_settle ..)

theorem keeps_draftSaved (b : Books) (free : Nat) (row : Row) (id : ComposeId) :
    Keeps b (b.draftSaved free row id) := by
  unfold draftSaved
  split
  · exact .refl b
  · next entry hentry =>
    refine Keeps.trans ?_ (keeps_forgetIfDone ..)
    split
    · refine Keeps.trans (keeps_setEntry hentry ?_ ?_) (keeps_push ..) <;> rfl
    · exact keeps_setEntry hentry rfl rfl

theorem failed_lastId (d : Deliveries) (id : ComposeId) : (d.failed id).2.lastId = d.lastId := by
  unfold Deliveries.failed
  split <;> rfl

theorem delivered_lastId (d : Deliveries) (id : ComposeId) : (d.delivered id).2.lastId = d.lastId := by
  unfold Deliveries.delivered
  split <;> rfl

/-- A failed send touches no entry and gives no id. -/
theorem outcomeFailed_entries (b : Books) (free : Nat) (id : ComposeId) :
    (b.outcomeFailed free id).entries = b.entries ∧
      (b.outcomeFailed free id).deliveries.lastId = b.deliveries.lastId := by
  have hlast := failed_lastId b.deliveries id
  unfold outcomeFailed
  split
  · exact ⟨rfl, rfl⟩
  · exact ⟨rfl, hlast⟩
  · split
    · exact ⟨push_entries .., by rw [push_deliveries]; exact hlast⟩
    · exact ⟨rfl, hlast⟩

theorem keeps_outcomeFailed (b : Books) (free : Nat) (id : ComposeId) :
    Keeps b (b.outcomeFailed free id) :=
  .of_entries (Nat.le_of_eq (outcomeFailed_entries b free id).2.symm) (outcomeFailed_entries b free id).1

theorem keeps_outcomeSent (b : Books) (free : Nat) (id : ComposeId) :
    Keeps b (b.outcomeSent free id) := by
  have hd : Keeps b (b.withDeliveries (b.deliveries.delivered id).2) :=
    .of_entries (Nat.le_of_eq (delivered_lastId b.deliveries id).symm) rfl
  unfold outcomeSent
  split
  · exact .refl b
  · next delivered _ =>
    cases delivered.outboxRow with
    | none => exact hd.trans (keeps_settle ..)
    | some row => exact (hd.trans (keeps_push ..)).trans (keeps_settle ..)

theorem keeps_run (b : Books) (c : DbCommand) : Keeps b (b.run c) := by
  refine .of_entries ?_ ?_
  · cases c with
    | saveDraft id _ _ _ => cases id <;> exact Nat.le_refl _
    | enqueueOutbox id _ _ _ => cases id <;> exact Nat.le_refl _
    | _ => exact Nat.le_refl _
  · cases c with
    | saveDraft id _ _ _ => cases id <;> rfl
    | enqueueOutbox id _ _ _ => cases id <;> rfl
    | _ => rfl

/-- What `forget_if_done` leaves of the entries. -/
theorem forgetIfDone_lookup (b : Books) (id : ComposeId) {id' : ComposeId} {entry : Entry}
    (h : (b.forgetIfDone id).entries.lookup id' = some entry) : b.entries.lookup id' = some entry := by
  unfold forgetIfDone at h
  split at h
  · split at h
    · by_cases hid : id' = id
      · rw [hid] at h
        exact absurd ((AList.lookup_erase ..).symm.trans h) (by simp)
      · exact (AList.lookup_erase_ne hid).symm.trans h
    · exact h
  · exact h

theorem forgetIfDone_lookup_ne (b : Books) (id : ComposeId) {id' : ComposeId} (hne : id' ≠ id) :
    (b.forgetIfDone id).entries.lookup id' = b.entries.lookup id' := by
  unfold forgetIfDone
  split
  · split
    · exact AList.lookup_erase_ne hne
    · rfl
  · rfl

/-- A window is closed: no other entry is touched, and none is new. -/
theorem windowClosed_lookup_ne (b : Books) (id : ComposeId) {id' : ComposeId} (hne : id' ≠ id) :
    (b.windowClosed id).entries.lookup id' = b.entries.lookup id' := by
  unfold windowClosed
  rw [forgetIfDone_lookup_ne _ _ hne]
  split
  · exact AList.lookup_insert_ne hne
  · rfl

theorem windowClosed_lookup (b : Books) (id : ComposeId) {entry : Entry}
    (h : (b.windowClosed id).entries.lookup id = some entry) :
    ∃ old, b.entries.lookup id = some old ∧ entry = { old with window := false } := by
  unfold windowClosed at h
  have h' := forgetIfDone_lookup _ _ h
  split at h'
  · next old hold =>
    exact ⟨old, hold, Option.some.inj (h'.symm.trans (AList.lookup_insert _))⟩
  · next hnone => exact absurd (h'.symm.trans hnone) (by simp)

@[simp] theorem forgetIfDone_deliveries (b : Books) (id : ComposeId) :
    (b.forgetIfDone id).deliveries = b.deliveries := by
  unfold forgetIfDone
  split
  · split <;> rfl
  · rfl

@[simp] theorem windowClosed_deliveries (b : Books) (id : ComposeId) :
    (b.windowClosed id).deliveries = b.deliveries := by
  unfold windowClosed
  rw [forgetIfDone_deliveries]
  split <;> rfl

theorem retryAll_lastId (accountIndex : AccountId → Option Nat) : ∀ (items : List OutboxItem)
    (d : Deliveries), d.lastId ≤ (Deliveries.retryAll accountIndex d items).2.lastId
  | [], _ => Nat.le_refl _
  | item :: items, d => by
    unfold Deliveries.retryAll
    split
    · exact retryAll_lastId accountIndex items d
    · next account _ =>
      exact Nat.le_trans (Nat.le_succ _) (retryAll_lastId accountIndex items (d.retry item account).2)

end Books

theorem MainWindow.keeps_outboxDue (s : MainWindow) (refusal : ComposeId → Option String)
    (due : List OutboxItem) : s.books.Keeps (s.outboxDue refusal due).books := by
  refine MainWindow.outboxDue_induction s (P := fun _ b => s.books.Keeps b) ?_ ?_ refusal due ?_
  · exact fun retry _ b free h => h.trans (Books.keeps_outcomeFailed b free retry.id)
  · exact fun _ _ _ _ h => h.trans (.of_entries (Nat.le_refl _) rfl)
  · exact .of_entries (Books.retryAll_lastId ..) rfl

/-! ## 2. The wiring of a system -/

/-- The text that a request carries. -/
def Request.state : Request → Option ComposeState
  | .send state | .saveDraft state _ => some state
  | .discard | .closed => none

namespace System

structure Wired (s : System) : Prop where
  given : ∀ id, s.main.books.entries.lookup id ≠ none → id ≤ s.main.books.deliveries.lastId
  window : ∀ w ∈ s.windows,
    s.main.books.OpenEntry w.id w.stamp.msg ∧ (w.id, Request.closed) ∉ s.requests
  request : ∀ id r, (id, r) ∈ s.requests →
    ∃ m, s.main.books.OpenEntry id m ∧ ∀ state, r.state = some state → state.stamp.msg = m
  last : s.requests.Pairwise fun p q => p.2 = .closed → q.1 ≠ p.1

theorem OpenEntry.le {s : System} (h : Wired s) {id : ComposeId} {m : Nat}
    (ho : s.main.books.OpenEntry id m) : id ≤ s.main.books.deliveries.lastId := by
  obtain ⟨e, he, -, -⟩ := ho
  exact h.given id fun hnone => absurd (he.symm.trans hnone) (by simp)

/-- The step of the main window keeps, and no request is new. -/
theorem Wired.keeps {s s' : System} (h : Wired s) (hkeeps : s.main.books.Keeps s'.main.books)
    (hrequests : s'.requests.Sublist s.requests)
    (hwindows : ∀ w ∈ s'.windows, w ∈ s.windows ∨
      (s'.main.books.OpenEntry w.id w.stamp.msg ∧ s.main.books.deliveries.lastId < w.id)) :
    Wired s' := by
  refine ⟨?_, ?_, ?_, h.last.sublist hrequests⟩
  · intro id hid
    rcases hkeeps.entry id hid with hold | ⟨-, hle⟩
    · exact Nat.le_trans (h.given id hold) hkeeps.lastId
    · exact hle
  · intro w hw
    rcases hwindows w hw with hold | ⟨hopen, hnew⟩
    · exact ⟨hkeeps.openEntry _ _ (h.window w hold).1,
        fun hc => (h.window w hold).2 (hrequests.subset hc)⟩
    · refine ⟨hopen, fun hc => ?_⟩
      obtain ⟨m, ho, -⟩ := h.request _ _ (hrequests.subset hc)
      exact absurd (OpenEntry.le h ho) (Nat.not_le_of_lt hnew)
  · intro id r hr
    obtain ⟨m, ho, hstate⟩ := h.request id r (hrequests.subset hr)
    exact ⟨m, hkeeps.openEntry _ _ ho, hstate⟩

/-- The step of the main window keeps, and that is all there is to it. -/
theorem Wired.keepsAll {s s' : System} (h : Wired s) (hkeeps : s.main.books.Keeps s'.main.books)
    (hrequests : s'.requests = s.requests) (hwindows : s'.windows = s.windows) : Wired s' :=
  h.keeps hkeeps (hrequests ▸ List.Sublist.refl _) fun _ hw => .inl (hwindows ▸ hw)

/-- A window asks, and goes if it says so. -/
theorem Wired.ask {s s' : System} (h : Wired s) {id : ComposeId} {m : Nat}
    (hopen : s.main.books.OpenEntry id m) (hlive : (id, Request.closed) ∉ s.requests)
    {rs : List Request} (hstate : ∀ r ∈ rs, ∀ state, r.state = some state → state.stamp.msg = m)
    (hlast : rs.Pairwise fun r _ => r ≠ .closed) (hbooks : s'.main.books = s.main.books)
    (hrequests : s'.requests = s.requests ++ rs.map fun r => (id, r))
    (hwindows : ∀ w ∈ s'.windows,
      (∃ v ∈ s.windows, v.id = w.id ∧ v.stamp.msg = w.stamp.msg) ∧ (.closed ∈ rs → w.id ≠ id)) :
    Wired s' := by
  refine ⟨by rw [hbooks]; exact h.given, ?_, ?_, ?_⟩
  · intro w hw
    obtain ⟨⟨v, hv, hid, hmsg⟩, hgone⟩ := hwindows w hw
    obtain ⟨ho, hnot⟩ := h.window v hv
    rw [hid, hmsg] at ho
    rw [hbooks, hrequests]
    refine ⟨ho, fun hc => ?_⟩
    rcases List.mem_append.mp hc with hc | hc
    · exact hnot (hid ▸ hc)
    · obtain ⟨r, hr, heq⟩ := List.mem_map.mp hc
      cases heq
      exact hgone hr rfl
  · intro id' r hr
    rw [hrequests] at hr
    rw [hbooks]
    rcases List.mem_append.mp hr with hr | hr
    · exact h.request id' r hr
    · obtain ⟨r', hr', heq⟩ := List.mem_map.mp hr
      cases heq
      exact ⟨m, hopen, hstate _ hr'⟩
  · rw [hrequests, List.pairwise_append]
    refine ⟨h.last, ?_, ?_⟩
    · rw [List.pairwise_map]
      exact hlast.imp fun hne heq => absurd heq hne
    · rintro ⟨id', r'⟩ hp q hq hclosed heq
      obtain ⟨r, -, rfl⟩ := List.mem_map.mp hq
      dsimp only at hclosed heq
      subst hclosed heq
      exact hlive hp

theorem window_mem {s : System} {id : ComposeId} {w : Window} (h : s.window id = some w) :
    w ∈ s.windows ∧ w.id = id :=
  ⟨List.mem_of_find?_eq_some h, by simpa using List.find?_some h⟩

theorem mem_putWindow {s : System} {w v : Window} (h : v ∈ (s.putWindow w).windows) :
    v ∈ s.windows ∨ (v = w ∧ ∃ u ∈ s.windows, u.id = w.id) := by
  obtain ⟨u, hu, rfl⟩ := List.mem_map.mp h
  by_cases hid : u.id = w.id
  · exact .inr ⟨by simp [hid], u, hu, hid⟩
  · exact .inl (by simpa [hid] using hu)

theorem mem_dropWindow {s : System} {id : ComposeId} {v : Window}
    (h : v ∈ (s.dropWindow id).windows) : v ∈ s.windows ∧ v.id ≠ id := by
  simpa [dropWindow] using h

/-- A window that was changed is still a window of its message. -/
theorem same_of_putWindow {s : System} {id : ComposeId} {w : Window} (w' : Window)
    (hw : s.window id = some w)
    (hid : w'.id = w.id) (hmsg : w'.stamp.msg = w.stamp.msg) {v : Window}
    (h : v ∈ (s.putWindow w').windows) :
    ∃ u ∈ s.windows, u.id = v.id ∧ u.stamp.msg = v.stamp.msg := by
  rcases mem_putWindow h with hold | ⟨rfl, -⟩
  · exact ⟨v, hold, rfl, rfl⟩
  · exact ⟨w, (window_mem hw).1, hid.symm, hmsg.symm⟩

/-- A window asks and stays. -/
theorem Wired.ask_stay {s s' : System} (h : Wired s) {id : ComposeId} {w : Window}
    (hw : s.window id = some w) (rs : List Request)
    (hrs : ∀ r ∈ rs, ∃ state, r.state = some state ∧ state.stamp.msg = w.stamp.msg)
    (hbooks : s'.main.books = s.main.books)
    (hrequests : s'.requests = s.requests ++ rs.map fun r => (id, r))
    (hwindows : ∀ v ∈ s'.windows, ∃ u ∈ s.windows, u.id = v.id ∧ u.stamp.msg = v.stamp.msg) :
    Wired s' := by
  obtain ⟨hmem, rfl⟩ := window_mem hw
  obtain ⟨hopen, hlive⟩ := h.window w hmem
  have hne : ∀ r ∈ rs, r ≠ .closed := by
    rintro r hr rfl
    obtain ⟨state, hstate, -⟩ := hrs _ hr
    exact absurd hstate (by simp [Request.state])
  refine h.ask hopen hlive ?_ ?_ hbooks hrequests ?_
  · intro r hr state hstate
    obtain ⟨state', hstate', hmsg'⟩ := hrs r hr
    cases hstate.symm.trans hstate'
    exact hmsg'
  · exact List.pairwise_of_forall_mem_list fun r hr _ _ => hne r hr
  · exact fun v hv => ⟨hwindows v hv, fun hc => absurd rfl (hne _ hc)⟩

/-- A window asks and goes. -/
theorem Wired.ask_go {s s' : System} (h : Wired s) {id : ComposeId} {w : Window}
    (hw : s.window id = some w) (rs : List Request)
    (hrs : ∀ r ∈ rs, r ≠ .closed ∧ ∀ state, r.state = some state → state.stamp.msg = w.stamp.msg)
    (hbooks : s'.main.books = s.main.books)
    (hrequests : s'.requests = s.requests ++ (rs ++ [Request.closed]).map fun r => (id, r))
    (hwindows : s'.windows = (s.dropWindow id).windows) : Wired s' := by
  obtain ⟨hmem, rfl⟩ := window_mem hw
  obtain ⟨hopen, hlive⟩ := h.window w hmem
  refine h.ask hopen hlive ?_ ?_ hbooks hrequests ?_
  · intro r hr state hstate
    rcases List.mem_append.mp hr with hr | hr
    · exact (hrs r hr).2 state hstate
    · rw [List.mem_singleton.mp hr] at hstate
      exact absurd hstate (by simp [Request.state])
  · rw [List.pairwise_append]
    refine ⟨List.pairwise_of_forall_mem_list fun r hr _ _ => (hrs r hr).1, by simp, ?_⟩
    exact fun r hr _ _ => (hrs r hr).1
  · intro v hv
    rw [hwindows] at hv
    obtain ⟨hv, hne⟩ := mem_dropWindow hv
    exact ⟨⟨v, hv, rfl, rfl⟩, fun _ => hne⟩

/-! ## 3. Every run is wired -/

/-- The request that says a window is closed is handled. -/
theorem Wired.closed {s s' : System} (h : Wired s) {id : ComposeId}
    {rest : List (ComposeId × Request)} (hrequests : s.requests = (id, .closed) :: rest)
    (hbooks : s'.main.books = s.main.books.windowClosed id) (hrest : s'.requests = rest)
    (hwindows : s'.windows = s.windows) : Wired s' := by
  have hmem : (id, Request.closed) ∈ s.requests := by rw [hrequests]; exact List.mem_cons_self
  have hlast := h.last
  rw [hrequests, List.pairwise_cons] at hlast
  have hkeep : ∀ id' m, id' ≠ id → s.main.books.OpenEntry id' m → s'.main.books.OpenEntry id' m := by
    rintro id' m hne ⟨e, he, ho⟩
    rw [hbooks]
    exact ⟨e, (Books.windowClosed_lookup_ne _ _ hne).trans he, ho⟩
  refine ⟨?_, ?_, ?_, hrest ▸ hlast.2⟩
  · intro id' hid'
    rw [hbooks] at hid' ⊢
    rw [Books.windowClosed_deliveries]
    refine h.given id' fun hnone => hid' ?_
    by_cases hne : id' = id
    · cases hlook : (s.main.books.windowClosed id).entries.lookup id' with
      | none => rfl
      | some entry =>
        rw [hne] at hlook hnone
        obtain ⟨old, hold, -⟩ := Books.windowClosed_lookup _ _ hlook
        exact absurd (hnone.symm.trans hold) (by simp)
    · exact (Books.windowClosed_lookup_ne _ _ hne).trans hnone
  · intro w hw
    rw [hwindows] at hw
    obtain ⟨ho, hnot⟩ := h.window w hw
    have hne : w.id ≠ id := by
      rintro rfl
      exact hnot hmem
    refine ⟨hkeep _ _ hne ho, fun hc => hnot ?_⟩
    rw [hrest] at hc
    rw [hrequests]
    exact List.mem_cons_of_mem _ hc
  · intro id' r hr
    rw [hrest] at hr
    obtain ⟨m, ho, hstate⟩ := h.request id' r (by rw [hrequests]; exact List.mem_cons_of_mem _ hr)
    exact ⟨m, hkeep _ _ (hlast.1 _ hr rfl) ho, hstate⟩

/-- Every other request keeps. -/
theorem keeps_composeRequest (m : MainWindow) (refusal : Option String) (id : ComposeId)
    {r : Request} (hr : r ≠ .closed) : m.books.Keeps (m.composeRequest refusal id r).books := by
  cases r with
  | send state =>
    rcases m.books_sendMessage refusal id state with heq | ⟨account, config, -, heq⟩
    · exact Books.Keeps.of_eq heq
    · exact .of_entries (Nat.le_of_eq (by rw [MainWindow.composeRequest, heq]; rfl))
        (by rw [MainWindow.composeRequest, heq]; rfl)
  | saveDraft state explicit =>
    rw [MainWindow.composeRequest, MainWindow.books_saveDraft]
    exact Books.keeps_saveDraft ..
  | discard =>
    rw [MainWindow.composeRequest, MainWindow.books_discardMessage]
    exact Books.keeps_discard ..
  | closed => exact absurd rfl hr

/-- An answer of the cache keeps, and a window that it opens has an entry. -/
theorem keeps_handleCache {m : MainWindow}
    (hgiven : ∀ id, m.books.entries.lookup id ≠ none → id ≤ m.books.deliveries.lastId)
    (refusal : ComposeId → Option String) (opens : Bool) (e : CacheEvent) :
    m.books.Keeps (handleCache m refusal opens e).books := by
  cases e with
  | draftSaved row id =>
    rw [handleCache, MainWindow.books_draftSaved]
    exact Books.keeps_draftSaved ..
  | outboxEnqueued row id =>
    rw [handleCache, MainWindow.books_outboxEnqueued]
    exact .of_entries (Nat.le_refl _) rfl
  | outboxDue items => exact m.keeps_outboxDue refusal items
  | outbox items => exact .of_entries (Nat.le_refl _) rfl
  | draftLoaded row state =>
    rw [handleCache, MainWindow.books_draftLoaded]
    exact Books.keeps_startCompose hgiven ..
  | drafts => exact .refl _
  | failed => exact .refl _

/-- The windows that `start_compose` leaves. -/
theorem mem_opened {s : System} {state : ComposeState} {opens : Bool} {w : Window}
    (h : w ∈ s.opened state opens) : w ∈ s.windows ∨
      (opens = true ∧ w.id = s.main.deliveries.nextId.1 ∧ w.stamp.msg = state.stamp.msg) := by
  unfold opened at h
  split at h
  · next hopens =>
    rcases List.mem_append.mp h with hold | hnew
    · exact .inl hold
    · rw [List.mem_singleton.mp hnew]
      exact .inr ⟨hopens, rfl, rfl⟩
  · exact .inl h

/-- The step of the main window keeps, and `start_compose` opens a window in it. -/
theorem Wired.opens {s s' : System} (h : Wired s) (hkeeps : s.main.books.Keeps s'.main.books)
    (hrequests : s'.requests = s.requests) {state : ComposeState} {opens : Bool}
    (hwindows : s'.windows = s.opened state opens)
    (hopen : opens = true →
      s'.main.books.OpenEntry s.main.deliveries.nextId.1 state.stamp.msg) : Wired s' := by
  refine h.keeps hkeeps (hrequests ▸ List.Sublist.refl _) fun w hw => ?_
  rw [hwindows] at hw
  refine (mem_opened hw).imp_right ?_
  rintro ⟨hopens, hid, hmsg⟩
  rw [hid, hmsg]
  exact ⟨hopen hopens, Nat.lt_succ_self _⟩

theorem keeps_startCompose' {s : System} (h : Wired s) (state : ComposeState) (opens : Bool) :
    s.main.books.Keeps (s.main.startCompose state opens).books := by
  rw [MainWindow.books_startCompose]
  exact Books.keeps_startCompose h.given ..

/-- What a window that closes asks for. -/
theorem closeRequested_eq {w : Window} {choice : Window.Close} {rs : List Request}
    (h : w.closeRequested choice = some rs) : ∃ init, rs = init ++ [Request.closed] ∧
      ∀ r ∈ init, r ≠ .closed ∧ ∀ state, r.state = some state → state.stamp.msg = w.stamp.msg := by
  unfold Window.closeRequested at h
  split at h
  · cases h
    exact ⟨[], rfl, by simp⟩
  · cases choice with
    | save =>
      cases h
      exact ⟨[.saveDraft w.snapshot true], rfl, by simp [Request.state, Window.snapshot]⟩
    | discard =>
      cases h
      exact ⟨[.discard], rfl, by simp [Request.state]⟩
    | cancel => exact absurd h (by simp)

theorem timer_stamp (w : Window) : w.timer.1.id = w.id ∧ w.timer.1.stamp = w.stamp := by
  unfold Window.timer
  split <;> exact ⟨rfl, rfl⟩

theorem timer_requests {w : Window} {r : Request} (h : r ∈ w.timer.2) :
    r = .saveDraft w.snapshot false := by
  unfold Window.timer at h
  split at h
  · exact List.mem_singleton.mp h
  · exact absurd h (by simp)

theorem update_stamp {w w' : Window} {msg : ComposeMsg} (h : w.update msg = some w') :
    w'.id = w.id ∧ w'.stamp = w.stamp := by
  cases msg <;> cases h <;> exact ⟨rfl, rfl⟩

/-- Every step keeps the wiring. -/
theorem Wired.step {s s' : System} (h : Wired s) {a : Action} (hstep : s.step a = some s') :
    Wired s' := by
  have hsame : ∀ v ∈ s.windows, ∃ u ∈ s.windows, u.id = v.id ∧ u.stamp.msg = v.stamp.msg :=
    fun v hv => ⟨v, hv, rfl, rfl⟩
  cases a with
  | compose text account opens =>
    simp only [System.step] at hstep
    split at hstep
    · cases hstep
      exact h
    · cases hstep
      refine h.opens (keeps_startCompose' h ..) rfl rfl ?_
      rintro rfl
      rw [MainWindow.books_startCompose]
      exact Books.openEntry_startCompose ..
  | edit id text sender =>
    obtain ⟨w, hw, hstep⟩ := Option.bind_eq_some_iff.mp hstep
    obtain ⟨w', hw', rfl⟩ := Option.map_eq_some_iff.mp hstep
    unfold Window.edit at hw'
    split at hw'
    · exact absurd hw' (by simp)
    · cases hw'
      exact h.ask_stay hw [] (by simp) rfl (by simp [putWindow])
        fun v hv => same_of_putWindow
          { w with text := text, sender := sender, stamp := { w.stamp with rev := s.clock } }
          hw rfl rfl hv
  | attach id files =>
    obtain ⟨w, hw, rfl⟩ := Option.map_eq_some_iff.mp hstep
    exact h.ask_stay hw [] (by simp) rfl (by simp [putWindow])
      fun v hv => same_of_putWindow (w.attachmentsRead files s.clock) hw rfl rfl hv
  | clickSend id =>
    obtain ⟨w, hw, rfl⟩ := Option.map_eq_some_iff.mp hstep
    refine h.ask_stay hw w.send ?_ rfl rfl hsame
    unfold Window.send
    split
    · simp
    · simp [Request.state, Window.snapshot]
  | clickSave id =>
    obtain ⟨w, hw, rfl⟩ := Option.map_eq_some_iff.mp hstep
    refine h.ask_stay hw (w.saveDraft true).2 ?_ rfl rfl
      fun v hv => same_of_putWindow (w.saveDraft true).1 hw rfl rfl hv
    simp [Window.saveDraft, Request.state, Window.snapshot]
  | clickDiscard id =>
    obtain ⟨w, hw, rfl⟩ := Option.map_eq_some_iff.mp hstep
    exact h.ask_go hw [.discard] (by simp [Request.state]) rfl rfl rfl
  | closeBox id choice =>
    obtain ⟨w, hw, rfl⟩ := Option.map_eq_some_iff.mp hstep
    split
    · exact h
    · next rs hrs =>
      obtain ⟨init, rfl, hinit⟩ := closeRequested_eq hrs
      exact h.ask_go hw init hinit rfl rfl rfl
  | timer id =>
    obtain ⟨w, hw, rfl⟩ := Option.map_eq_some_iff.mp hstep
    obtain ⟨hid, hstamp⟩ := timer_stamp w
    refine h.ask_stay hw w.timer.2 ?_ rfl rfl
      fun v hv => same_of_putWindow _ hw hid (by rw [hstamp]) hv
    intro r hr
    exact ⟨w.snapshot, by rw [timer_requests hr]; rfl, rfl⟩
  | receive id =>
    obtain ⟨w, hw, hstep⟩ := Option.bind_eq_some_iff.mp hstep
    obtain ⟨p, -, rfl⟩ := Option.map_eq_some_iff.mp hstep
    dsimp only
    split
    · next w' hw' =>
      obtain ⟨hid, hstamp⟩ := update_stamp hw'
      exact h.ask_stay hw [] (by simp) rfl (by simp [putWindow])
        fun v hv => same_of_putWindow _ hw hid (by rw [hstamp]) hv
    · exact h.ask_go hw [] (by simp) rfl rfl rfl
  | handleRequest refusal =>
    obtain ⟨id, r, rest, hrequests, rfl⟩ := of_step_handleRequest hstep
    by_cases hr : r = .closed
    · subst hr
      exact h.closed hrequests (MainWindow.books_windowClosed ..) rfl rfl
    · refine h.keeps (keeps_composeRequest _ _ _ hr) ?_ fun w hw => .inl hw
      rw [hrequests]
      exact List.sublist_cons_self ..
  | handleEvent refusal opens =>
    obtain ⟨e, rest, hevents, rfl⟩ := of_step_handleEvent hstep
    have hkeeps := keeps_handleCache (m := { s.main with events := rest }) h.given refusal opens e
    cases e with
    | draftLoaded row state =>
      refine h.opens (hkeeps.after rfl rfl) rfl rfl ?_
      rintro rfl
      dsimp only [goOn, handleCache]
      rw [MainWindow.books_draftLoaded]
      exact Books.openEntry_startCompose ..
    | _ => exact h.keepsAll (hkeeps.after rfl rfl) rfl rfl
  | handleOutcome =>
    obtain ⟨o, rest, -, rfl⟩ := of_step_handleOutcome hstep
    refine h.keepsAll (Books.Keeps.after (c := ({ s.main with outcomes := rest } : MainWindow).books)
      ?_ rfl rfl) rfl rfl
    cases o with
    | sent id =>
      dsimp only [goOn, MainWindow.smtpEvent]
      rw [MainWindow.books_outcomeSent]
      exact Books.keeps_outcomeSent ..
    | error id error =>
      dsimp only [goOn, MainWindow.smtpEvent]
      rw [MainWindow.books_outcomeFailed]
      exact Books.keeps_outcomeFailed ..
  | poll =>
    cases hstep
    exact h.keepsAll (Books.Keeps.of_eq (MainWindow.books_command_quiet _ rfl)) rfl rfl
  | showQueue kind =>
    cases hstep
    exact h.keepsAll (Books.Keeps.of_eq (MainWindow.books_showQueue ..)) rfl rfl
  | closeQueue kind =>
    cases hstep
    exact h.keepsAll (Books.Keeps.of_eq (MainWindow.books_closeQueue ..)) rfl rfl
  | openDraft row =>
    cases hstep
    exact h.keepsAll (Books.Keeps.of_eq (MainWindow.books_command_quiet _ rfl)) rfl rfl
  | deleteRow kind row =>
    obtain ⟨-, heq⟩ := Option.ite_none_right_eq_some.mp hstep
    cases heq
    refine h.keepsAll ?_ rfl rfl
    dsimp only
    rw [MainWindow.books_deleteRow]
    exact Books.keeps_push ..
  | editQueued row opens =>
    simp only [System.step] at hstep
    split at hstep
    · cases hstep
      exact h
    · next item _ =>
      cases hstep
      refine h.opens ?_ rfl rfl ?_
      · dsimp only
        rw [MainWindow.books_editQueued]
        refine Books.Keeps.after (c := ({ s.main.books with
          listed := s.main.books.listed.eraseP fun i => i.id = item.id } : Books).push s.main.free
            (.deleteOutbox item.id)) ?_ (Books.push_entries ..) (Books.push_deliveries ..)
        refine Books.keeps_startCompose ?_ ..
        rw [Books.push_entries, Books.push_deliveries]
        exact h.given
      · rintro rfl
        dsimp only
        rw [MainWindow.books_editQueued]
        have hopen := Books.openEntry_startCompose (({ s.main.books with
          listed := s.main.books.listed.eraseP fun i => i.id = item.id } : Books).push s.main.free
            (.deleteOutbox item.id)) (item.compose.withAccount (some item.accountId))
        rw [Books.push_deliveries] at hopen
        exact hopen
  | retryQueued row refusal =>
    simp only [System.step] at hstep
    split at hstep
    · cases hstep
      exact h
    · cases hstep
      exact h.keepsAll (s.main.keeps_outboxDue ..) rfl rfl
  | execute =>
    obtain ⟨m, hm, rfl⟩ := Option.map_eq_some_iff.mp hstep
    refine h.keepsAll ?_ rfl rfl
    rcases MainWindow.books_execute hm with ⟨c, ws, -, -, heq⟩ | ⟨es, -, -, heq⟩
    · dsimp only
      rw [heq]
      exact (Books.keeps_run ..).after rfl rfl
    · dsimp only
      rw [heq]
      exact .of_entries (Nat.le_refl _) rfl
  | otherCommand =>
    cases hstep
    exact h.keepsAll (Books.Keeps.of_eq (MainWindow.books_command_quiet _ rfl)) rfl rfl
  | tick seconds =>
    cases hstep
    exact h.keepsAll (.of_entries (Nat.le_refl _) rfl) rfl rfl
  | mail error =>
    obtain ⟨c, rest, -, rfl⟩ := of_step_mail hstep
    exact h.keepsAll (.of_entries (Nat.le_refl _) rfl) rfl rfl
  | reload accounts =>
    cases hstep
    refine h.keepsAll ?_ rfl rfl
    dsimp only
    rw [MainWindow.books_reloadAccounts]
    exact .of_entries (Nat.le_refl _) rfl

theorem Wired.init {s : System} (h : Started s) : Wired s := by
  obtain ⟨accounts, db, hmain⟩ := h.main
  refine ⟨?_, ?_, ?_, ?_⟩
  · rw [hmain]
    exact fun id hid => absurd (AList.lookup_empty id) hid
  · rw [h.windows]
    simp
  · rw [h.requests]
    simp
  · rw [h.requests]
    exact List.Pairwise.nil

/-- Windows, requests and entries belong together in every run. -/
theorem wired {ok : System → Action → Prop} {s : System} (h : machine.Reach ok s) : Wired s :=
  Machine.Reach.invariant (P := Wired) (fun _ h0 => Wired.init h0)
    (fun _ a _ _ hw _ hstep => Wired.step hw (a := a) hstep) h

end System

end Esmail
