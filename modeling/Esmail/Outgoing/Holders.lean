/-
# Who may still send a message

A message can be sent by an id (its window is open and unsettled, or it is being sent), by a row of
the outbox that no queued command deletes, and by a queued command that will make such a row.  These
are its HOLDERS.  "Sent once" rests on `Once.together`: two holders of one message are the same, or
they are an id and what was enqueued for that id, so that the ledger's answer to "is this row owned?"
is the right one.

`Once` is kept by every function of the main window, under conditions that the lemmas below state
one by one; the next module collects them into the condition on a run.
-/
import Esmail.Outgoing.Numbering

namespace Esmail

open Transition

/-! ## 1. Holders -/

inductive Holder
  | writer (id : ComposeId)
  | row (row : Row)
  | command (id : ComposeId)

/-- The id that an enqueueing is for, while it is a command and when it is an answer. -/
def DbCommand.enqueues : DbCommand → Option ComposeId
  | .enqueueOutbox _ id _ _ => some id
  | _ => none

def CacheEvent.enqueued : CacheEvent → Option ComposeId
  | .outboxEnqueued _ id => some id
  | _ => none

def SmtpEvent.id : SmtpEvent → ComposeId
  | .sent id | .error id _ => id

namespace Books

variable {b b' : Books}

/-- The window of `id` is open, and its message has been neither sent nor thrown away. -/
def Writes (b : Books) (id : ComposeId) (m : Nat) : Prop :=
  ∃ entry, b.entries.lookup id = some entry ∧ entry.window = true ∧ entry.settled = false ∧
    entry.msg = m

def Flying (b : Books) (id : ComposeId) (m : Nat) : Prop :=
  ∃ flight, b.deliveries.inFlight.lookup id = some flight ∧ flight.state.stamp.msg = m

/-- The row is in the table, and no command deletes it. -/
def Live (b : Books) (row : Row) (m : Nat) : Prop :=
  (∃ c, (row, c) ∈ b.outbox ∧ c.stamp.msg = m) ∧ ¬ b.Doomed row

def Holds (b : Books) : Holder → Nat → Prop
  | .writer id, m => b.Writes id m ∨ b.Flying id m
  | .row row, m => b.Live row m
  | .command id, m => ∃ row config c, .enqueueOutbox row id config c ∈ b.writes ∧ c.stamp.msg = m

/-- The id owns the row, or will when the answers have been handled. -/
def Knows (b : Books) (id : ComposeId) (row : Row) : Prop :=
  b.deliveries.outboxRows.lookup id = some row ∨ .outboxEnqueued row id ∈ b.events

def Linked (b : Books) : Holder → Holder → Prop
  | .writer id, .row row | .row row, .writer id => b.Knows id row
  | .writer id, .command id' | .command id', .writer id => id = id'
  | _, _ => False

/-- The ids with an enqueueing that has not been answered: what the actor has answered comes before
what it has yet to run. -/
def enqueuing (b : Books) : List ComposeId :=
  b.events.filterMap CacheEvent.enqueued ++ b.writes.filterMap DbCommand.enqueues

/-- The ids of the sends whose outcome has not been handled. -/
def outstanding (b : Books) : List ComposeId :=
  b.outcomes.map SmtpEvent.id ++ b.mails.map SmtpCommand.id

/-- The versions that the mailer has been given. -/
def handed (b : Books) (delivered : List Stamp) : List Stamp :=
  delivered ++ b.mails.map fun c => c.compose.stamp

structure Once (b : Books) (delivered : List Stamp) (next : Nat) : Prop where
  together : ∀ m h h', b.Holds h m → b.Holds h' m → h = h' ∨ b.Linked h h'
  owner : ∀ id id' m m' row, b.Holds (.writer id) m → b.Holds (.writer id') m' →
    b.Knows id row → b.Knows id' row → id = id'
  enqueuing_ids : b.enqueuing.Nodup
  enqueuing_row : ∀ id ∈ b.enqueuing, b.deliveries.outboxRows.lookup id = none
  writer_le : ∀ id m, b.Holds (.writer id) m → id ≤ b.deliveries.lastId
  held_lt : ∀ h m, b.Holds h m → m < next
  handed_lt : ∀ st ∈ b.handed delivered, st.msg < next
  handed_once : ((b.handed delivered).map Stamp.msg).Nodup
  outstanding_ids : b.outstanding.Nodup
  outstanding_le : ∀ id ∈ b.outstanding, id ≤ b.deliveries.lastId
  /-- An id waits for the outcome of its send. -/
  busy : ∀ id ∈ b.outstanding, ∀ m, b.Holds (.writer id) m → b.deliveries.inFlight.lookup id ≠ none
  /-- A message that the mailer has is held by what waits for it, or by none. -/
  mailed : ∀ c ∈ b.mails, ∀ h, b.Holds h c.compose.stamp.msg → b.Flying c.id c.compose.stamp.msg
  sent : ∀ st ∈ delivered, ∀ h, b.Holds h st.msg →
    ∃ id, b.Flying id st.msg ∧ .sent id ∈ b.outcomes

variable {delivered : List Stamp} {next : Nat}

theorem mem_enqueuing {id : ComposeId} : id ∈ b.enqueuing ↔
    (∃ row, .outboxEnqueued row id ∈ b.events) ∨
      ∃ row config c, .enqueueOutbox row id config c ∈ b.writes := by
  unfold enqueuing
  rw [List.mem_append, List.mem_filterMap, List.mem_filterMap]
  refine or_congr ⟨?_, ?_⟩ ⟨?_, ?_⟩
  · rintro ⟨e, he, heq⟩
    cases e with
    | outboxEnqueued row id' =>
      cases heq
      exact ⟨row, he⟩
    | _ => exact absurd heq (by simp [CacheEvent.enqueued])
  · rintro ⟨row, he⟩
    exact ⟨_, he, rfl⟩
  · rintro ⟨c, hc, heq⟩
    cases c with
    | enqueueOutbox row id' config c =>
      cases heq
      exact ⟨row, config, c, hc⟩
    | _ => exact absurd heq (by simp [DbCommand.enqueues])
  · rintro ⟨row, config, c, hc⟩
    exact ⟨_, hc, rfl⟩

/-- An id that is being sent holds the message. -/
theorem Flying.holds {id : ComposeId} {m : Nat} (h : b.Flying id m) : b.Holds (.writer id) m := .inr h

theorem Flying.ne_none {id : ComposeId} {m : Nat} (h : b.Flying id m) :
    b.deliveries.inFlight.lookup id ≠ none := by
  obtain ⟨flight, hf, -⟩ := h
  rw [hf]
  simp

theorem linked_congr (hd : b'.deliveries = b.deliveries) (he : b'.events = b.events)
    {holder holder' : Holder} : b'.Linked holder holder' ↔ b.Linked holder holder' := by
  cases holder <;> cases holder' <;> simp [Linked, Knows, hd, he]

/-- What the mailer has been given is held by a send that waits for its outcome, or by none. -/
theorem Once.flying_of_handed (h : Once b delivered next) {st : Stamp} (hst : st ∈ b.handed delivered)
    {holder : Holder} (hh : b.Holds holder st.msg) : ∃ id ∈ b.outstanding, b.Flying id st.msg := by
  rcases List.mem_append.mp hst with hst | hst
  · obtain ⟨id, hf, ho⟩ := h.sent st hst holder hh
    exact ⟨id, List.mem_append_left _ (List.mem_map_of_mem ho), hf⟩
  · obtain ⟨c, hc, rfl⟩ := List.mem_map.mp hst
    exact ⟨c.id, List.mem_append_right _ (List.mem_map_of_mem hc), h.mailed c hc holder hh⟩

/-- No new holder, no send begun or ended: what is known and what waits stays as it is. -/
theorem Once.fewer (h : Once b delivered next)
    (hholds : ∀ holder m, b'.Holds holder m → b.Holds holder m)
    (hknows : ∀ id row, b'.Knows id row ↔ b.Knows id row)
    (henqueuing : b'.enqueuing.Sublist b.enqueuing)
    (hrow : ∀ id ∈ b'.enqueuing, b'.deliveries.outboxRows.lookup id = none)
    (hflight : b'.deliveries.inFlight = b.deliveries.inFlight)
    (hlast : b.deliveries.lastId ≤ b'.deliveries.lastId) (hmails : b'.mails = b.mails)
    (houtcomes : b'.outcomes = b.outcomes) : Once b' delivered next where
  together m x y hx hy := by
    refine (h.together m x y (hholds _ _ hx) (hholds _ _ hy)).imp_right fun hlinked => ?_
    cases x <;> cases y
    case writer.row => exact (hknows _ _).mpr hlinked
    case row.writer => exact (hknows _ _).mpr hlinked
    all_goals exact hlinked
  owner id id' m m' row hw hw' hk hk' :=
    h.owner id id' m m' row (hholds _ _ hw) (hholds _ _ hw') ((hknows _ _).mp hk) ((hknows _ _).mp hk')
  enqueuing_ids := h.enqueuing_ids.sublist henqueuing
  enqueuing_row := hrow
  writer_le id m hw := Nat.le_trans (h.writer_le id m (hholds _ _ hw)) hlast
  held_lt x m hx := h.held_lt x m (hholds _ _ hx)
  handed_lt := by rw [handed, hmails]; exact h.handed_lt
  handed_once := by rw [handed, hmails]; exact h.handed_once
  outstanding_ids := by rw [outstanding, hmails, houtcomes]; exact h.outstanding_ids
  outstanding_le := by
    rw [outstanding, hmails, houtcomes]
    exact fun id hid => Nat.le_trans (h.outstanding_le id hid) hlast
  busy := by
    rw [outstanding, hmails, houtcomes, hflight]
    exact fun id hid m hw => h.busy id hid m (hholds _ _ hw)
  mailed := by
    rw [hmails]
    intro c hc x hx
    rw [Flying, hflight]
    exact h.mailed c hc x (hholds _ _ hx)
  sent st hst x hx := by
    obtain ⟨id, hf, ho⟩ := h.sent st hst x (hholds _ _ hx)
    exact ⟨id, by rwa [Flying, hflight], by rwa [houtcomes]⟩

/-! ## 2. What concerns entries and tables only -/

/-- An entry may become this one: its window closes, or it is settled. -/
structure Fades (entry entry' : Entry) : Prop where
  window : entry'.window = true → entry.window = true
  settled : entry'.settled = false → entry.settled = false
  msg : entry'.msg = entry.msg

/-- A step that has nothing to do with sending: entries fade, and commands may be queued that
enqueue nothing. -/
structure Aside (b b' : Books) : Prop where
  entry : ∀ id entry', b'.entries.lookup id = some entry' →
    ∃ entry, b.entries.lookup id = some entry ∧ Fades entry entry'
  deliveries : b'.deliveries = b.deliveries
  listed : b'.listed = b.listed
  writes : ∃ cs, b'.writes = b.writes ++ cs ∧ ∀ c ∈ cs, c.enqueues = none
  events : b'.events = b.events
  outbox : b'.outbox = b.outbox
  mails : b'.mails = b.mails
  outcomes : b'.outcomes = b.outcomes

theorem Fades.refl (entry : Entry) : Fades entry entry := ⟨fun hw => hw, fun hs => hs, rfl⟩

theorem Fades.trans {e₁ e₂ e₃ : Entry} (h : Fades e₁ e₂) (h' : Fades e₂ e₃) : Fades e₁ e₃ :=
  ⟨fun hw => h.window (h'.window hw), fun hs => h.settled (h'.settled hs), h'.msg.trans h.msg⟩

theorem Aside.refl (b : Books) : Aside b b :=
  ⟨fun _ entry h => ⟨entry, h, .refl entry⟩, rfl, rfl, ⟨[], (List.append_nil _).symm, by simp⟩, rfl,
    rfl, rfl, rfl⟩

theorem Aside.trans {b₁ b₂ b₃ : Books} (h : Aside b₁ b₂) (h' : Aside b₂ b₃) : Aside b₁ b₃ := by
  obtain ⟨cs, hcs, hquiet⟩ := h.writes
  obtain ⟨cs', hcs', hquiet'⟩ := h'.writes
  refine ⟨?_, h'.deliveries.trans h.deliveries, h'.listed.trans h.listed,
    ⟨cs ++ cs', by rw [hcs', hcs, List.append_assoc], ?_⟩, h'.events.trans h.events,
    h'.outbox.trans h.outbox, h'.mails.trans h.mails, h'.outcomes.trans h.outcomes⟩
  · intro id e₃ he₃
    obtain ⟨e₂, he₂, hfades'⟩ := h'.entry id e₃ he₃
    obtain ⟨e₁, he₁, hfades⟩ := h.entry id e₂ he₂
    exact ⟨e₁, he₁, hfades.trans hfades'⟩
  · intro c hc
    rcases List.mem_append.mp hc with hc | hc
    · exact hquiet c hc
    · exact hquiet' c hc

theorem aside_push (b : Books) (free : Nat) {c : DbCommand} (hc : c.enqueues = none) :
    Aside b (b.push free c) := by
  unfold push
  split
  · exact ⟨fun _ entry h => ⟨entry, h, .refl entry⟩, rfl, rfl, ⟨[c], rfl, by simp [hc]⟩, rfl, rfl, rfl,
      rfl⟩
  · exact .refl b

theorem Aside.of_entries (h : ∀ id entry', b'.entries.lookup id = some entry' →
      ∃ entry, b.entries.lookup id = some entry ∧ Fades entry entry')
    (heq : b' = { b with entries := b'.entries }) : Aside b b' := by
  rw [heq] at h ⊢
  exact ⟨h, rfl, rfl, ⟨[], (List.append_nil _).symm, by simp⟩, rfl, rfl, rfl, rfl⟩

/-- An entry fades. -/
theorem aside_setEntry {id : ComposeId} {entry entry' : Entry}
    (h : b.entries.lookup id = some entry) (hfades : Fades entry entry') :
    Aside b (b.setEntry id entry') := by
  refine .of_entries ?_ rfl
  intro id' e he
  by_cases hid : id' = id
  · subst hid
    cases (AList.lookup_insert _).symm.trans he
    exact ⟨entry, h, hfades⟩
  · exact ⟨e, (AList.lookup_insert_ne hid).symm.trans he, .refl e⟩

theorem aside_forgetIfDone (b : Books) (id : ComposeId) : Aside b (b.forgetIfDone id) := by
  refine .of_entries ?_ ?_
  · exact fun id' entry he => ⟨entry, forgetIfDone_lookup b id he, .refl entry⟩
  · unfold forgetIfDone
    split
    · split <;> rfl
    · rfl

theorem aside_saveDraft (b : Books) (free : Nat) (id : ComposeId) (state : ComposeState)
    (explicit : Bool) : Aside b (b.saveDraft free id state explicit) := by
  unfold saveDraft
  split
  · exact .refl b
  · next entry hentry =>
    split
    · exact .refl b
    · have hset : Aside b (b.setEntry id
          { entry with savesPending := entry.savesPending + 1, announceSave := explicit }) :=
        aside_setEntry hentry ⟨fun hw => hw, fun hs => hs, rfl⟩
      exact hset.trans (aside_push _ free rfl)

theorem aside_settle (b : Books) (free : Nat) (id : ComposeId) : Aside b (b.settle free id) := by
  unfold settle
  split
  · exact .refl b
  · next entry hentry =>
    have hset : Aside b (b.setEntry id { entry with settled := true, draft := none }) :=
      aside_setEntry hentry ⟨fun hw => hw, by simp, rfl⟩
    cases entry.draft with
    | none => exact hset
    | some draft => exact hset.trans (aside_push _ free rfl)

theorem aside_windowClosed (b : Books) (id : ComposeId) : Aside b (b.windowClosed id) := by
  unfold windowClosed
  split
  · next entry hentry =>
    refine Aside.trans ?_ (aside_forgetIfDone _ id)
    exact aside_setEntry hentry ⟨by simp, fun hs => hs, rfl⟩
  · exact aside_forgetIfDone b id

theorem aside_draftSaved (b : Books) (free : Nat) (row : Row) (id : ComposeId) :
    Aside b (b.draftSaved free row id) := by
  unfold draftSaved
  split
  · exact .refl b
  · next entry hentry =>
    refine Aside.trans ?_ (aside_forgetIfDone _ id)
    split
    · have hset : Aside b (b.setEntry id { entry with savesPending := entry.savesPending - 1 }) :=
        aside_setEntry hentry ⟨fun hw => hw, fun hs => hs, rfl⟩
      exact hset.trans (aside_push _ free rfl)
    · exact aside_setEntry hentry ⟨fun hw => hw, fun hs => hs, rfl⟩

theorem Aside.enqueuing (h : Aside b b') : b'.enqueuing = b.enqueuing := by
  obtain ⟨cs, hcs, hquiet⟩ := h.writes
  unfold Books.enqueuing
  rw [h.events, hcs, List.filterMap_append, List.filterMap_eq_nil_iff.mpr hquiet, List.append_nil]

theorem Aside.holds (h : Aside b b') {holder : Holder} {m : Nat} (hh : b'.Holds holder m) :
    b.Holds holder m := by
  obtain ⟨cs, hcs, hquiet⟩ := h.writes
  have hmem : ∀ {c}, c ∈ b.writes → c ∈ b'.writes := fun hc => hcs ▸ List.mem_append_left cs hc
  cases holder with
  | writer id =>
    refine hh.imp ?_ ?_
    · rintro ⟨entry', hlook, hopen, hlive, hmsg⟩
      obtain ⟨entry, hold, hfades⟩ := h.entry id entry' hlook
      exact ⟨entry, hold, hfades.window hopen, hfades.settled hlive, hfades.msg.symm.trans hmsg⟩
    · rintro ⟨flight, hf, hmsg⟩
      exact ⟨flight, h.deliveries ▸ hf, hmsg⟩
  | row row =>
    obtain ⟨⟨c, hc, hmsg⟩, hlive⟩ := hh
    exact ⟨⟨c, h.outbox ▸ hc, hmsg⟩, fun hd => hlive (hd.imp hmem hmem)⟩
  | command id =>
    obtain ⟨row, config, c, hc, hmsg⟩ := hh
    rw [hcs] at hc
    rcases List.mem_append.mp hc with hc | hc
    · exact ⟨row, config, c, hc, hmsg⟩
    · exact absurd (hquiet _ hc) (by simp [DbCommand.enqueues])

theorem Once.aside (h : Once b delivered next) (ha : Aside b b') : Once b' delivered next := by
  refine h.fewer (fun _ _ hh => ha.holds hh) ?_ (ha.enqueuing ▸ List.Sublist.refl _) ?_
    (by rw [ha.deliveries]) (Nat.le_of_eq (by rw [ha.deliveries])) ha.mails ha.outcomes
  · intro id row
    rw [Knows, Knows, ha.deliveries, ha.events]
  · rw [ha.enqueuing, ha.deliveries]
    exact h.enqueuing_row

/-! ## 3. A send ends -/

/-- No enqueueing of `id` waits for its answer, so the ledger has all that is known of it. -/
theorem Knows.lookup {id : ComposeId} {row : Row} (h : b.Knows id row) (hid : id ∉ b.enqueuing) :
    b.deliveries.outboxRows.lookup id = some row :=
  h.resolve_right fun he => hid (mem_enqueuing.mpr (.inl ⟨row, he⟩))

/-- Whatever else holds the message of a send is the row that the ledger names. -/
theorem Once.others (h : Once b delivered next) {id : ComposeId} {m : Nat}
    (hw : b.Holds (.writer id) m) (hid : id ∉ b.enqueuing) {holder : Holder}
    (hh : b.Holds holder m) : holder = .writer id ∨
      ∃ row, holder = .row row ∧ b.deliveries.outboxRows.lookup id = some row := by
  rcases h.together m holder (.writer id) hh hw with heq | hlinked
  · exact .inl heq
  · cases holder with
    | writer _ => exact hlinked.elim
    | row row => exact .inr ⟨row, rfl, Knows.lookup hlinked hid⟩
    | command id' =>
      obtain ⟨row, config, c, hc, -⟩ := hh
      cases hlinked
      exact absurd (mem_enqueuing.mpr (.inr ⟨row, config, c, hc⟩)) hid

/-- The ledger forgets `id`, which is no holder any more; if it was being sent, then nothing else
holds its message. -/
theorem Once.ends (h : Once b delivered next) (id : ComposeId)
    (hholds : ∀ holder m, b'.Holds holder m → b.Holds holder m ∧ holder ≠ .writer id)
    (hgone : ∀ m, b.Flying id m → ∀ holder, ¬ b'.Holds holder m)
    (hdeliveries : b'.deliveries = (b.deliveries.forget id).2) (hevents : b'.events = b.events)
    (henqueuing : b'.enqueuing = b.enqueuing) (hmails : b'.mails = b.mails)
    (houtcomes : b'.outcomes.Sublist b.outcomes)
    (hothers : ∀ id', id' ≠ id → .sent id' ∈ b.outcomes → .sent id' ∈ b'.outcomes) :
    Once b' delivered next := by
  have hne : ∀ {id' m}, b'.Holds (.writer id') m → id' ≠ id :=
    fun hw heq => (hholds _ _ hw).2 (heq ▸ rfl)
  have hflight : ∀ {id'}, id' ≠ id →
      b'.deliveries.inFlight.lookup id' = b.deliveries.inFlight.lookup id' := by
    intro id' hid
    rw [hdeliveries]
    exact AList.lookup_erase_ne hid
  have hrow : ∀ {id'}, id' ≠ id →
      b'.deliveries.outboxRows.lookup id' = b.deliveries.outboxRows.lookup id' := by
    intro id' hid
    rw [hdeliveries]
    exact AList.lookup_erase_ne hid
  have hknows : ∀ {id' row}, id' ≠ id → (b'.Knows id' row ↔ b.Knows id' row) := by
    intro id' row hid
    rw [Knows, Knows, hrow hid, hevents]
  have hlast : b'.deliveries.lastId = b.deliveries.lastId := by
    rw [hdeliveries]
    rfl
  have hhanded : b'.handed delivered = b.handed delivered := by rw [handed, handed, hmails]
  have houtstanding : b'.outstanding.Sublist b.outstanding := by
    unfold outstanding
    rw [hmails]
    exact (houtcomes.map _).append (List.Sublist.refl _)
  have hflying : ∀ {id' m holder}, b'.Holds holder m → b.Flying id' m → b'.Flying id' m := by
    rintro id' m holder hh ⟨flight, hf, hmsg⟩
    refine ⟨flight, (hflight ?_).trans hf, hmsg⟩
    rintro rfl
    exact hgone m ⟨flight, hf, hmsg⟩ holder hh
  refine {
    together := ?_
    owner := fun id₁ id₂ m m' row hw hw' hk hk' =>
      h.owner id₁ id₂ m m' row (hholds _ _ hw).1 (hholds _ _ hw').1 ((hknows (hne hw)).mp hk)
        ((hknows (hne hw')).mp hk')
    enqueuing_ids := henqueuing ▸ h.enqueuing_ids
    enqueuing_row := ?_
    writer_le := fun id' m hw => hlast ▸ h.writer_le id' m (hholds _ _ hw).1
    held_lt := fun x m hx => h.held_lt x m (hholds _ _ hx).1
    handed_lt := hhanded ▸ h.handed_lt
    handed_once := hhanded ▸ h.handed_once
    outstanding_ids := h.outstanding_ids.sublist houtstanding
    outstanding_le := fun id' hid => hlast ▸ h.outstanding_le id' (houtstanding.subset hid)
    busy := ?_
    mailed := fun c hc x hx =>
      hflying hx (h.mailed c (hmails ▸ hc) x (hholds _ _ hx).1)
    sent := ?_ }
  · intro m x y hx hy
    refine (h.together m x y (hholds _ _ hx).1 (hholds _ _ hy).1).imp_right fun hlinked => ?_
    have hx' := (hholds _ _ hx).2
    have hy' := (hholds _ _ hy).2
    cases x <;> cases y
    case writer.row id' row => exact (hknows fun heq => hx' (heq ▸ rfl)).mpr hlinked
    case row.writer row id' => exact (hknows fun heq => hy' (heq ▸ rfl)).mpr hlinked
    all_goals exact hlinked
  · intro id' hid
    by_cases heq : id' = id
    · rw [heq, hdeliveries]
      exact AList.lookup_erase ..
    · rw [hrow heq]
      exact h.enqueuing_row id' (henqueuing ▸ hid)
  · intro id' hid m hw
    rw [hflight (hne hw)]
    exact h.busy id' (houtstanding.subset hid) m (hholds _ _ hw).1
  · intro st hst x hx
    obtain ⟨id', hf, ho⟩ := h.sent st hst x (hholds _ _ hx).1
    refine ⟨id', hflying hx hf, hothers id' ?_ ho⟩
    rintro rfl
    exact hgone _ hf x hx

/-- What a discard and a delivery have in common: the ledger forgets `id`, its row is deleted, and
its entry is settled. -/
def endSend (b : Books) (delete : Row → DbCommand) (free : Nat) (id : ComposeId) : Books :=
  let b' := b.withDeliveries (b.deliveries.forget id).2
  match b.deliveries.outboxRows.lookup id with
  | some row => (b'.push free (delete row)).settle (free - 1) id
  | none => b'.settle free id

theorem outcomeSent_eq {free : Nat} {id : ComposeId} {flight : Flight}
    (h : b.deliveries.inFlight.lookup id = some flight) :
    b.outcomeSent free id = b.endSend .markOutboxSent free id := by
  unfold outcomeSent endSend
  rw [Deliveries.delivered_eq h]
  rfl

/-- The two commands that delete a row of the outbox. -/
def Deletes (delete : Row → DbCommand) : Prop :=
  delete = .markOutboxSent ∨ delete = .deleteOutbox

theorem Deletes.enqueues {delete : Row → DbCommand} (h : Deletes delete) (row : Row) :
    (delete row).enqueues = none := by
  rcases h with rfl | rfl <;> rfl

theorem Deletes.doomed {delete : Row → DbCommand} (h : Deletes delete) {row : Row}
    (hmem : delete row ∈ b.writes) : b.Doomed row := by
  rcases h with rfl | rfl
  · exact .inl hmem
  · exact .inr hmem

theorem Aside.doomed (h : Aside b b') {row : Row} (hd : b.Doomed row) : b'.Doomed row := by
  obtain ⟨cs, hcs, -⟩ := h.writes
  have hmem : ∀ {c}, c ∈ b.writes → c ∈ b'.writes := fun hc => hcs ▸ List.mem_append_left cs hc
  exact hd.imp hmem hmem

theorem mem_push {free : Nat} (hfree : 0 < free) (c : DbCommand) : c ∈ (b.push free c).writes := by
  unfold push
  rw [if_pos hfree]
  exact List.mem_append_right _ (List.mem_singleton_self c)

/-- A settled entry writes no more. -/
theorem not_writes_settle (b : Books) (free : Nat) (id : ComposeId) (m : Nat) :
    ¬ (b.settle free id).Writes id m := by
  rintro ⟨entry, hlook, -, hlive, -⟩
  unfold settle at hlook
  split at hlook
  · next hnone => exact absurd (hnone.symm.trans hlook) (by simp)
  · split at hlook
    · rw [push_entries] at hlook
      cases (AList.lookup_insert _).symm.trans hlook
      exact absurd hlive (by simp)
    · cases (AList.lookup_insert _).symm.trans hlook
      exact absurd hlive (by simp)

theorem aside_endSend (b : Books) {delete : Row → DbCommand} (hdelete : Deletes delete) (free : Nat)
    (id : ComposeId) :
    Aside (b.withDeliveries (b.deliveries.forget id).2) (b.endSend delete free id) := by
  unfold endSend
  split
  · next row _ => exact (aside_push _ free (hdelete.enqueues row)).trans (aside_settle ..)
  · exact aside_settle ..

theorem not_writes_endSend (b : Books) (delete : Row → DbCommand) (free : Nat) (id : ComposeId)
    (m : Nat) : ¬ (b.endSend delete free id).Writes id m := by
  unfold endSend
  split
  · exact not_writes_settle _ _ _ _
  · exact not_writes_settle _ _ _ _

/-- The row that `id` owns is deleted, where there is room for the command. -/
theorem doomed_endSend {delete : Row → DbCommand} (hdelete : Deletes delete) {free : Nat}
    (hfree : 0 < free) {id : ComposeId} {row : Row}
    (hrow : b.deliveries.outboxRows.lookup id = some row) :
    (b.endSend delete free id).Doomed row := by
  unfold endSend
  rw [hrow]
  exact (aside_settle ..).doomed (hdelete.doomed (mem_push hfree _))

/-- A ledger with fewer sends. -/
theorem holds_of_fewer {d : Deliveries} (hsub : ∀ id flight, d.inFlight.lookup id = some flight →
      b.deliveries.inFlight.lookup id = some flight) {holder : Holder} {m : Nat}
    (h : (b.withDeliveries d).Holds holder m) : b.Holds holder m := by
  cases holder with
  | writer id =>
    refine h.imp_right ?_
    rintro ⟨flight, hf, hmsg⟩
    exact ⟨flight, hsub id flight hf, hmsg⟩
  | row _ => exact h
  | command _ => exact h

/-- A send that ends, by a delivery or a discard, holds nothing back. -/
theorem Once.endSend (h : Once b delivered next) {delete : Row → DbCommand} (hdelete : Deletes delete)
    {free : Nat} {id : ComposeId} {outs : List SmtpEvent} (houts : outs.Sublist b.outcomes)
    (hothers : ∀ id', id' ≠ id → .sent id' ∈ b.outcomes → .sent id' ∈ outs)
    (hid : b.deliveries.inFlight.lookup id ≠ none →
      id ∉ b.enqueuing ∧ (b.deliveries.outboxRows.lookup id ≠ none → 0 < free)) :
    Once ({ b with outcomes := outs }.endSend delete free id) delivered next := by
  have haside := aside_endSend { b with outcomes := outs } hdelete free id
  have hholds : ∀ holder m, ({ b with outcomes := outs }.endSend delete free id).Holds holder m →
      b.Holds holder m ∧ holder ≠ .writer id := by
    intro holder m hh
    refine ⟨holds_of_fewer (b := { b with outcomes := outs })
      (fun _ _ hf => (Deliveries.lookup_of_erase hf).2) (haside.holds hh), ?_⟩
    rintro rfl
    rcases hh with hw | ⟨flight, hf, -⟩
    · exact not_writes_endSend _ _ _ _ _ hw
    · rw [haside.deliveries] at hf
      exact (Deliveries.lookup_of_erase hf).1 rfl
  refine h.ends id hholds ?_ haside.deliveries haside.events haside.enqueuing haside.mails
    (haside.outcomes ▸ houts) (haside.outcomes ▸ hothers)
  intro m hflying holder hh
  obtain ⟨hanswered, hroom⟩ := hid hflying.ne_none
  obtain ⟨hold, hne⟩ := hholds holder m hh
  rcases h.others hflying.holds hanswered hold with rfl | ⟨row, rfl, hrow⟩
  · exact hne rfl
  · exact hh.2 (doomed_endSend hdelete (hroom (by rw [hrow]; simp)) hrow)

/-! ## 4. The outcomes -/

/-- An outcome is taken that is no news of a delivery, or of one that the ledger has forgotten. -/
theorem Once.popOutcome (h : Once b delivered next) {o : SmtpEvent} {rest : List SmtpEvent}
    (houtcomes : b.outcomes = o :: rest)
    (hidle : ∀ id, o = .sent id → b.deliveries.inFlight.lookup id = none) :
    Once { b with outcomes := rest } delivered next := by
  have hout : b.outstanding = o.id :: ({ b with outcomes := rest } : Books).outstanding := by
    simp only [outstanding, houtcomes, List.map_cons, List.cons_append]
  have hids := h.outstanding_ids
  rw [hout, List.nodup_cons] at hids
  refine { h with
    outstanding_ids := hids.2
    outstanding_le := fun id hid => h.outstanding_le id (hout ▸ List.mem_cons_of_mem _ hid)
    busy := fun id hid => h.busy id (hout ▸ List.mem_cons_of_mem _ hid)
    sent := ?_ }
  intro st hst x hx
  obtain ⟨id, hf, ho⟩ := h.sent st hst x hx
  refine ⟨id, hf, ?_⟩
  rw [houtcomes] at ho
  rcases List.mem_cons.mp ho with heq | ho
  · exact absurd (hidle id heq.symm) (Flying.ne_none hf)
  · exact ho

theorem Once.outcomeSent (h : Once b delivered next) {free : Nat} {id : ComposeId}
    {rest : List SmtpEvent} (houtcomes : b.outcomes = .sent id :: rest)
    (hid : b.deliveries.inFlight.lookup id ≠ none →
      id ∉ b.enqueuing ∧ (b.deliveries.outboxRows.lookup id ≠ none → 0 < free)) :
    Once ({ b with outcomes := rest }.outcomeSent free id) delivered next := by
  cases hf : b.deliveries.inFlight.lookup id with
  | none =>
    have hnone : ({ b with outcomes := rest } : Books).outcomeSent free id =
        { b with outcomes := rest } := by
      unfold Books.outcomeSent
      rw [Deliveries.delivered_none hf]
    rw [hnone]
    refine h.popOutcome houtcomes ?_
    rintro id' heq
    cases heq
    exact hf
  | some flight =>
    rw [outcomeSent_eq (b := { b with outcomes := rest }) hf]
    refine h.endSend (.inl rfl) (houtcomes ▸ List.sublist_cons_self ..) ?_ hid
    intro id' hne ho
    rw [houtcomes] at ho
    rcases List.mem_cons.mp ho with heq | ho
    · cases heq
      exact absurd rfl hne
    · exact ho

/-- A send has failed, and its outcome has been taken: the id is no longer being sent. -/
theorem Once.lands (h : Once b delivered next) {id : ComposeId} (hid : id ∉ b.outstanding) :
    Once (b.withDeliveries { b.deliveries with inFlight := b.deliveries.inFlight.erase id })
      delivered next := by
  have hholds : ∀ {holder m}, (b.withDeliveries { b.deliveries with
      inFlight := b.deliveries.inFlight.erase id }).Holds holder m → b.Holds holder m :=
    fun hh => holds_of_fewer (fun _ _ hf => (Deliveries.lookup_of_erase hf).2) hh
  have hflying : ∀ {id' m}, id' ∈ b.outstanding → b.Flying id' m →
      (b.withDeliveries { b.deliveries with
        inFlight := b.deliveries.inFlight.erase id }).Flying id' m := by
    rintro id' m hout ⟨flight, hf, hmsg⟩
    refine ⟨flight, (AList.lookup_erase_ne ?_).trans hf, hmsg⟩
    rintro rfl
    exact hid hout
  refine { h with
    together := fun m x y hx hy => h.together m x y (hholds hx) (hholds hy)
    owner := fun id₁ id₂ m m' row hw hw' => h.owner id₁ id₂ m m' row (hholds hw) (hholds hw')
    writer_le := fun id' m hw => h.writer_le id' m (hholds hw)
    held_lt := fun x m hx => h.held_lt x m (hholds hx)
    busy := ?_
    mailed := fun c hc x hx => hflying (List.mem_append_right _ (List.mem_map_of_mem hc))
      (h.mailed c hc x (hholds hx))
    sent := ?_ }
  · intro id' hout m hw hnone
    refine h.busy id' hout m (hholds hw) ((AList.lookup_erase_ne ?_).symm.trans hnone)
    rintro rfl
    exact hid hout
  · intro st hst x hx
    obtain ⟨id', hf, ho⟩ := h.sent st hst x (hholds hx)
    exact ⟨id', hflying (List.mem_append_left _ (List.mem_map_of_mem ho)) hf, ho⟩

/-- The message of a send that failed is enqueued; its window may still hold it, and nothing else. -/
theorem Once.enqueue (h : Once b delivered next) {id : ComposeId} {config : AccountId}
    {state : ComposeState} (hid : id ∉ b.enqueuing)
    (hrow : b.deliveries.outboxRows.lookup id = none) (hmsg : state.stamp.msg < next)
    (hheld : ∀ holder, b.Holds holder state.stamp.msg → holder = .writer id)
    (hfresh : ∀ st ∈ b.handed delivered, st.msg ≠ state.stamp.msg) :
    Once { b with writes := b.writes ++ [.enqueueOutbox none id config state] } delivered next := by
  have hholds : ∀ {holder m},
      ({ b with writes := b.writes ++ [.enqueueOutbox none id config state] } : Books).Holds holder m →
        b.Holds holder m ∨ (holder = .command id ∧ m = state.stamp.msg) := by
    intro holder m hh
    cases holder with
    | writer _ => exact .inl hh
    | row row =>
      obtain ⟨hc, hlive⟩ := hh
      exact .inl ⟨hc, fun hd => hlive (hd.imp (List.mem_append_left _) (List.mem_append_left _))⟩
    | command id' =>
      obtain ⟨row, config', c, hc, rfl⟩ := hh
      rcases List.mem_append.mp hc with hc | hc
      · exact .inl ⟨row, config', c, hc, rfl⟩
      · cases List.mem_singleton.mp hc
        exact .inr ⟨rfl, rfl⟩
  have henqueuing : ({ b with writes := b.writes ++ [.enqueueOutbox none id config state] } :
      Books).enqueuing = b.enqueuing ++ [id] := by
    simp [enqueuing, DbCommand.enqueues]
  refine { h with
    together := ?_
    enqueuing_ids := ?_
    enqueuing_row := ?_
    writer_le := fun id' m hw => h.writer_le id' m hw
    held_lt := ?_
    busy := fun id' hout m hw => h.busy id' hout m hw
    mailed := ?_
    sent := ?_ }
  · intro m x y hx hy
    rcases hholds hx with hx | ⟨rfl, rfl⟩
    · rcases hholds hy with hy | ⟨rfl, rfl⟩
      · exact (h.together m x y hx hy).imp_right (linked_congr rfl rfl).mpr
      · rw [hheld x hx]
        exact .inr rfl
    · rcases hholds hy with hy | ⟨rfl, -⟩
      · rw [hheld y hy]
        exact .inr rfl
      · exact .inl rfl
  · rw [henqueuing, List.nodup_append]
    refine ⟨h.enqueuing_ids, List.nodup_singleton id, ?_⟩
    rintro id₁ hmem id₂ hid₂ rfl
    exact hid (List.mem_singleton.mp hid₂ ▸ hmem)
  · intro id' hid'
    rw [henqueuing] at hid'
    rcases List.mem_append.mp hid' with hid' | hid'
    · exact h.enqueuing_row id' hid'
    · exact List.mem_singleton.mp hid' ▸ hrow
  · intro x m hx
    rcases hholds hx with hx | ⟨-, rfl⟩
    · exact h.held_lt x m hx
    · exact hmsg
  · intro c hc x hx
    rcases hholds hx with hx | ⟨-, heq⟩
    · exact h.mailed c hc x hx
    · exact absurd heq (hfresh _ (List.mem_append_right _ (List.mem_map_of_mem hc)))
  · intro st hst x hx
    rcases hholds hx with hx | ⟨-, heq⟩
    · exact h.sent st hst x hx
    · exact absurd heq (hfresh _ (List.mem_append_left _ hst))

/-- A failed send leaves its message to its row, or enqueues it. -/
theorem Once.outcomeFailed (h : Once b delivered next) {free : Nat} {id : ComposeId}
    (hout : id ∉ b.outstanding) (hid : b.deliveries.inFlight.lookup id ≠ none → id ∉ b.enqueuing) :
    Once (b.outcomeFailed free id) delivered next := by
  have hlands : Once (b.failedSend id) delivered next := h.lands hout
  have hcases := b.outcomeFailed_cases free id
  generalize b.outcomeFailed free id = b' at hcases ⊢
  cases hcases with
  | unknown => exact h
  | backoff => exact hlands
  | homeless => exact hlands
  | @enqueued flight config hf hrow =>
    have hanswered := hid (by rw [hf]; simp)
    have hflying : b.Flying id flight.state.stamp.msg := ⟨flight, hf, rfl⟩
    unfold Books.push
    split
    · refine hlands.enqueue hanswered hrow (h.held_lt _ _ hflying.holds) ?_ ?_
      · intro holder hh
        have hold : b.Holds holder flight.state.stamp.msg :=
          holds_of_fewer (fun _ _ hf' => (Deliveries.lookup_of_erase hf').2) hh
        rcases h.others hflying.holds hanswered hold with heq | ⟨row, -, hsome⟩
        · exact heq
        · exact absurd (hrow.symm.trans hsome) (by simp)
      · intro st hst heq
        obtain ⟨id', hout', hf'⟩ := h.flying_of_handed hst (heq ▸ hflying.holds)
        rw [heq] at hf'
        rcases h.others hflying.holds hanswered hf'.holds with heq' | ⟨_, heq', -⟩
        · cases heq'
          exact hout hout'
        · exact absurd heq' (by simp)
    · exact hlands

/-! ## 5. The cache -/

/-- An answer that is no `OutboxEnqueued` comes, or is taken. -/
theorem Once.otherEvents (h : Once b delivered next) {es : List CacheEvent}
    (hes : es.filterMap CacheEvent.enqueued = b.events.filterMap CacheEvent.enqueued)
    (hmem : ∀ row id, .outboxEnqueued row id ∈ es ↔ CacheEvent.outboxEnqueued row id ∈ b.events) :
    Once { b with events := es } delivered next := by
  have henqueuing : ({ b with events := es } : Books).enqueuing = b.enqueuing := by
    unfold enqueuing
    rw [← hes]
  refine h.fewer ?_ (fun id row => or_congr_right (hmem row id)) (henqueuing ▸ List.Sublist.refl _)
    (henqueuing ▸ h.enqueuing_row) rfl (Nat.le_refl _) rfl rfl
  intro holder m hh
  cases holder <;> exact hh

/-- The main window takes an answer about other things. -/
theorem Once.popEvent (h : Once b delivered next) {e : CacheEvent} {rest : List CacheEvent}
    (hevents : b.events = e :: rest) (he : e.enqueued = none) :
    Once { b with events := rest } delivered next := by
  refine h.otherEvents ?_ ?_
  · rw [hevents, List.filterMap_cons, he]
  · intro row id
    rw [hevents, List.mem_cons]
    refine ⟨.inr, fun hmem => hmem.resolve_left ?_⟩
    rintro rfl
    exact absurd he (by simp [CacheEvent.enqueued])

/-- The actor answers about other things. -/
theorem Once.answers (h : Once b delivered next) {es : List CacheEvent}
    (hes : ∀ e ∈ es, e.enqueued = none) :
    Once { b with events := b.events ++ es } delivered next := by
  refine h.otherEvents ?_ ?_
  · rw [List.filterMap_append, List.filterMap_eq_nil_iff.mpr hes, List.append_nil]
  · intro row id
    rw [List.mem_append]
    refine ⟨fun hmem => hmem.resolve_right fun hmem => ?_, .inl⟩
    exact absurd (hes _ hmem) (by simp [CacheEvent.enqueued])

theorem answer_enqueued {es : List CacheEvent} (h : b.Answer es) :
    ∀ e ∈ es, e.enqueued = none := by
  cases h <;> simp [CacheEvent.enqueued]

/-- An enqueueing is answered: the ledger takes the row. -/
theorem Once.outboxEnqueued (h : Once b delivered next) {row : Row} {id : ComposeId}
    {rest : List CacheEvent} (hevents : b.events = .outboxEnqueued row id :: rest) :
    Once ({ b with events := rest }.outboxEnqueued row id) delivered next := by
  have henqueuing : b.enqueuing = id :: ({ b with events := rest } : Books).enqueuing := by
    unfold enqueuing
    rw [hevents]
    rfl
  have hids := h.enqueuing_ids
  rw [henqueuing, List.nodup_cons] at hids
  have hmem : id ∈ b.enqueuing := henqueuing ▸ List.mem_cons_self
  have hnone := h.enqueuing_row id hmem
  have hknows : ∀ {id' row'}, ({ b with events := rest }.outboxEnqueued row id).Knows id' row' ↔
      b.Knows id' row' := by
    intro id' row'
    unfold Knows Books.outboxEnqueued Books.withDeliveries Deliveries.outboxEnqueued
    rw [hevents, List.mem_cons]
    dsimp only
    by_cases hid : id' = id
    · subst hid
      rw [AList.lookup_insert, hnone]
      constructor
      · rintro (heq | hr)
        · cases heq
          exact .inr (.inl rfl)
        · exact .inr (.inr hr)
      · rintro (heq | heq | hr)
        · exact absurd heq (by simp)
        · cases heq
          exact .inl rfl
        · exact .inr hr
    · rw [AList.lookup_insert_ne hid]
      refine or_congr_right ⟨.inr, fun hr => hr.resolve_left ?_⟩
      intro heq
      cases heq
      exact hid rfl
  refine h.fewer ?_ (fun _ _ => hknows) (henqueuing ▸ List.sublist_cons_self ..) ?_ rfl
    (Nat.le_refl _) rfl rfl
  · intro holder m hh
    cases holder <;> exact hh
  · intro id' hid'
    have hne : id' ≠ id := fun heq => hids.1 (heq ▸ hid')
    exact (AList.lookup_insert_ne hne).trans
      (h.enqueuing_row id' (henqueuing ▸ List.mem_cons_of_mem _ hid'))

/-- A command that deletes a row is run. -/
theorem Once.deleteRow (h : Once b delivered next) {row : Row} {delete : Row → DbCommand}
    (hdelete : Deletes delete) {ws : List DbCommand} (hwrites : b.writes = delete row :: ws) :
    Once { b with writes := ws, outbox := b.outbox.filter fun r => r.1 ≠ row } delivered next := by
  have henqueuing : ({ b with writes := ws, outbox := b.outbox.filter fun r => r.1 ≠ row } :
      Books).enqueuing = b.enqueuing := by
    unfold enqueuing
    rw [hwrites, List.filterMap_cons, hdelete.enqueues]
  refine h.fewer ?_ (fun _ _ => Iff.rfl) (henqueuing ▸ List.Sublist.refl _)
    (henqueuing ▸ h.enqueuing_row) rfl (Nat.le_refl _) rfl rfl
  intro holder m hh
  cases holder with
  | writer _ => exact hh
  | row row' =>
    obtain ⟨⟨c, hc, hmsg⟩, hlive⟩ := hh
    obtain ⟨hc, hne⟩ := List.mem_filter.mp hc
    have hne : row' ≠ row := of_decide_eq_true hne
    refine ⟨⟨c, hc, hmsg⟩, fun hd => hlive (hd.imp ?_ ?_)⟩
    · intro hmem
      rw [hwrites] at hmem
      refine (List.mem_cons.mp hmem).resolve_left fun heq => ?_
      rcases hdelete with rfl | rfl <;> cases heq
      exact hne rfl
    · intro hmem
      rw [hwrites] at hmem
      refine (List.mem_cons.mp hmem).resolve_left fun heq => ?_
      rcases hdelete with rfl | rfl <;> cases heq
      exact hne rfl
  | command id =>
    obtain ⟨row', config, c, hc, hmsg⟩ := hh
    exact ⟨row', config, c, hwrites ▸ List.mem_cons_of_mem _ hc, hmsg⟩

/-- Where the first command does not take a row away, and none of the rest does, none does. -/
theorem spared_of_popWrite {c : DbCommand} {ws : List DbCommand} (hwrites : b.writes = c :: ws)
    {row : Row} (hrow : c ≠ .markOutboxSent row ∧ c ≠ .deleteOutbox row)
    (hlive : ¬(.markOutboxSent row ∈ ws ∨ .deleteOutbox row ∈ ws)) :
    ¬(.markOutboxSent row ∈ b.writes ∨ .deleteOutbox row ∈ b.writes) := by
  rw [hwrites]
  rintro (hmem | hmem)
  · exact hlive (.inl ((List.mem_cons.mp hmem).resolve_left (Ne.symm hrow.1)))
  · exact hlive (.inr ((List.mem_cons.mp hmem).resolve_left (Ne.symm hrow.2)))

/-- A command about drafts is run. -/
theorem Once.popWrite (h : Once b delivered next) {c : DbCommand} {ws : List DbCommand}
    (hwrites : b.writes = c :: ws) (hc : c.enqueues = none)
    (hrow : ∀ row, c ≠ .markOutboxSent row ∧ c ≠ .deleteOutbox row)
    (drafts : List (Row × ComposeState)) (nextDraft : Row) :
    Once { b with writes := ws, drafts := drafts, nextDraft := nextDraft } delivered next := by
  have henqueuing : ({ b with writes := ws, drafts := drafts, nextDraft := nextDraft } :
      Books).enqueuing = b.enqueuing := by
    unfold enqueuing
    rw [hwrites, List.filterMap_cons, hc]
  refine h.fewer ?_ (fun _ _ => Iff.rfl) (henqueuing ▸ List.Sublist.refl _)
    (henqueuing ▸ h.enqueuing_row) rfl (Nat.le_refl _) rfl rfl
  intro holder m hh
  cases holder with
  | writer _ => exact hh
  | row row =>
    exact hh.imp_right (spared_of_popWrite hwrites (hrow row))
  | command id =>
    obtain ⟨row', config, c, hc, hmsg⟩ := hh
    exact ⟨row', config, c, hwrites ▸ List.mem_cons_of_mem _ hc, hmsg⟩

section InsertRow

variable {id : ComposeId} {config : AccountId} {c : ComposeState} {ws : List DbCommand}

/-- The new row is the only new holder, and the command is none any more. -/
theorem Holds.of_insertRow (hwrites : b.writes = .enqueueOutbox none id config c :: ws)
    (hgone : id ∉ ws.filterMap DbCommand.enqueues) {holder : Holder} {m : Nat}
    (h : ({ b with writes := ws }.run (.enqueueOutbox none id config c)).Holds holder m) :
    (b.Holds holder m ∧ holder ≠ .command id) ∨ (holder = .row b.nextOutbox ∧ m = c.stamp.msg) := by
  cases holder with
  | writer _ => exact .inl ⟨h, by simp⟩
  | row row =>
    obtain ⟨⟨c', hc', rfl⟩, hlive⟩ := h
    rcases List.mem_append.mp hc' with hc' | hc'
    · exact .inl ⟨⟨⟨c', hc', rfl⟩, spared_of_popWrite hwrites (by simp) hlive⟩, by simp⟩
    · cases List.mem_singleton.mp hc'
      exact .inr ⟨rfl, rfl⟩
  | command id' =>
    obtain ⟨row, config', c', hc', rfl⟩ := h
    refine .inl ⟨⟨row, config', c', hwrites ▸ List.mem_cons_of_mem _ hc', rfl⟩, ?_⟩
    rintro heq
    cases heq
    exact hgone (List.mem_filterMap.mpr ⟨_, hc', rfl⟩)

theorem knows_insertRow {id' : ComposeId} {row : Row} :
    ({ b with writes := ws }.run (.enqueueOutbox none id config c)).Knows id' row ↔
      b.Knows id' row ∨ (id' = id ∧ row = b.nextOutbox) := by
  simp only [Knows, Books.run, List.mem_append, List.mem_singleton, CacheEvent.outboxEnqueued.injEq]
  rw [or_assoc, and_comm]

end InsertRow

/-- A message is enqueued in the table: the row takes the place of the command. -/
theorem Once.insertRow (h : Once b delivered next) (hnumbered : Numbered b) {id : ComposeId}
    {config : AccountId} {c : ComposeState} {ws : List DbCommand}
    (hwrites : b.writes = .enqueueOutbox none id config c :: ws) :
    Once ({ b with writes := ws }.run (.enqueueOutbox none id config c)) delivered next := by
  have henqueuing : ({ b with writes := ws }.run (.enqueueOutbox none id config c)).enqueuing =
      b.enqueuing := by
    simp [enqueuing, Books.run, hwrites, CacheEvent.enqueued, DbCommand.enqueues]
  have hgone : id ∉ ws.filterMap DbCommand.enqueues := by
    have hids := h.enqueuing_ids
    rw [enqueuing, hwrites, List.nodup_append] at hids
    exact (List.nodup_cons.mp hids.2.1).1
  have hcommand : b.Holds (.command id) c.stamp.msg :=
    ⟨none, config, c, hwrites ▸ List.mem_cons_self, rfl⟩
  have hholds : ∀ {holder m},
      ({ b with writes := ws }.run (.enqueueOutbox none id config c)).Holds holder m →
        (b.Holds holder m ∧ holder ≠ .command id) ∨
          (holder = .row b.nextOutbox ∧ m = c.stamp.msg) :=
    Holds.of_insertRow hwrites hgone
  have hfresh : ∀ {id'}, ¬ b.Knows id' b.nextOutbox := by
    rintro id' (hlook | he)
    · exact absurd (hnumbered.row_lt id' _ hlook) (Nat.lt_irrefl _)
    · exact absurd (hnumbered.event_lt _ he _ (List.mem_singleton_self _)) (Nat.lt_irrefl _)
  -- Whatever else holds the message is the id itself.
  have hwriter : ∀ {holder}, b.Holds holder c.stamp.msg → holder ≠ .command id →
      holder = .writer id := by
    intro holder hh hne
    rcases h.together _ holder _ hh hcommand with heq | hlinked
    · exact absurd heq hne
    · cases holder with
      | writer id' =>
        cases hlinked
        rfl
      | row _ => exact hlinked.elim
      | command _ => exact hlinked.elim
  have hold : ∀ {holder m},
      ({ b with writes := ws }.run (.enqueueOutbox none id config c)).Holds holder m →
        ∃ holder', b.Holds holder' m := by
    intro holder m hh
    rcases hholds hh with ⟨hh, -⟩ | ⟨-, rfl⟩
    · exact ⟨holder, hh⟩
    · exact ⟨_, hcommand⟩
  refine { h with
    together := ?_
    owner := ?_
    enqueuing_ids := henqueuing ▸ h.enqueuing_ids
    enqueuing_row := henqueuing ▸ h.enqueuing_row
    writer_le := fun id' m hw => h.writer_le id' m hw
    held_lt := ?_
    busy := fun id' hid m hw => h.busy id' hid m hw
    mailed := ?_
    sent := ?_ }
  · intro m x y hx hy
    rcases hholds hx with ⟨hx, hxne⟩ | ⟨rfl, rfl⟩
    · rcases hholds hy with ⟨hy, hyne⟩ | ⟨rfl, rfl⟩
      · refine (h.together m x y hx hy).imp_right fun hlinked => ?_
        cases x <;> cases y
        case writer.row => exact knows_insertRow.mpr (.inl hlinked)
        case row.writer => exact knows_insertRow.mpr (.inl hlinked)
        all_goals exact hlinked
      · rw [hwriter hx hxne]
        exact .inr (knows_insertRow.mpr (.inr ⟨rfl, rfl⟩))
    · rcases hholds hy with ⟨hy, hyne⟩ | ⟨rfl, -⟩
      · rw [hwriter hy hyne]
        exact .inr (knows_insertRow.mpr (.inr ⟨rfl, rfl⟩))
      · exact .inl rfl
  · intro id₁ id₂ m m' row hw hw' hk hk'
    rw [knows_insertRow] at hk hk'
    rcases hk with hk | ⟨rfl, rfl⟩
    · rcases hk' with hk' | ⟨rfl, rfl⟩
      · exact h.owner id₁ id₂ m m' row hw hw' hk hk'
      · exact absurd hk hfresh
    · rcases hk' with hk' | ⟨rfl, -⟩
      · exact absurd hk' hfresh
      · rfl
  · intro x m hx
    obtain ⟨x', hx'⟩ := hold hx
    exact h.held_lt x' m hx'
  · intro c' hc' x hx
    obtain ⟨x', hx'⟩ := hold hx
    exact h.mailed c' hc' x' hx'
  · intro st hst x hx
    obtain ⟨x', hx'⟩ := hold hx
    exact h.sent st hst x' hx'

end Books

end Esmail
