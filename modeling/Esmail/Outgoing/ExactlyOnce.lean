/-
# A message is sent once

The claim of the outbox: whatever the order of clicks, answers, outcomes and dropped commands, a message
whose send has succeeded is not handed to the mailer again, and no row of the outbox has two sends in
flight.  The program does NOT keep it in every run: Send, clicked twice before the window is told that it
is sending, hands the message over twice (`second_click_sends_again`).

`Careful` says, action by action, when it goes on keeping it, and `sent_once` is about the runs all of
whose steps are careful: no row is sent twice at a time, no message that was delivered is handed over
again, and so none is delivered twice.

The invariant, `Once` of `Holders.lean`, is about who may still hand a message over: two of these are an
id and the row it knows or is about to make, or they are one; and once it is delivered nobody may, but the
id whose outcome waits.  A window that sends passes it on to the ledger (`Once.send`); the outbox timer
gives the message of a row to a new id, which owns the row from then on (`Once.retry`, by induction over
the due list, with `Attempting` between two attempts); and Edit takes it back into a window
(`Once.editQueued`).

Continuing a listed draft, and replacing the mail core, are not among these operations: the first gives
one message two windows, the second a send no outcome.
-/
import Esmail.Outgoing.Holders

namespace Esmail

open Transition

namespace Books

variable {b b' : Books} {delivered : List Stamp} {next : Nat}

/-! ## 1. The mailer -/

/-- The mailer is done with a message. -/
theorem Once.mail (h : Once b delivered next) {c : SmtpCommand} {rest : List SmtpCommand}
    (hmails : b.mails = c :: rest) (error : Option String) :
    Once { b with mails := rest, outcomes := b.outcomes ++ [System.outcomeOf c.id error] }
      (delivered ++ if error = none then [c.compose.stamp] else []) next := by
  have hmem : c ∈ b.mails := hmails ▸ List.mem_cons_self
  have hholds : ∀ {holder m}, ({ b with mails := rest, outcomes := b.outcomes ++
      [System.outcomeOf c.id error] } : Books).Holds holder m → b.Holds holder m := by
    intro holder m hh
    cases holder <;> exact hh
  have hid : (System.outcomeOf c.id error).id = c.id := by cases error <;> rfl
  have houtstanding : ({ b with mails := rest, outcomes := b.outcomes ++
      [System.outcomeOf c.id error] } : Books).outstanding = b.outstanding := by
    simp [outstanding, hmails, hid]
  have hhanded : (({ b with mails := rest, outcomes := b.outcomes ++
      [System.outcomeOf c.id error] } : Books).handed
        (delivered ++ if error = none then [c.compose.stamp] else [])).Sublist
          (b.handed delivered) := by
    unfold handed
    rw [hmails, List.map_cons]
    cases error with
    | none => simp
    | some error =>
      rw [if_neg (by simp), List.append_nil]
      exact (List.Sublist.refl _).append (List.sublist_cons_self ..)
  refine {
    together := fun m x y hx hy =>
      (h.together m x y (hholds hx) (hholds hy)).imp_right (linked_congr rfl rfl).mpr
    owner := fun id₁ id₂ m m' row hw hw' => h.owner id₁ id₂ m m' row (hholds hw) (hholds hw')
    enqueuing_ids := h.enqueuing_ids
    enqueuing_row := h.enqueuing_row
    writer_le := fun id m hw => h.writer_le id m (hholds hw)
    held_lt := fun x m hx => h.held_lt x m (hholds hx)
    handed_lt := fun st hst => h.handed_lt st (hhanded.subset hst)
    handed_once := h.handed_once.sublist (hhanded.map _)
    outstanding_ids := houtstanding ▸ h.outstanding_ids
    outstanding_le := houtstanding ▸ h.outstanding_le
    busy := fun id hout m hw => h.busy id (houtstanding ▸ hout) m (hholds hw)
    mailed := fun c' hc' x hx =>
      h.mailed c' (hmails ▸ List.mem_cons_of_mem _ hc') x (hholds hx)
    sent := ?_ }
  intro st hst x hx
  rcases List.mem_append.mp hst with hold | hnew
  · obtain ⟨id, hf, ho⟩ := h.sent st hold x (hholds hx)
    exact ⟨id, hf, List.mem_append_left _ ho⟩
  · cases error with
    | some error => exact absurd hnew (by simp)
    | none =>
      obtain rfl : st = c.compose.stamp := List.mem_singleton.mp hnew
      exact ⟨c.id, h.mailed c hmem x (hholds hx),
        List.mem_append_right _ (List.mem_singleton_self _)⟩

/-- The mailer is given a message that is being sent, and that it has not had. -/
theorem Once.hand (h : Once b delivered next) {id : ComposeId} {state : ComposeState}
    (hflying : b.Flying id state.stamp.msg) (hidle : id ∉ b.outstanding)
    (hfresh : ∀ st ∈ b.handed delivered, st.msg ≠ state.stamp.msg) (config : AccountId) :
    Once (b.hand id config state) delivered next := by
  have hholds : ∀ {holder m}, (b.hand id config state).Holds holder m → b.Holds holder m := by
    intro holder m hh
    cases holder <;> exact hh
  have hhanded : (b.hand id config state).handed delivered = b.handed delivered ++ [state.stamp] := by
    simp [handed, Books.hand]
  have houtstanding : (b.hand id config state).outstanding = b.outstanding ++ [id] := by
    simp [outstanding, Books.hand]
  have hcases : ∀ {id'}, id' ∈ (b.hand id config state).outstanding →
      id' ∈ b.outstanding ∨ id' = id := by
    intro id' hid'
    rw [houtstanding] at hid'
    exact (List.mem_append.mp hid').imp_right List.mem_singleton.mp
  refine { h with
    together := fun m x y hx hy =>
      (h.together m x y (hholds hx) (hholds hy)).imp_right (linked_congr rfl rfl).mpr
    owner := fun id₁ id₂ m m' row hw hw' => h.owner id₁ id₂ m m' row (hholds hw) (hholds hw')
    writer_le := fun id m hw => h.writer_le id m (hholds hw)
    held_lt := fun x m hx => h.held_lt x m (hholds hx)
    handed_lt := ?_
    handed_once := ?_
    outstanding_ids := ?_
    outstanding_le := ?_
    busy := ?_
    mailed := ?_
    sent := fun st hst x hx => h.sent st hst x (hholds hx) }
  · intro st hst
    rw [hhanded] at hst
    rcases List.mem_append.mp hst with hst | hst
    · exact h.handed_lt st hst
    · rw [List.mem_singleton.mp hst]
      exact h.held_lt _ _ hflying.holds
  · rw [hhanded, List.map_append, List.nodup_append]
    refine ⟨h.handed_once, List.nodup_singleton _, ?_⟩
    intro m hm m' hm' heq
    obtain ⟨st, hst, rfl⟩ := List.mem_map.mp hm
    exact hfresh st hst (heq.trans (List.mem_singleton.mp hm'))
  · rw [houtstanding, List.nodup_append]
    refine ⟨h.outstanding_ids, List.nodup_singleton _, ?_⟩
    rintro id₁ hmem id₂ hid₂ rfl
    exact hidle (List.mem_singleton.mp hid₂ ▸ hmem)
  · intro id' hid'
    rcases hcases hid' with hid' | rfl
    · exact h.outstanding_le id' hid'
    · exact h.writer_le _ _ hflying.holds
  · intro id' hid' m hw
    rcases hcases hid' with hid' | rfl
    · exact h.busy id' hid' m (hholds hw)
    · exact hflying.ne_none
  · intro c hc x hx
    rcases List.mem_append.mp hc with hc | hc
    · exact h.mailed c hc x (hholds hx)
    · cases List.mem_singleton.mp hc
      exact hflying

/-- The ledger takes a send of an open window. -/
theorem Once.begin (h : Once b delivered next) {id : ComposeId} {state : ComposeState}
    (hwrites : b.Writes id state.stamp.msg) (hidle : b.deliveries.inFlight.lookup id = none)
    (account : Nat) : Once (b.withDeliveries (b.deliveries.begin id account state)) delivered next := by
  have hholds : ∀ {holder m}, (b.withDeliveries (b.deliveries.begin id account state)).Holds holder m →
      b.Holds holder m := by
    intro holder m hh
    cases holder with
    | writer id' =>
      rcases hh with hw | ⟨flight, hf, hmsg⟩
      · exact .inl hw
      · rcases Deliveries.lookup_of_insert hf with ⟨rfl, rfl⟩ | ⟨-, hold⟩
        · exact .inl (hmsg ▸ hwrites)
        · exact .inr ⟨flight, hold, hmsg⟩
    | row _ => exact hh
    | command _ => exact hh
  have hflying : ∀ {id' m}, b.Flying id' m →
      (b.withDeliveries (b.deliveries.begin id account state)).Flying id' m := by
    rintro id' m ⟨flight, hf, hmsg⟩
    refine ⟨flight, (AList.lookup_insert_ne ?_).trans hf, hmsg⟩
    rintro rfl
    exact absurd (hidle.symm.trans hf) (by simp)
  refine { h with
    together := fun m x y hx hy => h.together m x y (hholds hx) (hholds hy)
    owner := fun id₁ id₂ m m' row hw hw' => h.owner id₁ id₂ m m' row (hholds hw) (hholds hw')
    writer_le := fun id m hw => h.writer_le id m (hholds hw)
    held_lt := fun x m hx => h.held_lt x m (hholds hx)
    busy := ?_
    mailed := fun c hc x hx => hflying (h.mailed c hc x (hholds hx))
    sent := ?_ }
  · intro id' hout m hw hnone
    by_cases hid : id' = id
    · subst hid
      exact absurd ((AList.lookup_insert _).symm.trans hnone) (by simp)
    · exact h.busy id' hout m (hholds hw) ((AList.lookup_insert_ne hid).symm.trans hnone)
  · intro st hst x hx
    obtain ⟨id', hf, ho⟩ := h.sent st hst x (hholds hx)
    exact ⟨id', hflying hf, ho⟩

/-- A window that is not being sent sends its message. -/
theorem Once.send (h : Once b delivered next) {id : ComposeId} {state : ComposeState}
    (hwrites : b.Writes id state.stamp.msg) (hidle : b.deliveries.inFlight.lookup id = none)
    (account : Nat) (config : AccountId) :
    Once ((b.hand id config state).withDeliveries (b.deliveries.begin id account state)) delivered
      next := by
  have hw : b.Holds (.writer id) state.stamp.msg := .inl hwrites
  refine Once.hand (h.begin hwrites hidle account) ⟨_, AList.lookup_insert _, rfl⟩ ?_ ?_ config
  · exact fun hout => h.busy id hout _ hw hidle
  · intro st hst heq
    obtain ⟨id', hout, hflying⟩ := h.flying_of_handed hst (heq ▸ hw)
    rw [heq] at hflying
    rcases h.together _ _ _ hflying.holds hw with hsame | hlinked
    · cases hsame
      exact hflying.ne_none hidle
    · exact hlinked.elim

/-! ## 2. New ids -/

/-- An id is given, and takes over a message that at most a row holds, which it then owns. -/
theorem Once.newWriter (h : Once b delivered next) {m next' : Nat}
    (hlast : b'.deliveries.lastId = b.deliveries.lastId + 1)
    (hholds : ∀ holder m', b'.Holds holder m' → b.Holds holder m' ∨
      (holder = .writer (b.deliveries.lastId + 1) ∧ m' = m))
    (hold : ∀ holder, b'.Holds holder m → b.Holds holder m →
      ∃ row, holder = .row row ∧ b'.Knows (b.deliveries.lastId + 1) row)
    (hknows : ∀ id row, id ≠ b.deliveries.lastId + 1 → (b'.Knows id row ↔ b.Knows id row))
    (hown : ∀ id m' row, b.Holds (.writer id) m' → b'.Knows (b.deliveries.lastId + 1) row →
      ¬ b.Knows id row)
    (hfresh : ∀ st ∈ b.handed delivered, st.msg ≠ m)
    (henqueuing : b'.enqueuing = b.enqueuing)
    (hrow : ∀ id ∈ b.enqueuing, b'.deliveries.outboxRows.lookup id = none)
    (hflight : ∀ id, id ≠ b.deliveries.lastId + 1 →
      b'.deliveries.inFlight.lookup id = b.deliveries.inFlight.lookup id)
    (hmails : b'.mails = b.mails) (houtcomes : b'.outcomes = b.outcomes)
    (hm : m < next') (hnext : next ≤ next') : Once b' delivered next' := by
  have hne : ∀ {id m'}, b.Holds (.writer id) m' → id ≠ b.deliveries.lastId + 1 := by
    rintro id m' hw rfl
    exact absurd (h.writer_le _ m' hw) (Nat.not_succ_le_self _)
  have hflying : ∀ {id m'}, b.Flying id m' → b'.Flying id m' := by
    rintro id m' hf
    obtain ⟨flight, hlook, hmsg⟩ := hf
    exact ⟨flight, (hflight id (hne (Flying.holds ⟨flight, hlook, hmsg⟩))).trans hlook, hmsg⟩
  have houtstanding : b'.outstanding = b.outstanding := by
    rw [outstanding, outstanding, hmails, houtcomes]
  have hhanded : b'.handed delivered = b.handed delivered := by rw [handed, handed, hmails]
  refine {
    together := ?_
    owner := ?_
    enqueuing_ids := henqueuing ▸ h.enqueuing_ids
    enqueuing_row := fun id hid => hrow id (henqueuing ▸ hid)
    writer_le := ?_
    held_lt := ?_
    handed_lt := fun st hst => Nat.lt_of_lt_of_le (h.handed_lt st (hhanded ▸ hst)) hnext
    handed_once := hhanded ▸ h.handed_once
    outstanding_ids := houtstanding ▸ h.outstanding_ids
    outstanding_le := ?_
    busy := ?_
    mailed := ?_
    sent := ?_ }
  · intro m' x y hx hy
    rcases hholds x m' hx with hx' | ⟨rfl, rfl⟩
    · rcases hholds y m' hy with hy' | ⟨rfl, rfl⟩
      · refine (h.together m' x y hx' hy').imp_right fun hlinked => ?_
        cases x <;> cases y
        case writer.row => exact (hknows _ _ (hne hx')).mpr hlinked
        case row.writer => exact (hknows _ _ (hne hy')).mpr hlinked
        all_goals exact hlinked
      · obtain ⟨row, rfl, hk⟩ := hold x hx hx'
        exact .inr hk
    · rcases hholds y _ hy with hy' | ⟨rfl, -⟩
      · obtain ⟨row, rfl, hk⟩ := hold y hy hy'
        exact .inr hk
      · exact .inl rfl
  · intro id₁ id₂ m₁ m₂ row hw₁ hw₂ hk₁ hk₂
    rcases hholds _ _ hw₁ with hold₁ | ⟨heq₁, -⟩
    · rw [hknows _ _ (hne hold₁)] at hk₁
      rcases hholds _ _ hw₂ with hold₂ | ⟨heq₂, -⟩
      · rw [hknows _ _ (hne hold₂)] at hk₂
        exact h.owner id₁ id₂ m₁ m₂ row hold₁ hold₂ hk₁ hk₂
      · cases heq₂
        exact absurd hk₁ (hown _ _ _ hold₁ hk₂)
    · cases heq₁
      rcases hholds _ _ hw₂ with hold₂ | ⟨heq₂, -⟩
      · rw [hknows _ _ (hne hold₂)] at hk₂
        exact absurd hk₂ (hown _ _ _ hold₂ hk₁)
      · cases heq₂
        rfl
  · intro id m' hw
    rw [hlast]
    rcases hholds _ _ hw with hw | ⟨heq, -⟩
    · exact Nat.le_succ_of_le (h.writer_le id m' hw)
    · cases heq
      exact Nat.le_refl _
  · intro x m' hx
    rcases hholds x m' hx with hx | ⟨-, rfl⟩
    · exact Nat.lt_of_lt_of_le (h.held_lt x m' hx) hnext
    · exact hm
  · intro id hid
    rw [hlast]
    exact Nat.le_succ_of_le (h.outstanding_le id (houtstanding ▸ hid))
  · intro id hid m' hw
    rw [houtstanding] at hid
    have hidne : id ≠ b.deliveries.lastId + 1 := by
      rintro rfl
      exact absurd (h.outstanding_le _ hid) (Nat.not_succ_le_self _)
    rcases hholds _ _ hw with hw | ⟨heq, -⟩
    · rw [hflight id hidne]
      exact h.busy id hid m' hw
    · cases heq
      exact absurd rfl hidne
  · intro c hc x hx
    rw [hmails] at hc
    rcases hholds x _ hx with hx | ⟨-, heq⟩
    · exact hflying (h.mailed c hc x hx)
    · exact absurd heq (hfresh _ (List.mem_append_right _ (List.mem_map_of_mem hc)))
  · intro st hst x hx
    rcases hholds x _ hx with hx | ⟨-, heq⟩
    · obtain ⟨id, hf, ho⟩ := h.sent st hst x hx
      exact ⟨id, hflying hf, houtcomes ▸ ho⟩
    · exact absurd heq (hfresh _ (List.mem_append_left _ hst))

/-- A window opens for a message that nothing else holds. -/
theorem Once.opens (h : Once b delivered next) (hnumbered : Numbered b) {state : ComposeState}
    {next' : Nat} (hheld : ∀ holder, ¬ b.Holds holder state.stamp.msg)
    (hfresh : ∀ st ∈ b.handed delivered, st.msg ≠ state.stamp.msg)
    (hm : state.stamp.msg < next') (hnext : next ≤ next') (opens : Bool) :
    Once (b.startCompose state opens) delivered next' := by
  have hclosed : Once (b.withDeliveries b.deliveries.nextId.2) delivered next := by
    refine h.fewer ?_ (fun _ _ => Iff.rfl) (List.Sublist.refl _) h.enqueuing_row rfl (Nat.le_succ _)
      rfl rfl
    intro holder m hh
    cases holder <;> exact hh
  unfold Books.startCompose
  cases opens with
  | false =>
    exact { hclosed with
      held_lt := fun x m hx => Nat.lt_of_lt_of_le (hclosed.held_lt x m hx) hnext
      handed_lt := fun st hst => Nat.lt_of_lt_of_le (hclosed.handed_lt st hst) hnext }
  | true =>
    have hunknown : ∀ {row}, ¬ b.Knows (b.deliveries.lastId + 1) row := by
      rintro row (hlook | he)
      · exact absurd (hnumbered.row_le _ (by rw [hlook]; simp)) (Nat.not_succ_le_self _)
      · exact absurd (hnumbered.enqueued_le _ _ he) (Nat.not_succ_le_self _)
    refine h.newWriter (m := state.stamp.msg) rfl ?_ (fun x _ hx => absurd hx (hheld x))
      (fun _ _ _ => Iff.rfl) (fun _ _ _ _ hk => absurd hk hunknown) hfresh rfl h.enqueuing_row
      (fun _ _ => rfl) rfl rfl hm hnext
    intro holder m' hh
    cases holder with
    | writer id =>
      rcases hh with ⟨entry, hlook, hopen, hlive, hmsg⟩ | hf
      · rcases Deliveries.lookup_of_insert hlook with ⟨rfl, rfl⟩ | ⟨-, hold⟩
        · exact .inr ⟨rfl, hmsg.symm⟩
        · exact .inl (.inl ⟨entry, hold, hopen, hlive, hmsg⟩)
      · exact .inl (.inr hf)
    | row _ => exact .inl hh
    | command _ => exact .inl hh

/-! ## 3. Rows that no id owns -/

/-- No id that could send the row knows it. -/
def Free (b : Books) (row : Row) : Prop :=
  (∀ id, b.deliveries.outboxRows.lookup id = some row →
    b.windowOpen id = false ∧ b.deliveries.inFlight.lookup id = none) ∧
  ∀ id, .outboxEnqueued row id ∉ b.events

theorem Free.unknown {row : Row} (h : b.Free row) {id : ComposeId} {m : Nat}
    (hw : b.Holds (.writer id) m) : ¬ b.Knows id row := by
  rintro (hlook | he)
  · obtain ⟨hclosed, hidle⟩ := h.1 id hlook
    rcases hw with ⟨entry, hentry, hopen, -⟩ | hf
    · rw [windowOpen, hentry] at hclosed
      exact absurd (hopen.symm.trans hclosed) (by simp)
    · exact hf.ne_none hidle
  · exact h.2 id he

/-- What such a row holds, nothing else holds, and the mailer has never had it. -/
theorem Once.alone (h : Once b delivered next) {row : Row} {m : Nat} (hlive : b.Live row m)
    (hfree : b.Free row) :
    (∀ holder, b.Holds holder m → holder = .row row) ∧ ∀ st ∈ b.handed delivered, st.msg ≠ m := by
  have hrow : b.Holds (.row row) m := hlive
  constructor
  · intro holder hh
    rcases h.together m holder (.row row) hh hrow with heq | hlinked
    · exact heq
    · cases holder with
      | writer id => exact absurd hlinked (hfree.unknown hh)
      | row _ => exact hlinked.elim
      | command _ => exact hlinked.elim
  · rintro st hst rfl
    obtain ⟨id, -, hflying⟩ := h.flying_of_handed hst hrow
    rcases h.together _ _ _ hflying.holds hrow with heq | hlinked
    · exact absurd heq (by simp)
    · exact hfree.unknown hflying.holds hlinked

/-- A row of the list is edited: its message moves to a window. -/
theorem Once.editQueued (h : Once b delivered next) (hnumbered : Numbered b) {free : Nat}
    {item : OutboxItem} (hitem : item ∈ b.listed) (hlive : b.Live item.id item.compose.stamp.msg)
    (hfree : b.Free item.id) (hroom : 0 < free) (opens : Bool) :
    Once (b.editQueued free item opens) delivered next := by
  have hlisted : Once { b with listed := b.listed.eraseP fun i => i.id = item.id } delivered next := by
    refine h.fewer ?_ (fun _ _ => Iff.rfl) (List.Sublist.refl _) h.enqueuing_row rfl (Nat.le_refl _)
      rfl rfl
    intro holder m hh
    cases holder <;> exact hh
  have haside := aside_push { b with listed := b.listed.eraseP fun i => i.id = item.id } free
    (c := .deleteOutbox item.id) rfl
  obtain ⟨halone, hfresh⟩ := h.alone hlive hfree
  have hnumbered' : Numbered ({ b with listed := b.listed.eraseP fun i => i.id = item.id }.push free
      (.deleteOutbox item.id)) :=
    (hnumbered.editQueued_list item).push (c := .deleteOutbox item.id) (hnumbered.listed_lt item hitem) free
  refine (hlisted.aside haside).opens hnumbered' ?_ ?_ (h.held_lt (.row item.id) _ hlive)
    (Nat.le_refl _) opens
  · intro holder hh
    have hold : b.Holds holder item.compose.stamp.msg := by
      have hh' := haside.holds hh
      cases holder <;> exact hh'
    rw [halone holder hold] at hh
    exact hh.2 (.inr (mem_push hroom _))
  · rw [handed, haside.mails]
    exact hfresh

/-! ## 4. The outbox timer -/

/-- A send that is in the ledger, for a row, and not yet with the mailer. -/
structure Ready (b : Books) (delivered : List Stamp) (retry : Retry) : Prop where
  flight : b.deliveries.inFlight.lookup retry.id = some ⟨retry.account, retry.state⟩
  row : ∃ row, b.deliveries.outboxRows.lookup retry.id = some row
  idle : retry.id ∉ b.outstanding
  fresh : ∀ st ∈ b.handed delivered, st.msg ≠ retry.state.stamp.msg

def Distinct (retries : List Retry) : Prop :=
  retries.Pairwise fun r r' => r.id ≠ r'.id ∧ r.state.stamp.msg ≠ r'.state.stamp.msg

/-- What holds between two attempts. -/
structure Attempting (b : Books) (delivered : List Stamp) (next : Nat) (retries : List Retry) :
    Prop where
  once : Once b delivered next
  ready : ∀ retry ∈ retries, Ready b delivered retry
  distinct : Distinct retries

theorem Ready.flying {retry : Retry} (h : Ready b delivered retry) :
    b.Flying retry.id retry.state.stamp.msg := ⟨_, h.flight, rfl⟩

/-- A row that no id owns gets an id of its own. -/
theorem Once.retry (h : Once b delivered next) (hnumbered : Numbered b) {item : OutboxItem}
    (hlive : b.Live item.id item.compose.stamp.msg) (hfree : b.Free item.id) (account : Nat) :
    Once (b.withDeliveries (b.deliveries.retry item account).2) delivered next := by
  obtain ⟨halone, hfresh⟩ := h.alone hlive hfree
  have hknown : ∀ {row}, (b.withDeliveries (b.deliveries.retry item account).2).Knows
      (b.deliveries.lastId + 1) row → row = item.id := by
    rintro row (hlook | he)
    · exact Option.some.inj (hlook.symm.trans (AList.lookup_insert _))
    · exact absurd (hnumbered.enqueued_le _ _ he) (Nat.not_succ_le_self _)
  refine h.newWriter (m := item.compose.stamp.msg) rfl ?_ ?_ ?_ ?_ hfresh rfl ?_ ?_ rfl rfl
    (h.held_lt (.row item.id) _ hlive) (Nat.le_refl _)
  · intro holder m' hh
    cases holder with
    | writer id =>
      rcases hh with hw | ⟨flight, hf, hmsg⟩
      · exact .inl (.inl hw)
      · rcases Deliveries.lookup_of_insert hf with ⟨rfl, rfl⟩ | ⟨-, hold⟩
        · exact .inr ⟨rfl, hmsg.symm⟩
        · exact .inl (.inr ⟨flight, hold, hmsg⟩)
    | row _ => exact .inl hh
    | command _ => exact .inl hh
  · intro holder _ hh
    rw [halone holder hh]
    exact ⟨item.id, rfl, .inl (AList.lookup_insert _)⟩
  · intro id row hne
    exact or_congr_left (Eq.congr_left (AList.lookup_insert_ne hne))
  · intro id m' row hw hk
    rw [hknown hk]
    exact hfree.unknown hw
  · intro id hid
    have hne : id ≠ b.deliveries.lastId + 1 := by
      rintro rfl
      rcases mem_enqueuing.mp hid with ⟨row, he⟩ | ⟨row, config, c, hc⟩
      · exact absurd (hnumbered.enqueued_le _ _ he) (Nat.not_succ_le_self _)
      · exact absurd (hnumbered.write _ hc).2 (Nat.not_succ_le_self _)
    exact (AList.lookup_insert_ne hne).trans (h.enqueuing_row id hid)
  · exact fun id hne => AList.lookup_insert_ne hne

/-- The id of a retry is ready to be handed over. -/
theorem ready_retry (h : Once b delivered next) {item : OutboxItem}
    (hlive : b.Live item.id item.compose.stamp.msg) (hfree : b.Free item.id) (account : Nat) :
    Ready (b.withDeliveries (b.deliveries.retry item account).2) delivered
      (b.deliveries.retry item account).1 where
  flight := AList.lookup_insert _
  row := ⟨item.id, AList.lookup_insert _⟩
  idle hout := absurd (h.outstanding_le _ hout) (Nat.not_succ_le_self _)
  fresh := (h.alone hlive hfree).2

/-- The row stays free when another one is retried. -/
theorem Free.retry {row : Row} (h : b.Free row) {item : OutboxItem} (hne : item.id ≠ row)
    (account : Nat) :
    (b.withDeliveries (b.deliveries.retry item account).2).Free row := by
  refine ⟨fun id hlook => ?_, h.2⟩
  rcases Deliveries.lookup_of_insert hlook with ⟨-, heq⟩ | ⟨hid, hold⟩
  · exact absurd heq.symm hne
  · obtain ⟨hclosed, hidle⟩ := h.1 id hold
    exact ⟨hclosed, (AList.lookup_insert_ne hid).trans hidle⟩

theorem Attempting.retryAll (accountIndex : AccountId → Option Nat) : ∀ (items : List OutboxItem)
    {b : Books} {done : List Retry}, Attempting b delivered next done → Numbered b →
    (∀ item ∈ items, item.id < b.nextOutbox) → (items.map OutboxItem.id).Nodup →
    (∀ item ∈ items, accountIndex item.accountId ≠ none →
      b.Live item.id item.compose.stamp.msg) → (∀ item ∈ items, b.Free item.id) →
    Attempting (b.withDeliveries (Deliveries.retryAll accountIndex b.deliveries items).2) delivered
      next (done ++ (Deliveries.retryAll accountIndex b.deliveries items).1.1)
  | [], _, _, h, _, _, _, _, _ => by
    rw [Deliveries.retryAll, List.append_nil]
    exact h
  | item :: items, b, done, h, hnumbered, hlt, hids, hlive, hfree => by
    rw [List.map_cons, List.nodup_cons] at hids
    have htail := fun {i} hi => List.mem_cons_of_mem item (a := i) (l := items) hi
    unfold Deliveries.retryAll
    split
    · exact Attempting.retryAll accountIndex items h hnumbered (fun i hi => hlt i (htail hi)) hids.2
        (fun i hi => hlive i (htail hi)) fun i hi => hfree i (htail hi)
    · next account haccount =>
      have hlive₁ := hlive item List.mem_cons_self (by rw [haccount]; simp)
      have hfree₁ := hfree item List.mem_cons_self
      have hnext : Attempting (b.withDeliveries (b.deliveries.retry item account).2) delivered next
          (done ++ [(b.deliveries.retry item account).1]) := by
        refine ⟨h.once.retry hnumbered hlive₁ hfree₁ account, ?_, ?_⟩
        · intro r hr
          rcases List.mem_append.mp hr with hr | hr
          · have hready := h.ready r hr
            have hne : r.id ≠ b.deliveries.lastId + 1 := by
              intro heq
              exact absurd (h.once.writer_le _ _ hready.flying.holds)
                (heq ▸ Nat.not_succ_le_self _)
            obtain ⟨row, hrow⟩ := hready.row
            exact ⟨(AList.lookup_insert_ne hne).trans hready.flight,
              ⟨row, (AList.lookup_insert_ne hne).trans hrow⟩, hready.idle, hready.fresh⟩
          · rw [List.mem_singleton.mp hr]
            exact ready_retry h.once hlive₁ hfree₁ account
        · unfold Distinct
          rw [List.pairwise_append]
          refine ⟨h.distinct, List.pairwise_singleton _ _, ?_⟩
          intro r hr r' hr'
          rw [List.mem_singleton.mp hr']
          have hflying := (h.ready r hr).flying
          constructor
          · intro heq
            exact absurd (h.once.writer_le _ _ hflying.holds) (heq ▸ Nat.not_succ_le_self _)
          · intro heq
            have hh : b.Holds (.writer r.id) item.compose.stamp.msg := heq ▸ hflying.holds
            exact absurd ((h.once.alone hlive₁ hfree₁).1 _ hh) (by simp)
      have hrest := Attempting.retryAll accountIndex items hnext
        (hnumbered.retry (hlt item List.mem_cons_self) hfree₁.2 account)
        (fun i hi => hlt i (htail hi)) hids.2 (fun i hi => hlive i (htail hi))
        fun i hi => (hfree i (htail hi)).retry (fun heq => hids.1 (heq ▸ List.mem_map_of_mem hi))
          account
      rw [List.append_assoc] at hrest
      exact hrest

theorem Attempting.hand {retry : Retry} {rest : List Retry}
    (h : Attempting b delivered next (retry :: rest)) (config : AccountId) :
    Attempting (b.hand retry.id config retry.state) delivered next rest := by
  have hready := h.ready retry List.mem_cons_self
  have hdistinct := List.pairwise_cons.mp h.distinct
  refine ⟨h.once.hand hready.flying hready.idle hready.fresh config, ?_, hdistinct.2⟩
  intro r hr
  obtain ⟨hid, hmsg⟩ := hdistinct.1 r hr
  have hr' := h.ready r (List.mem_cons_of_mem _ hr)
  refine ⟨hr'.flight, hr'.row, ?_, ?_⟩
  · simp only [outstanding, Books.hand, List.map_append, List.map_cons, List.map_nil]
    rw [← List.append_assoc, List.mem_append, List.mem_singleton]
    exact not_or.mpr ⟨hr'.idle, Ne.symm hid⟩
  · simp only [handed, Books.hand, List.map_append, List.map_cons, List.map_nil]
    intro st hst
    rw [← List.append_assoc, List.mem_append, List.mem_singleton] at hst
    rcases hst with hst | rfl
    · exact hr'.fresh st hst
    · exact hmsg

theorem Attempting.failed {retry : Retry} {rest : List Retry}
    (h : Attempting b delivered next (retry :: rest)) (free : Nat) :
    Attempting (b.outcomeFailed free retry.id) delivered next rest := by
  have hready := h.ready retry List.mem_cons_self
  obtain ⟨row, hrow⟩ := hready.row
  have hdistinct := List.pairwise_cons.mp h.distinct
  have hanswered : retry.id ∉ b.enqueuing :=
    fun hid => absurd ((h.once.enqueuing_row _ hid).symm.trans hrow) (by simp)
  have heq := outcomeFailed_owned hready.flight hrow free
  refine ⟨h.once.outcomeFailed hready.idle fun _ => hanswered, ?_, hdistinct.2⟩
  intro r hr
  have hr' := h.ready r (List.mem_cons_of_mem _ hr)
  rw [heq]
  exact ⟨(AList.lookup_erase_ne (Ne.symm (hdistinct.1 r hr).1)).trans hr'.flight, hr'.row, hr'.idle,
    hr'.fresh⟩

/-- A list of due rows is handled, all of whose rows are in the table and not about to go. -/
theorem Once.outboxDue {s : MainWindow} (h : Once s.books delivered next)
    (hnumbered : Numbered s.books) (refusal : ComposeId → Option String) {items : List OutboxItem}
    (hids : (items.map OutboxItem.id).Nodup)
    (hitems : ∀ item ∈ items, item.id < s.books.nextOutbox ∧
      ∀ id, CacheEvent.outboxEnqueued item.id id ∉ s.books.events)
    (hlive : ∀ item ∈ items, s.accountIndex item.accountId ≠ none →
      item.id ∉ s.books.deliveries.ownedRows s.books.windowOpen →
        s.books.Live item.id item.compose.stamp.msg) :
    Once (s.outboxDue refusal items).books delivered next := by
  refine (s.outboxDue_induction (P := fun rs b => Attempting b delivered next rs) ?_ ?_ refusal items
    ?_).once
  · exact fun _ _ _ free hb => hb.failed free
  · exact fun _ _ _ config hb => hb.hand config
  · have hstart : Attempting s.books delivered next [] := ⟨h, by simp, List.Pairwise.nil⟩
    have hfilter : ∀ {item}, item ∈ items.filter (fun i =>
        i.id ∉ s.books.deliveries.ownedRows s.books.windowOpen) →
          item ∈ items ∧ item.id ∉ s.books.deliveries.ownedRows s.books.windowOpen := by
      intro item hi
      obtain ⟨hmem, howned⟩ := List.mem_filter.mp hi
      exact ⟨hmem, of_decide_eq_true howned⟩
    have hall := Attempting.retryAll s.accountIndex (items.filter fun i =>
        i.id ∉ s.books.deliveries.ownedRows s.books.windowOpen) hstart hnumbered
      (fun i hi => (hitems i (hfilter hi).1).1) (hids.sublist (List.filter_sublist.map _))
      (fun i hi hknown => hlive i (hfilter hi).1 hknown (hfilter hi).2) ?_
    · exact hall
    · intro i hi
      obtain ⟨hmem, howned⟩ := hfilter hi
      refine ⟨fun id hlook => ?_, (hitems i hmem).2⟩
      have hno := fun hacts => howned (Deliveries.mem_ownedRows.mpr ⟨id, hlook, hacts⟩)
      exact ⟨Bool.eq_false_iff.mpr fun hopen => hno (.inl hopen),
        by_contra fun hflying => hno (.inr hflying)⟩

/-! ## 5. Careful runs -/

def isSending (b : Books) (id : ComposeId) : Bool := (b.deliveries.inFlight.lookup id).isSome

def isSettled (b : Books) (id : ComposeId) : Bool :=
  match b.entries.lookup id with
  | some entry => entry.settled
  | none => false

/-- The row is in the table, and no command deletes it. -/
def isLive (b : Books) (row : Row) : Bool :=
  b.outbox.any (fun r => r.1 = row) && .markOutboxSent row ∉ b.writes && .deleteOutbox row ∉ b.writes

def isOwned (b : Books) (row : Row) : Bool := row ∈ b.deliveries.ownedRows b.windowOpen

/-- A send may end: the ledger knows its row, and the row can be deleted. -/
def mayEnd (b : Books) (free : Nat) (id : ComposeId) : Bool :=
  !b.isSending id ||
    (id ∉ b.enqueuing && ((b.deliveries.outboxRows.lookup id).isNone || 0 < free))

end Books

namespace System

open Books

/-- A row of a list may be retried: it is skipped anyway, or it is still there to be sent. -/
def mayRetry (m : MainWindow) (item : OutboxItem) : Bool :=
  (m.accountIndex item.accountId).isNone || m.books.isOwned item.id || m.books.isLive item.id

/-- When a step keeps "sent once". -/
def careful (s : System) : Action → Bool
  | .handleRequest _ =>
    match s.requests with
    | (id, .send _) :: _ => !s.main.books.isSending id && !s.main.books.isSettled id
    | (id, .discard) :: _ => s.main.books.mayEnd s.main.free id
    | _ => true
  | .handleEvent _ _ =>
    match s.main.events with
    | .outboxDue items :: _ => items.all (mayRetry s.main)
    | .draftLoaded _ _ :: _ => false
    | _ => true
  | .handleOutcome =>
    match s.main.outcomes with
    | .sent id :: _ => s.main.books.mayEnd s.main.free id
    | .error id _ :: _ => !s.main.books.isSending id || id ∉ s.main.books.enqueuing
    | [] => true
  | .editQueued row _ =>
    match s.main.listedItem row with
    | some item =>
      s.main.books.isLive item.id && !s.main.books.isOwned item.id && 0 < s.main.free
    | none => true
  | .retryQueued row _ =>
    match s.main.listedItem row with
    | some item => mayRetry s.main item
    | none => true
  -- Not among the operations of the claim: drafts are not continued, and the core is not replaced.
  | .openDraft _ | .reload _ => false
  | _ => true

theorem isSending_eq_false {b : Books} {id : ComposeId} :
    b.isSending id = false ↔ b.deliveries.inFlight.lookup id = none := by
  rw [isSending, Option.isSome_eq_false_iff, Option.isNone_iff_eq_none]

theorem mayEnd_iff {b : Books} {free : Nat} {id : ComposeId} : b.mayEnd free id = true ↔
    (b.deliveries.inFlight.lookup id ≠ none →
      id ∉ b.enqueuing ∧ (b.deliveries.outboxRows.lookup id ≠ none → 0 < free)) := by
  unfold mayEnd isSending
  cases b.deliveries.inFlight.lookup id with
  | none => simp
  | some flight => cases b.deliveries.outboxRows.lookup id <;> simp

theorem not_isOwned {b : Books} {row : Row} (h : b.isOwned row = false) :
    ∀ id, b.deliveries.outboxRows.lookup id = some row →
      b.windowOpen id = false ∧ b.deliveries.inFlight.lookup id = none := by
  intro id hlook
  have hno : ¬ (b.windowOpen id = true ∨ b.deliveries.inFlight.lookup id ≠ none) := fun hacts =>
    absurd (Deliveries.mem_ownedRows.mpr ⟨id, hlook, hacts⟩) (of_decide_eq_false h)
  exact ⟨Bool.eq_false_iff.mpr fun hopen => hno (.inl hopen),
    by_contra fun hflying => hno (.inr hflying)⟩

/-- A listed row that is still there has the listed text. -/
theorem live_of_listed {b : Books} (h : Numbered b) {item : OutboxItem} (hitem : b.Listed item)
    (hlive : b.isLive item.id = true) : b.Live item.id item.compose.stamp.msg := by
  simp only [isLive, Bool.and_eq_true, decide_eq_true_eq, List.any_eq_true] at hlive
  obtain ⟨⟨⟨⟨row, c⟩, hc, rfl⟩, hsent⟩, hdelete⟩ := hlive
  refine ⟨⟨c, hc, by rw [h.listed_eq item hitem c hc]⟩, ?_⟩
  rintro (hd | hd)
  · exact hsent hd
  · exact hdelete hd

theorem live_of_mayRetry {m : MainWindow} (h : Numbered m.books) {item : OutboxItem}
    (hitem : m.books.Listed item) (hmay : mayRetry m item = true)
    (haccount : m.accountIndex item.accountId ≠ none)
    (howned : item.id ∉ m.books.deliveries.ownedRows m.books.windowOpen) :
    m.books.Live item.id item.compose.stamp.msg := by
  refine live_of_listed h hitem ?_
  simp only [mayRetry, Bool.or_eq_true, Option.isNone_iff_eq_none] at hmay
  rcases hmay with (hnone | hown) | hlive
  · exact absurd hnone haccount
  · exact absurd (of_decide_eq_true hown) howned
  · exact hlive

/-- A command that writes is run. -/
theorem Once.run {b : Books} {delivered : List Stamp} {next : Nat} (h : Once b delivered next)
    (hnumbered : Numbered b) {c : DbCommand} {ws : List DbCommand} (hwrites : b.writes = c :: ws) :
    Once ({ b with writes := ws }.run c) delivered next := by
  have hgiven := hnumbered.write c (hwrites ▸ List.mem_cons_self)
  cases c with
  | saveDraft row id accountId compose =>
    cases row with
    | some row =>
      have hpop := h.popWrite hwrites rfl (by simp)
        (b.drafts.map fun r => if r.1 = row then (row, compose) else r) b.nextDraft
      exact hpop.answers (fun e he => by rw [List.mem_singleton.mp he]; rfl)
    | none =>
      have hpop := h.popWrite hwrites rfl (by simp) (b.drafts ++ [(b.nextDraft, compose)])
        (b.nextDraft + 1)
      exact hpop.answers (fun e he => by rw [List.mem_singleton.mp he]; rfl)
  | enqueueOutbox row id accountId compose =>
    obtain ⟨rfl, -⟩ := hgiven
    exact h.insertRow hnumbered hwrites
  | deleteDraft row => exact h.popWrite hwrites rfl (by simp) _ _
  | markOutboxSent row => exact h.deleteRow (.inl rfl) hwrites
  | deleteOutbox row => exact h.deleteRow (.inr rfl) hwrites
  | listDrafts | loadDraft _ | dueOutbox | listOutbox | markOutboxFailed _ _ | other =>
    exact h.popWrite hwrites rfl (by simp) _ _

/-- Every careful step keeps it. -/
theorem Once.step {s s' : System} (hwired : s.Wired) (hnumbered : Numbered s.main.books)
    (h : Once s.main.books s.delivered s.nextMsg) {a : Action} (hcareful : s.careful a = true)
    (hstep : s.step a = some s') : Once s'.main.books s'.delivered s'.nextMsg := by
  have heffect := effect hstep
  generalize s'.main.books = b' at heffect ⊢
  generalize s'.delivered = delivered' at heffect ⊢
  generalize s'.nextMsg = nextMsg' at heffect ⊢
  cases heffect with
  | quiet => exact h
  | compose =>
    refine h.opens hnumbered (fun holder hh => ?_) (fun st hst heq => ?_) (Nat.lt_succ_self _)
      (Nat.le_succ _) _
    · exact absurd (h.held_lt holder _ hh) (Nat.lt_irrefl _)
    · exact absurd (h.handed_lt st hst) (by rw [heq]; exact Nat.lt_irrefl _)
  | @send _ id state _ account config hrequests =>
    simp only [careful, hrequests, Bool.and_eq_true, Bool.not_eq_true'] at hcareful
    obtain ⟨m, ⟨entry, hentry, hopen, hmsg⟩, hstate⟩ :=
      hwired.request _ _ (hrequests ▸ List.mem_cons_self)
    have hlive := hcareful.2
    rw [isSettled, hentry] at hlive
    exact h.send ⟨entry, hentry, hopen, hlive, hmsg.trans (hstate state rfl).symm⟩
      (isSending_eq_false.mp hcareful.1) account config
  | save => exact h.aside (aside_saveDraft ..)
  | discard hrequests =>
    simp only [careful, hrequests] at hcareful
    exact h.endSend (.inr rfl) (List.Sublist.refl _) (fun _ _ ho => ho) (mayEnd_iff.mp hcareful)
  | closed => exact h.aside (aside_windowClosed ..)
  | draftSaved hevents => exact (h.popEvent hevents rfl).aside (aside_draftSaved ..)
  | outboxEnqueued hevents => exact h.outboxEnqueued hevents
  | @due _ _ items rest hevents =>
    have hmem : CacheEvent.outboxDue items ∈ s.main.books.events := hevents ▸ List.mem_cons_self
    have hevents' : s.main.events = .outboxDue items :: rest := hevents
    simp only [careful, hevents', List.all_eq_true] at hcareful
    refine Once.outboxDue (s := { s.main with events := rest }) (h.popEvent hevents rfl)
      (hnumbered.pop hevents) _ (hnumbered.listed_ids _ hmem)
      (Numbered.items (e := .outboxDue items) hnumbered hevents rfl) ?_
    exact fun item hi haccount howned => live_of_mayRetry hnumbered (.inr ⟨_, hmem, hi⟩)
      (hcareful item hi) haccount howned
  | listed hevents => exact { h.popEvent hevents rfl with }
  | loaded hevents =>
    have hevents' : s.main.events = _ := hevents
    simp [careful, hevents'] at hcareful
  | told hevents hquiet =>
    refine h.popEvent hevents ?_
    rcases hquiet with rfl | rfl <;> rfl
  | sent houtcomes =>
    have houtcomes' : s.main.outcomes = _ := houtcomes
    simp only [careful, houtcomes'] at hcareful
    exact h.outcomeSent houtcomes (mayEnd_iff.mp hcareful)
  | @failed id error rest houtcomes =>
    have houtcomes' : s.main.outcomes = .error id error :: rest := houtcomes
    simp only [careful, houtcomes', Bool.or_eq_true, Bool.not_eq_true', decide_eq_true_eq] at hcareful
    have hids := h.outstanding_ids
    rw [outstanding, houtcomes, List.map_cons, List.cons_append, List.nodup_cons] at hids
    refine (h.popOutcome houtcomes (by simp)).outcomeFailed hids.1 fun hsending => ?_
    exact hcareful.resolve_left fun hidle => hsending (isSending_eq_false.mp hidle)
  | deleteDraft => exact h.aside (aside_push _ _ rfl)
  | deleteOutbox => exact h.aside (aside_push _ _ rfl)
  | edit hitem =>
    simp only [careful, hitem, Bool.and_eq_true, Bool.not_eq_true', decide_eq_true_eq] at hcareful
    obtain ⟨⟨hlive, howned⟩, hroom⟩ := hcareful
    obtain ⟨hmem, -⟩ := listedItem_mem hitem
    exact h.editQueued hnumbered hmem (live_of_listed hnumbered (.inl hmem) hlive)
      ⟨not_isOwned howned, fun id he => absurd rfl ((hnumbered.untold _ _ he).1 _ hmem)⟩ hroom _
  | retry hitem =>
    simp only [careful, hitem] at hcareful
    obtain ⟨hmem, -⟩ := listedItem_mem hitem
    refine Once.outboxDue h hnumbered _ (List.nodup_singleton _) ?_ ?_
    · intro i hi
      rw [List.mem_singleton.mp hi]
      exact ⟨hnumbered.listed_lt _ hmem, fun id he => absurd rfl ((hnumbered.untold _ _ he).1 _ hmem)⟩
    · intro i hi haccount howned
      cases List.mem_singleton.mp hi
      exact live_of_mayRetry hnumbered (.inl hmem) hcareful haccount howned
  | write hwrites => exact Once.run h hnumbered hwrites
  | read hanswer => exact h.answers (answer_enqueued hanswer)
  | mail hmails => exact h.mail hmails _
  | reload => simp [careful] at hcareful

theorem Once.init {s : System} (h : Started s) :
    Once s.main.books s.delivered s.nextMsg := by
  obtain ⟨accounts, db, hmain⟩ := h.main
  have hnone : ∀ {β : Type} (id : ComposeId), (∅ : AList fun _ : ComposeId => β).lookup id = none :=
    fun id => AList.lookup_empty id
  have hmsgs : ((s.main.db.outbox.map fun r => r.compose.stamp).map Stamp.msg).Nodup := by
    refine h.msgs.sublist (List.Sublist.map _ ?_)
    exact List.sublist_append_right ..
  have hrow : ∀ {holder m}, s.main.books.Holds holder m →
      ∃ r ∈ s.main.db.outbox, holder = .row r.id ∧ m = r.compose.stamp.msg := by
    intro holder m hh
    rw [hmain] at hh ⊢
    cases holder with
    | writer id =>
      rcases hh with ⟨entry, hlook, -⟩ | ⟨flight, hlook, -⟩
      · exact absurd ((hnone id).symm.trans hlook) (by simp)
      · exact absurd ((hnone id).symm.trans hlook) (by simp)
    | row row =>
      obtain ⟨⟨c, hc, rfl⟩, -⟩ := hh
      obtain ⟨r, hr, heq⟩ := List.mem_map.mp hc
      cases heq
      exact ⟨r, hr, rfl, rfl⟩
    | command id =>
      obtain ⟨row, config, c, hc, -⟩ := hh
      exact absurd hc (by simp [MainWindow.books])
  have hwriter : ∀ {id m}, ¬ s.main.books.Holds (.writer id) m := by
    intro id m hw
    obtain ⟨r, -, heq, -⟩ := hrow hw
    exact absurd heq (by simp)
  have hmails : s.main.books.mails = [] := by rw [hmain]; rfl
  have houtcomes : s.main.books.outcomes = [] := by rw [hmain]; rfl
  have henqueuing : s.main.books.enqueuing = [] := by
    rw [hmain]
    rfl
  have hhanded : s.main.books.handed s.delivered = [] := by rw [handed, hmails, h.delivered]; rfl
  have houtstanding : s.main.books.outstanding = [] := by rw [outstanding, hmails, houtcomes]; rfl
  refine {
    together := ?_
    owner := fun _ _ _ _ _ hw => absurd hw hwriter
    enqueuing_ids := henqueuing ▸ List.nodup_nil
    enqueuing_row := by simp [henqueuing]
    writer_le := fun _ _ hw => absurd hw hwriter
    held_lt := ?_
    handed_lt := by simp [hhanded]
    handed_once := by simp [hhanded]
    outstanding_ids := by simp [houtstanding]
    outstanding_le := by simp [houtstanding]
    busy := by simp [houtstanding]
    mailed := by simp [hmails]
    sent := by simp [h.delivered] }
  · intro m x y hx hy
    obtain ⟨r, hr, rfl, rfl⟩ := hrow hx
    obtain ⟨r', hr', rfl, hmsg⟩ := hrow hy
    rw [List.map_map] at hmsgs
    exact .inl (by rw [List.inj_on_of_nodup_map hmsgs hr hr' hmsg])
  · intro x m hx
    obtain ⟨r, hr, -, rfl⟩ := hrow hx
    exact (h.msg_lt _ (List.mem_append_right _ (List.mem_map_of_mem hr))).1

/-- The steps that a careful run takes. -/
def Careful (s : System) (a : Action) : Prop := s.careful a = true

instance (s : System) (a : Action) : Decidable (Careful s a) :=
  inferInstanceAs (Decidable (s.careful a = true))

theorem once {s : System} (h : machine.Reach Careful s) :
    Once s.main.books s.delivered s.nextMsg :=
  Machine.Reach.invariant (P := fun s => Once s.main.books s.delivered s.nextMsg)
    (fun _ h0 => Once.init h0)
    (fun _ a _ hr ho hok hstep => Once.step (wired hr) (numbered hr) ho (a := a) hok hstep) h

/-! ## 6. Sent once -/

/-- No row of the outbox has two sends in flight. -/
def OneSendPerRow (m : MainWindow) : Prop :=
  ∀ id id' row, m.deliveries.inFlight.lookup id ≠ none → m.deliveries.inFlight.lookup id' ≠ none →
    m.deliveries.outboxRows.lookup id = some row → m.deliveries.outboxRows.lookup id' = some row →
    id = id'

/-- The step hands over no message that has been delivered. -/
def HandsOverNew (s s' : System) : Prop :=
  ∀ st ∈ accepted s.main s'.main, ∀ d ∈ s.delivered, d.msg ≠ st.msg

theorem oneSendPerRow_of_once {m : MainWindow} {delivered : List Stamp} {next : Nat}
    (h : Once m.books delivered next) : OneSendPerRow m := by
  intro id id' row hf hf' hrow hrow'
  obtain ⟨flight, hlook⟩ := Option.ne_none_iff_exists'.mp hf
  obtain ⟨flight', hlook'⟩ := Option.ne_none_iff_exists'.mp hf'
  exact h.owner id id' _ _ row (.inr ⟨flight, hlook, rfl⟩) (.inr ⟨flight', hlook', rfl⟩) (.inl hrow)
    (.inl hrow')

theorem Effect.delivered {s : System} {a : Action} {b' : Books} {delivered' : List Stamp}
    {next' : Nat} (h : Effect s a b' delivered' next') : ∀ st ∈ s.delivered, st ∈ delivered' := by
  intro st hst
  cases h with
  | mail => exact List.mem_append_left _ hst
  | _ => exact hst

theorem handsOverNew_of_once {s s' : System} {a : Action} (hstep : s.step a = some s')
    (h : Once s'.main.books s'.delivered s'.nextMsg) : HandsOverNew s s' := by
  intro st hst d hd heq
  have hd' := (effect hstep).delivered d hd
  have honce := h.handed_once
  rw [handed, List.map_append, List.nodup_append] at honce
  obtain ⟨c, hc, rfl⟩ := List.mem_map.mp hst
  exact honce.2.2 _ (List.mem_map_of_mem hd') _
    (List.mem_map_of_mem (List.mem_map_of_mem (List.mem_of_mem_drop hc))) heq

/-- In careful runs no row is sent twice at a time, no delivered message is handed over again, and
so none is delivered twice.

The first part is about ids: a row that is being sent is known to one of them (`Once.owner`).  The others
say that no message was handed over twice (`Once.handed_once`), the one after one more step. -/
theorem sent_once {s : System} (h : machine.Reach Careful s) :
    OneSendPerRow s.main ∧
      (∀ a s', Careful s a → s.step a = some s' → HandsOverNew s s') ∧
      (s.delivered.map Stamp.msg).Nodup := by
  refine ⟨oneSendPerRow_of_once (once h), ?_, ?_⟩
  · intro a s' hok hstep
    exact handsOverNew_of_once hstep (once (Machine.Reach.step h hok hstep))
  · have honce := (once h).handed_once
    rw [handed, List.map_append, List.nodup_append] at honce
    exact honce.1

/-- One account, no rows, no windows. -/
def fresh : System := { main := { accounts := ["a"] } }

theorem started_fresh : Started fresh := by
  refine ⟨⟨["a"], {}, rfl⟩, rfl, rfl, rfl, rfl, rfl, ?_, ?_, ?_, ?_, ?_, ?_⟩ <;> simp [fresh, rowStamps]

/-- A message whose first send fails, and which the timer then sends. -/
def retriedRun : List Action :=
  [.compose ⟨"b", "", "", "", "text", []⟩ 0 true, .clickSend 1, .handleRequest none,
    .mail (some "offline"), .handleOutcome, .execute, .handleEvent (fun _ => none) true,
    .receive 1, .receive 1, .closeBox 1 .save, .handleRequest none, .poll, .execute,
    .handleEvent (fun _ => none) true, .mail none, .handleOutcome, .execute]

theorem sent_once_after_failure : ∃ s : System, (s.delivered.length = 1 ∧ s.main.db.outbox = []) ∧
    OneSendPerRow s.main ∧
      (∀ a s', Careful s a → s.step a = some s' → HandsOverNew s s') ∧
      (s.delivered.map Stamp.msg).Nodup := by
  obtain ⟨s, hreach, hp⟩ := Machine.exists_reach_of_trace machine Careful retriedRun
    (fun s => s.delivered.length = 1 ∧ s.main.db.outbox = []) started_fresh (by decide)
  exact ⟨s, by simpa using hp, sent_once hreach⟩

/-- Send is clicked twice before the window is told that it is sending. -/
def secondClickRun : List Action :=
  [.compose ⟨"b", "", "", "", "text", []⟩ 0 true, .clickSend 1, .clickSend 1, .handleRequest none,
    .mail none]

theorem second_click_sends_again :
    ¬ ∀ s a s', machine.Reach Machine.any s → s.step a = some s' → HandsOverNew s s' := by
  intro h
  obtain ⟨s, s', hreach, hstep, hp⟩ := Machine.exists_step_of_trace machine Machine.any
    secondClickRun (.handleRequest none)
    (fun s s' => (accepted s.main s'.main).any fun st => s.delivered.any fun d => d.msg = st.msg)
    started_fresh (by decide)
  obtain ⟨st, hst, hd⟩ := List.any_eq_true.mp hp
  obtain ⟨d, hd, heq⟩ := List.any_eq_true.mp hd
  exact h s (.handleRequest none) s' hreach hstep st hst d hd (of_decide_eq_true heq)

end System

end Esmail
