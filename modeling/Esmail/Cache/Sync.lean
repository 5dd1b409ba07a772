/-
# Incremental sync of one mailbox

Every header fetch reports what the server said of the mailbox, and `report_mailbox_state` answers
with a plan: which UIDs the cache has not got yet.  The plan is carried out by others.  The
headers are fetched over the network, which may fail, and are indexed after that.

The watermark, the stored `uid_next`, moves when the plan is MADE.  A report asks for what is between
the watermark and the `uid_next` that it reports (`planFor_eq`), whatever became of the plans before it.
So a message that a plan asked for and that the cache has not got is asked for again just where it is
not below the watermark, and that is where the watermark went BACK: where an older state was reported
after a newer one.  Where states are reported in the order in which the server gave them, every plan is
below the watermark (`Ordered`), and a header that was lost is never asked for again.

`report_covers_missing_iff` says this of any run, whatever fails in it; of the runs whose states are
reported in order; and of those in which each plan is carried out before the next report, whose
invariant is `Tracked`.  `failed_fetch_is_never_repeated` is a run in which a fetch fails.
-/
import Esmail.Cache.Referential
import Esmail.Mailbox.Server

namespace Esmail.Cache

open Transition

/-- A plan asks for a UID. -/
def SyncPlan.Covers (plan : SyncPlan) (u : Nat) : Prop := ∃ first, plan = .fetchFrom first ∧ first ≤ u

/-- `fetch_new_headers`: the range `first:*`, which is never empty where the mailbox is not; with
nothing new it is the last message. -/
def fetchNewHeaders (m : Mailbox) (first : Nat) : List MailHeader :=
  match m.messages.filter fun h => first ≤ h.uid with
  | [] => m.messages.getLast?.toList
  | new => new

theorem mem_fetchNewHeaders {m : Mailbox} {first u : Nat} (hu : m.has u) (hle : first ≤ u) :
    u ∈ uids (fetchNewHeaders m first) := by
  obtain ⟨h, hmem, rfl⟩ := mem_uids.mp hu
  have hnew : h ∈ m.messages.filter fun h => first ≤ h.uid := by simp [hmem, hle]
  unfold fetchNewHeaders
  split
  · next hnil =>
    rw [hnil] at hnew
    exact absurd hnew (by simp)
  · exact mem_uids_of_mem hnew

/-- One mailbox on the server, the cache, and what is on its way between them. -/
structure Sync where
  mailbox : Mailbox
  cache : Cache
  /-- States the server gave, not yet reported to the cache. -/
  reports : List MailboxState
  /-- Plans not yet carried out: the first UID of each. -/
  plans : List Nat
  /-- Headers fetched, not yet indexed. -/
  replies : List (List MailHeader)
  /-- Every plan there was: its first UID, and the `uid_next` it was made for. -/
  planned : List (Nat × Nat)

namespace Sync

inductive Action
  | arrive (h : MailHeader)
  | expunge (uid : Nat)
  /-- The server is asked for the state of the mailbox. -/
  | examine
  | report (i : Nat)
  /-- The headers of a plan are fetched. -/
  | fetch (i : Nat)
  | fetchFails (i : Nat)
  /-- Fetched headers are given to the cache. -/
  | index (i : Nat)
  /-- Fetched headers are dropped, the queue to the cache being full. -/
  | drop (i : Nat)
  /-- The program is stopped and started again. -/
  | restart
  deriving DecidableEq

variable (accountId : AccountId) (name : String)

/-- The plan the cache answers a report with. -/
def planFor (s : Sync) (state : MailboxState) : SyncPlan :=
  syncDecision (s.cache.mailboxes.lookup (accountId, name)) state.uidValidity state.uidNext

def newPlans : SyncPlan → List Nat
  | .fetchFrom first => [first]
  | .resync => [1]
  | .upToDate => []

variable (codec : Codec) (engine : SearchEngine)

def step (s : Sync) : Action → Option Sync
  | .arrive h => (s.mailbox.arrive h).map fun m => { s with mailbox := m }
  | .expunge uid => some { s with mailbox := s.mailbox.expunge uid }
  | .examine => some { s with reports := s.reports ++ [⟨s.mailbox.uidValidity, s.mailbox.uidNext⟩] }
  | .report i =>
    (s.reports[i]?).map fun state =>
      { s with
        reports := s.reports.eraseIdx i
        cache := after codec engine 0
          (.reportMailboxState accountId name state.uidValidity state.uidNext) s.cache
        plans := s.plans ++ newPlans (s.planFor accountId name state)
        planned := s.planned ++
          (newPlans (s.planFor accountId name state)).map fun first => (first, state.uidNext) }
  | .fetch i =>
    (s.plans[i]?).map fun first =>
      { s with plans := s.plans.eraseIdx i, replies := s.replies ++ [fetchNewHeaders s.mailbox first] }
  | .fetchFails i => (s.plans[i]?).map fun _ => { s with plans := s.plans.eraseIdx i }
  | .index i =>
    (s.replies[i]?).map fun headers =>
      { s with
        replies := s.replies.eraseIdx i
        cache := after codec engine 0 (.indexHeaders accountId name headers) s.cache }
  | .drop i => (s.replies[i]?).map fun _ => { s with replies := s.replies.eraseIdx i }
  | .restart => some { s with reports := [], plans := [], replies := [] }

/-- A mailbox the cache has not heard of. -/
def Unseen (s : Sync) : Prop :=
  s.cache.mailboxes.lookup (accountId, name) = none ∧ s.reports = [] ∧ s.plans = [] ∧
    s.replies = [] ∧ s.planned = []

def machine : Machine Sync Action := ⟨Unseen accountId name, step accountId name codec engine⟩

/-- The cache has the message's header. -/
def Cached (s : Sync) (u : Nat) : Prop := (⟨accountId, name, u⟩ : Key) ∈ s.cache.messages.keys

/-- A message some plan asked for is on the server, and the cache has not got it. -/
def Missing (s : Sync) (u : Nat) : Prop :=
  (∃ plan ∈ s.planned, plan.1 ≤ u ∧ u < plan.2) ∧ s.mailbox.has u ∧ ¬ Cached accountId name s u

/-- Below what the next report starts: the stored `uid_next`. -/
def watermark (s : Sync) : Nat := (s.cache.mailboxes.lookup (accountId, name)).elim 1 MailboxRow.uidNext

/-! ## 1. What a report is answered -/

/-- States are reported in the order in which the server gave them. -/
def inOrder (_ : Sync) : Action → Prop
  | .report i => i = 0
  | _ => True

/-- No fetch fails, no reply is lost, and a state is reported, or the program stopped, only when the
headers of every plan are in the cache. -/
def carriedOut (s : Sync) : Action → Prop
  | .fetchFails _ | .drop _ => False
  | .report _ | .restart => s.plans = [] ∧ s.replies = []
  | _ => True

/-- What the cache stored of the mailbox, and what it will be told, came from this mailbox: the
same UIDVALIDITY, and no UID that is not assigned yet. -/
structure Current (s : Sync) : Prop where
  stored : ∀ row, s.cache.mailboxes.lookup (accountId, name) = some row →
    row.uidValidity = s.mailbox.uidValidity
  reported : ∀ state ∈ s.reports,
    state.uidValidity = s.mailbox.uidValidity ∧ state.uidNext ≤ s.mailbox.uidNext
  planned : ∀ plan ∈ s.planned, plan.2 ≤ s.mailbox.uidNext

/-- The reports to come are in the order of their `uid_next`, none is below what is stored, and no plan
was above it. -/
structure Ordered (s : Sync) : Prop where
  sorted : s.reports.Pairwise fun a b => a.uidNext ≤ b.uidNext
  above : ∀ row, s.cache.mailboxes.lookup (accountId, name) = some row →
    row.uidNext ≤ s.mailbox.uidNext ∧ ∀ state ∈ s.reports, row.uidNext ≤ state.uidNext
  below : ∀ plan ∈ s.planned, ∃ row, s.cache.mailboxes.lookup (accountId, name) = some row ∧
    plan.2 ≤ row.uidNext

/-- Each message a plan asked for is cached, fetched, or about to be fetched. -/
def Tracked (s : Sync) : Prop :=
  ∀ plan ∈ s.planned, ∀ u, plan.1 ≤ u → u < plan.2 → s.mailbox.has u →
    Cached accountId name s u ∨ (∃ reply ∈ s.replies, u ∈ uids reply) ∨ ∃ first ∈ s.plans, first ≤ u

variable {accountId : AccountId} {name : String} {codec : Codec} {engine : SearchEngine}

theorem Current.of_mailbox {s : Sync} (h : Current accountId name s) {m : Mailbox}
    (hvalidity : m.uidValidity = s.mailbox.uidValidity) (hnext : s.mailbox.uidNext ≤ m.uidNext) :
    Current accountId name { s with mailbox := m } :=
  ⟨fun row hrow => (h.stored row hrow).trans hvalidity.symm,
    fun state hstate => ⟨(h.reported state hstate).1.trans hvalidity.symm,
      Nat.le_trans (h.reported state hstate).2 hnext⟩,
    fun plan hplan => Nat.le_trans (h.planned plan hplan) hnext⟩

theorem uidValidity_arrive {m m' : Mailbox} {h : MailHeader} (ha : m.arrive h = some m') :
    m'.uidValidity = m.uidValidity := by
  unfold Mailbox.arrive at ha
  split at ha
  · obtain rfl := Option.some.inj ha
    rfl
  · exact absurd ha (by simp)

/-- What a report asks for is what is between the watermark and the reported `uid_next`. -/
theorem planFor_eq {s : Sync} (h : Current accountId name s) {state : MailboxState}
    (hstate : state ∈ s.reports) : s.planFor accountId name state =
      if s.watermark accountId name < state.uidNext then .fetchFrom (s.watermark accountId name)
      else .upToDate := by
  cases hrow : s.cache.mailboxes.lookup (accountId, name) with
  | none =>
    have hmark : s.watermark accountId name = 1 := by rw [watermark, hrow, Option.elim_none]
    rw [planFor, hrow, hmark, syncDecision]
    by_cases hle : state.uidNext ≤ 1
    · rw [if_pos hle, if_neg (by omega)]
    · rw [if_neg hle, if_pos (by omega)]
  | some row =>
    have hmark : s.watermark accountId name = row.uidNext := by rw [watermark, hrow, Option.elim_some]
    have hsame : row.uidValidity = state.uidValidity :=
      (h.stored row hrow).trans (h.reported state hstate).1.symm
    rw [planFor, hrow, hmark]
    simp only [syncDecision, hsame, ne_eq, not_true_eq_false, if_false]

/-- A report stores what was reported, and removes nothing. -/
theorem after_report {s : Sync} (h : Current accountId name s) {state : MailboxState}
    (hstate : state ∈ s.reports) :
    after codec engine 0 (.reportMailboxState accountId name state.uidValidity state.uidNext) s.cache =
      s.cache.setMailbox accountId name ⟨state.uidValidity, state.uidNext⟩ := by
  have hplan : s.planFor accountId name state ≠ .resync := by
    rw [planFor_eq h hstate]
    split <;> simp
  rw [after_reportMailboxState, ← planFor, if_neg hplan]

theorem mailboxes_after_indexHeaders {db : Cache} {headers : List MailHeader} :
    (after codec engine 0 (.indexHeaders accountId name headers) db).mailboxes = db.mailboxes := by
  rw [after_indexHeaders]
  induction headers generalizing db with
  | nil => rfl
  | cons header rest ih => exact ih

theorem Current.step {s s' : Sync} {a : Action} (h : Current accountId name s)
    (hst : s.step accountId name codec engine a = some s') : Current accountId name s' := by
  cases a with
  | arrive hd =>
    obtain ⟨m, hm, rfl⟩ := Option.map_eq_some_iff.mp hst
    obtain ⟨hle, heq⟩ := Mailbox.uidNext_arrive hm
    exact h.of_mailbox (uidValidity_arrive hm) (by omega)
  | expunge uid =>
    obtain rfl := Option.some.inj hst
    exact h.of_mailbox rfl (Nat.le_refl _)
  | examine =>
    obtain rfl := Option.some.inj hst
    refine ⟨h.stored, fun state hstate => ?_, h.planned⟩
    rcases List.mem_append.mp hstate with hstate | hstate
    · exact h.reported state hstate
    · rw [List.mem_singleton.mp hstate]
      exact ⟨rfl, Nat.le_refl _⟩
  | report i =>
    obtain ⟨state, hstate, rfl⟩ := Option.map_eq_some_iff.mp hst
    have hmem := List.mem_of_getElem? hstate
    refine ⟨fun row hrow => ?_,
      fun other hother => h.reported other (List.mem_of_mem_eraseIdx hother), fun plan hplan => ?_⟩
    · simp only [after_report h hmem, setMailbox, Table.lookup_upsert, if_true,
        Option.some.injEq] at hrow
      rw [← hrow]
      exact (h.reported state hmem).1
    · rcases List.mem_append.mp hplan with hplan | hplan
      · exact h.planned plan hplan
      · obtain ⟨first, -, rfl⟩ := List.mem_map.mp hplan
        exact (h.reported state hmem).2
  | fetch i =>
    obtain ⟨first, -, rfl⟩ := Option.map_eq_some_iff.mp hst
    exact ⟨h.stored, h.reported, h.planned⟩
  | fetchFails i =>
    obtain ⟨first, -, rfl⟩ := Option.map_eq_some_iff.mp hst
    exact ⟨h.stored, h.reported, h.planned⟩
  | index i =>
    obtain ⟨headers, -, rfl⟩ := Option.map_eq_some_iff.mp hst
    exact ⟨fun row hrow => h.stored row (mailboxes_after_indexHeaders ▸ hrow), h.reported, h.planned⟩
  | drop i =>
    obtain ⟨headers, -, rfl⟩ := Option.map_eq_some_iff.mp hst
    exact ⟨h.stored, h.reported, h.planned⟩
  | restart =>
    obtain rfl := Option.some.inj hst
    exact ⟨h.stored, by simp, h.planned⟩

theorem current_of_unseen {s : Sync} (h : Unseen accountId name s) : Current accountId name s := by
  obtain ⟨hrow, hreports, -, -, hplanned⟩ := h
  refine ⟨fun row h => ?_, by simp [hreports], by simp [hplanned]⟩
  rw [hrow] at h
  cases h

theorem current_of_reach {ok : Sync → Action → Prop} {s : Sync}
    (h : (machine accountId name codec engine).Reach ok s) : Current accountId name s :=
  h.invariant (fun _ => current_of_unseen) fun _ _ _ _ hcurrent _ hst => hcurrent.step hst

/-! ## 2. Runs in which states are reported in order -/

theorem Ordered.of_mailbox {s : Sync} (h : Ordered accountId name s) {m : Mailbox}
    (hnext : s.mailbox.uidNext ≤ m.uidNext) : Ordered accountId name { s with mailbox := m } :=
  ⟨h.sorted, fun row hrow => ⟨(h.above row hrow).1.trans hnext, (h.above row hrow).2⟩, h.below⟩

/-- The oldest report is the next, and what it stores is above every plan and below every other report. -/
theorem Ordered.report {s : Sync} (hcurrent : Current accountId name s) (h : Ordered accountId name s)
    {state : MailboxState} {rest : List MailboxState} (hreports : s.reports = state :: rest) :
    Ordered accountId name { s with
      reports := rest
      cache := s.cache.setMailbox accountId name ⟨state.uidValidity, state.uidNext⟩
      plans := s.plans ++ newPlans (s.planFor accountId name state)
      planned := s.planned ++
        (newPlans (s.planFor accountId name state)).map fun first => (first, state.uidNext) } := by
  have hmem : state ∈ s.reports := hreports ▸ List.mem_cons_self
  obtain ⟨hfirst, hsorted⟩ := List.pairwise_cons.mp (hreports ▸ h.sorted)
  refine ⟨hsorted, fun row hrow => ?_, fun plan hplan => ⟨⟨state.uidValidity, state.uidNext⟩, ?_, ?_⟩⟩
  · simp only [setMailbox, Table.lookup_upsert, if_true, Option.some.injEq] at hrow
    subst hrow
    exact ⟨(hcurrent.reported state hmem).2, hfirst⟩
  · simp only [setMailbox, Table.lookup_upsert, if_true]
  · rcases List.mem_append.mp hplan with hplan | hplan
    · obtain ⟨row, hrow, hle⟩ := h.below plan hplan
      exact hle.trans ((h.above row hrow).2 state hmem)
    · obtain ⟨first, -, rfl⟩ := List.mem_map.mp hplan
      exact Nat.le_refl _

theorem Ordered.step {s s' : Sync} {a : Action} (hcurrent : Current accountId name s)
    (h : Ordered accountId name s) (hok : inOrder s a)
    (hst : s.step accountId name codec engine a = some s') : Ordered accountId name s' := by
  cases a with
  | arrive hd =>
    obtain ⟨m, hm, rfl⟩ := Option.map_eq_some_iff.mp hst
    obtain ⟨hle, heq⟩ := Mailbox.uidNext_arrive hm
    exact h.of_mailbox (by omega)
  | expunge uid =>
    obtain rfl := Option.some.inj hst
    exact h.of_mailbox (Mailbox.uidNext_expunge s.mailbox uid).ge
  | examine =>
    obtain rfl := Option.some.inj hst
    refine ⟨List.pairwise_append.mpr ⟨h.sorted, List.pairwise_singleton .., fun a ha b hb => ?_⟩,
      fun row hrow => ⟨(h.above row hrow).1, fun state hstate => ?_⟩, h.below⟩
    · rw [List.mem_singleton.mp hb]
      exact (hcurrent.reported a ha).2
    · rcases List.mem_append.mp hstate with hstate | hstate
      · exact (h.above row hrow).2 state hstate
      · rw [List.mem_singleton.mp hstate]
        exact (h.above row hrow).1
  | report i =>
    obtain ⟨state, hstate, rfl⟩ := Option.map_eq_some_iff.mp hst
    obtain rfl : i = 0 := hok
    obtain ⟨rest, hreports⟩ : ∃ rest, s.reports = state :: rest := by
      cases hr : s.reports with
      | nil =>
        rw [hr] at hstate
        cases hstate
      | cons first rest =>
        rw [hr] at hstate
        exact ⟨rest, by rw [Option.some.inj hstate]⟩
    have hafter := h.report hcurrent hreports
    rw [after_report hcurrent (hreports ▸ List.mem_cons_self)]
    rwa [hreports, List.eraseIdx_cons_zero]
  | fetch i =>
    obtain ⟨first, -, rfl⟩ := Option.map_eq_some_iff.mp hst
    exact ⟨h.sorted, h.above, h.below⟩
  | fetchFails i =>
    obtain ⟨first, -, rfl⟩ := Option.map_eq_some_iff.mp hst
    exact ⟨h.sorted, h.above, h.below⟩
  | index i =>
    obtain ⟨headers, -, rfl⟩ := Option.map_eq_some_iff.mp hst
    refine ⟨h.sorted, fun row hrow => h.above row (mailboxes_after_indexHeaders ▸ hrow),
      fun plan hplan => ?_⟩
    obtain ⟨row, hrow, hle⟩ := h.below plan hplan
    exact ⟨row, by rw [mailboxes_after_indexHeaders, hrow], hle⟩
  | drop i =>
    obtain ⟨headers, -, rfl⟩ := Option.map_eq_some_iff.mp hst
    exact ⟨h.sorted, h.above, h.below⟩
  | restart =>
    obtain rfl := Option.some.inj hst
    exact ⟨List.Pairwise.nil, fun row hrow => ⟨(h.above row hrow).1, by simp⟩, h.below⟩

theorem ordered_of_reach {s : Sync} (h : (machine accountId name codec engine).Reach inOrder s) :
    Current accountId name s ∧ Ordered accountId name s := by
  refine h.invariant (P := fun s => Current accountId name s ∧ Ordered accountId name s) ?_ ?_
  · intro s hunseen
    refine ⟨current_of_unseen hunseen, ?_, fun row hrow => ?_, fun plan hplan => ?_⟩
    · rw [hunseen.2.1]
      exact List.Pairwise.nil
    · rw [hunseen.1] at hrow
      cases hrow
    · rw [hunseen.2.2.2.2] at hplan
      cases hplan
  · rintro s a s' - ⟨hcurrent, hordered⟩ hok hst
    exact ⟨hcurrent.step hst, hordered.step hcurrent hok hst⟩

/-- What was planned is below the watermark, and with it what is missing. -/
theorem Missing.lt_watermark {s : Sync} (h : Ordered accountId name s) {u : Nat}
    (hmissing : Missing accountId name s u) : u < s.watermark accountId name := by
  obtain ⟨⟨plan, hplan, -, hlt⟩, -, -⟩ := hmissing
  obtain ⟨row, hrow, hle⟩ := h.below plan hplan
  rw [watermark, hrow, Option.elim_some]
  omega

/-! ## 3. Runs in which each plan is carried out -/

/-- Indexing gives the cache every header, and takes none away. -/
theorem mem_keys_after_indexHeaders {db : Cache} {headers : List MailHeader} {key : Key} :
    key ∈ (after codec engine 0 (.indexHeaders accountId name headers) db).messages.keys ↔
      key ∈ db.messages.keys ∨ ∃ u ∈ uids headers, key = ⟨accountId, name, u⟩ := by
  rw [after_indexHeaders]
  induction headers generalizing db with
  | nil => simp
  | cons header rest ih =>
    rw [List.foldl_cons, ih]
    simp only [listed, upsertMessage, Table.mem_keys_upsert, uids_cons, List.mem_cons,
      exists_eq_or_imp]
    tauto

theorem Tracked.step {s s' : Sync} {a : Action} (hcurrent : Current accountId name s)
    (h : Tracked accountId name s) (hok : carriedOut s a)
    (hst : s.step accountId name codec engine a = some s') : Tracked accountId name s' := by
  cases a with
  | arrive hd =>
    obtain ⟨m, hm, rfl⟩ := Option.map_eq_some_iff.mp hst
    intro plan hplan u hfirst hnext hhas
    rcases (Mailbox.has_arrive hm).mp hhas with hold | rfl
    · exact h plan hplan u hfirst hnext hold
    · -- A new message has a UID above those of every plan so far.
      have hle := (Mailbox.uidNext_arrive hm).1
      have hbound := hcurrent.planned plan hplan
      omega
  | expunge uid =>
    obtain rfl := Option.some.inj hst
    intro plan hplan u hfirst hnext hhas
    exact h plan hplan u hfirst hnext (Mailbox.has_expunge.mp hhas).1
  | examine =>
    obtain rfl := Option.some.inj hst
    exact h
  | report i =>
    obtain ⟨state, hstate, rfl⟩ := Option.map_eq_some_iff.mp hst
    intro plan hplan u hfirst hnext hhas
    rcases List.mem_append.mp hplan with hplan | hplan
    · rcases h plan hplan u hfirst hnext hhas with hcached | hreply | ⟨first, hmem, hle⟩
      · refine Or.inl ?_
        simp only [Cached, after_report hcurrent (List.mem_of_getElem? hstate), setMailbox]
        exact hcached
      · exact Or.inr (Or.inl hreply)
      · exact Or.inr (Or.inr ⟨first, List.mem_append_left _ hmem, hle⟩)
    · obtain ⟨first, hmem, rfl⟩ := List.mem_map.mp hplan
      exact Or.inr (Or.inr ⟨first, List.mem_append_right _ hmem, hfirst⟩)
  | fetch i =>
    obtain ⟨first, hget, rfl⟩ := Option.map_eq_some_iff.mp hst
    intro plan hplan u hfirst hnext hhas
    rcases h plan hplan u hfirst hnext hhas with hcached | ⟨reply, hreply, hu⟩ | ⟨other, hmem, hle⟩
    · exact Or.inl hcached
    · exact Or.inr (Or.inl ⟨reply, List.mem_append_left _ hreply, hu⟩)
    · by_cases he : other ∈ s.plans.eraseIdx i
      · exact Or.inr (Or.inr ⟨other, he, hle⟩)
      · -- The plan that was waiting for it is the one carried out now.
        have hsame : other = first := by
          by_contra hne
          obtain ⟨j, hj⟩ := List.mem_iff_getElem?.mp hmem
          refine he (List.mem_eraseIdx_iff_getElem?.mpr ⟨j, ?_, hj⟩)
          rintro rfl
          exact hne (Option.some.inj (hj.symm.trans hget))
        refine Or.inr (Or.inl ⟨_, List.mem_append_right _ (List.mem_singleton.mpr rfl), ?_⟩)
        exact mem_fetchNewHeaders hhas (hsame ▸ hle)
  | fetchFails i => exact hok.elim
  | index i =>
    obtain ⟨headers, hget, rfl⟩ := Option.map_eq_some_iff.mp hst
    intro plan hplan u hfirst hnext hhas
    rcases h plan hplan u hfirst hnext hhas with hcached | ⟨reply, hreply, hu⟩ | hwaiting
    · exact Or.inl (mem_keys_after_indexHeaders.mpr (Or.inl hcached))
    · by_cases he : reply ∈ s.replies.eraseIdx i
      · exact Or.inr (Or.inl ⟨reply, he, hu⟩)
      · have hsame : reply = headers := by
          by_contra hne
          obtain ⟨j, hj⟩ := List.mem_iff_getElem?.mp hreply
          refine he (List.mem_eraseIdx_iff_getElem?.mpr ⟨j, ?_, hj⟩)
          rintro rfl
          exact hne (Option.some.inj (hj.symm.trans hget))
        exact Or.inl (mem_keys_after_indexHeaders.mpr (Or.inr ⟨u, hsame ▸ hu, rfl⟩))
    · exact Or.inr (Or.inr hwaiting)
  | drop i => exact hok.elim
  | restart =>
    obtain rfl := Option.some.inj hst
    intro plan hplan u hfirst hnext hhas
    rcases h plan hplan u hfirst hnext hhas with hcached | ⟨reply, hreply, -⟩ | ⟨first, hmem, -⟩
    · exact Or.inl hcached
    · rw [hok.2] at hreply
      exact absurd hreply (by simp)
    · rw [hok.1] at hmem
      exact absurd hmem (by simp)

theorem tracked_of_reach {s : Sync} (h : (machine accountId name codec engine).Reach carriedOut s) :
    Current accountId name s ∧ Tracked accountId name s := by
  refine h.invariant (P := fun s => Current accountId name s ∧ Tracked accountId name s) ?_ ?_
  · refine fun s hunseen => ⟨current_of_unseen hunseen, fun plan hplan => ?_⟩
    rw [hunseen.2.2.2.2] at hplan
    cases hplan
  · rintro s a s' - ⟨hcurrent, htracked⟩ hok hst
    exact ⟨hcurrent.step hst, htracked.step hcurrent hok hst⟩

/-- When a state is reported there, nothing is missing. -/
theorem not_missing_of_carriedOut {s : Sync}
    (h : (machine accountId name codec engine).Reach carriedOut s) {i : Nat}
    (hok : carriedOut s (.report i)) (u : Nat) : ¬Missing accountId name s u := by
  rintro ⟨⟨plan, hplan, hfirst, hnext⟩, hhas, hmissing⟩
  rcases (tracked_of_reach h).2 plan hplan u hfirst hnext hhas with hcached | ⟨reply, hreply, -⟩ | hwaiting
  · exact hmissing hcached
  · rw [hok.2] at hreply
    cases hreply
  · obtain ⟨first, hfirst, -⟩ := hwaiting
    rw [hok.1] at hfirst
    cases hfirst

/-! ## 4. What a report is answered, and what is missing -/

/-- What a report is answered in any run, whatever fails in it.  The plan asks again for all that is
missing exactly if none of it is below the watermark and the watermark is below what is reported; and it
is "up to date" with something missing exactly if the watermark is not below what is reported.  Where
states are reported in order, everything missing is below the watermark, so that the plan asks again for
all that is missing exactly if nothing is.  Nothing is where each plan is carried out before the next
report. -/
theorem report_covers_missing_iff {s : Sync}
    (h : (machine accountId name codec engine).Reach Machine.any s) {i : Nat} {state : MailboxState}
    (hstate : s.reports[i]? = some state) :
    ((∀ u, Missing accountId name s u → (s.planFor accountId name state).Covers u) ↔
        ∀ u, Missing accountId name s u →
          s.watermark accountId name ≤ u ∧ s.watermark accountId name < state.uidNext) ∧
      ((s.planFor accountId name state = .upToDate → ∀ u, ¬Missing accountId name s u) ↔
        s.watermark accountId name < state.uidNext ∨ ∀ u, ¬Missing accountId name s u) ∧
      ((machine accountId name codec engine).Reach inOrder s →
        ((∀ u, Missing accountId name s u → (s.planFor accountId name state).Covers u) ↔
          ∀ u, ¬Missing accountId name s u)) ∧
      ((machine accountId name codec engine).Reach carriedOut s → carriedOut s (.report i) →
        ∀ u, ¬Missing accountId name s u) := by
  have hplan := planFor_eq (current_of_reach h) (List.mem_of_getElem? hstate)
  have hcovers : ∀ u, (s.planFor accountId name state).Covers u ↔
      s.watermark accountId name ≤ u ∧ s.watermark accountId name < state.uidNext := by
    intro u
    rw [hplan, SyncPlan.Covers]
    split <;> simp [*]
  refine ⟨forall₂_congr fun u _ => hcovers u, ?_, fun hr => ⟨fun hall u hu => ?_, fun hnone u hu => ?_⟩,
    fun hr hok => not_missing_of_carriedOut hr hok⟩
  · rw [hplan]
    by_cases hlt : s.watermark accountId name < state.uidNext
    · simp [hlt]
    · simp [hlt]
  · have hlt := hu.lt_watermark (ordered_of_reach hr).2
    have hle := ((hcovers u).mp (hall u hu)).1
    omega
  · exact absurd hu (hnone u)

/-- The mailbox of the messages `1, .., n`, of which the cache has not heard. -/
def unseen (n : Nat) (hn : n < u32Max) : Sync := ⟨numbered n hn, Cache.initSchema, [], [], [], []⟩

/-- A run in which the fetch for a new message fails.  Then the state that was reported last but one comes
late, so that the stored `uid_next` goes back, and the next report asks for the message again. -/
theorem report_covers_missing_of_late : ∃ s : Sync,
    (machine "me" "INBOX" plainCodec findsAll).Reach Machine.any s ∧ s.reports = [⟨1, 5⟩] ∧
      Missing "me" "INBOX" s 4 ∧
      ∀ u, Missing "me" "INBOX" s u → (s.planFor "me" "INBOX" ⟨1, 5⟩).Covers u := by
  obtain ⟨s, hr, hp⟩ := Machine.exists_reach_of_trace (machine "me" "INBOX" plainCodec findsAll)
    Machine.any [.examine, .report 0, .fetch 0, .index 0, .examine, .arrive (plainHeader 4), .examine,
      .report 1, .fetchFails 0, .report 0, .examine]
    (fun s => decide (uids s.mailbox.messages = [1, 2, 3, 4] ∧ s.reports = [⟨1, 5⟩] ∧
      s.planned = [(1, 4), (4, 5)] ∧ s.watermark "me" "INBOX" = 4 ∧
      s.cache.messages.keys = [⟨"me", "INBOX", 1⟩, ⟨"me", "INBOX", 2⟩, ⟨"me", "INBOX", 3⟩]))
    (⟨rfl, rfl, rfl, rfl, rfl⟩ : Unseen "me" "INBOX" (unseen 3 (by decide))) (by decide)
  obtain ⟨hmailbox, hreports, hplanned, hmark, hkeys⟩ := of_decide_eq_true hp
  have hmissing : Missing "me" "INBOX" s 4 := by
    refine ⟨⟨(4, 5), by rw [hplanned]; simp, by decide, by decide⟩, ?_, ?_⟩
    · rw [Mailbox.has, hmailbox]
      decide
    · simp [Cached, hkeys]
  have hreported : s.reports[0]? = some ⟨1, 5⟩ := by rw [hreports]; rfl
  refine ⟨s, hr, hreports, hmissing, (report_covers_missing_iff hr hreported).1.mpr ?_⟩
  rintro u ⟨-, hhas, hnot⟩
  rw [Mailbox.has, hmailbox] at hhas
  rw [Cached, hkeys] at hnot
  rw [hmark]
  simp only [List.mem_cons, List.not_mem_nil, or_false] at hhas
  rcases hhas with rfl | rfl | rfl | rfl
  · exact absurd (by simp) hnot
  · exact absurd (by simp) hnot
  · exact absurd (by simp) hnot
  · exact ⟨Nat.le_refl 4, by decide⟩

/-- Three messages are planned and the fetch fails.  The next report finds the cache up to date, and
none of the three is in it. -/
theorem failed_fetch_is_never_repeated : ¬ ∀ s : Sync,
    (machine "me" "INBOX" plainCodec findsAll).Reach Machine.any s →
    ∀ (i : Nat) state, s.reports[i]? = some state → ∀ u, Missing "me" "INBOX" s u →
      (s.planFor "me" "INBOX" state).Covers u := by
  intro hall
  obtain ⟨s, hr, hp⟩ := Machine.exists_reach_of_trace (machine "me" "INBOX" plainCodec findsAll)
    Machine.any [.examine, .report 0, .fetchFails 0, .examine]
    (fun s => decide (s.mailbox.has 2 ∧ s.reports = [⟨1, 4⟩] ∧ s.planned = [(1, 4)] ∧
      s.cache.messages.keys = [] ∧ s.planFor "me" "INBOX" ⟨1, 4⟩ = .upToDate))
    (⟨rfl, rfl, rfl, rfl, rfl⟩ : Unseen "me" "INBOX" (unseen 3 (by decide))) (by decide)
  obtain ⟨hhas, hreports, hplanned, hkeys, hplan⟩ := of_decide_eq_true hp
  have hmissing : Missing "me" "INBOX" s 2 := by
    refine ⟨⟨(1, 4), by rw [hplanned]; simp, by decide, by decide⟩, hhas, ?_⟩
    simp [Cached, hkeys]
  obtain ⟨first, hfirst, -⟩ := hall s hr 0 ⟨1, 4⟩ (by rw [hreports]; rfl) 2 hmissing
  rw [hplan] at hfirst
  exact absurd hfirst (by simp)

end Sync

end Esmail.Cache
