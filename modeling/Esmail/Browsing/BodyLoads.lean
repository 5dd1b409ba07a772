/-
# The one body that is being fetched

`BodyLoads` of `core_glue/loads.rs`: at most one body is fetched at a time, and the message that was
selected last is remembered until the connection is free.

The machine runs it under every order of its calls.  Beside the register it keeps the requests that
were handed out and not answered, and the keys reported as to be shown since another key was wanted;
the register itself reads neither.

`selection_kept` holds of every run, without any condition on the callers: at most one request is out, a
reply is shown only for the key that is wanted, and what is wanted is shown or on its way.  It comes from
`Sound`, which says that what was handed out is what the register holds, and from what each call does to
the register alone (section 3): a reply that is not to the request in flight is ignored, one to what is
wanted leaves the register empty, any other starts what is wanted now.

The keys are of any type.  Whether the window builds the right ones is another question: see `Pane.lean`.
-/
import Esmail.Library.Machine
import Esmail.Mailbox.OpenFolder

namespace Esmail.Browsing

open Transition

variable {K : Type} [DecidableEq K]

/-! ## 1. The register -/

/-- `Finished`: what to do with a reply, and what to fetch next. -/
structure Finished (K : Type) where
  «show» : Bool
  next : Option (K × Nat)
  deriving DecidableEq, Repr

/-- `BodyLoads`. -/
structure BodyLoads (K : Type) where
  ids : Latest := {}
  inFlight : Option (K × Nat) := none
  wanted : Option K := none
  deriving DecidableEq, Repr

namespace BodyLoads

omit [DecidableEq K] in
/-- `BodyLoads::start_wanted`. -/
def startWanted (b : BodyLoads K) : BodyLoads K × Option (K × Nat) :=
  if b.inFlight.isSome then (b, none)
  else
    match b.wanted with
    | none => (b, none)
    | some key =>
      ({ b with ids := b.ids.begin.1, inFlight := some (key, b.ids.begin.2) },
        some (key, b.ids.begin.2))

/-- `BodyLoads::want`. -/
def want (b : BodyLoads K) (key : K) : BodyLoads K × Option (K × Nat) :=
  if b.wanted = some key then (b, none) else { b with wanted := some key }.startWanted

/-- `BodyLoads::cancel`. -/
def cancel (b : BodyLoads K) : BodyLoads K := { b with wanted := none }

/-- `BodyLoads::finished`. -/
def finished (b : BodyLoads K) (key : K) (id : Nat) : BodyLoads K × Finished K :=
  if b.inFlight ≠ some (key, id) then (b, ⟨false, none⟩)
  else
    let b := { b with inFlight := none }
    if b.wanted = some key then (b, ⟨true, none⟩)
    else (b.startWanted.1, ⟨false, b.startWanted.2⟩)

end BodyLoads

/-! ## 2. The machine -/

/-- The register, the requests handed out and not answered, and the keys that were reported as to be
shown since the key that is wanted became wanted. -/
structure Loading (K : Type) where
  loads : BodyLoads K
  outstanding : List (K × Nat)
  shown : List K

/-- A call of the register, with any arguments. -/
inductive Call (K : Type)
  | want (key : K)
  | cancel
  | finished (key : K) (id : Nat)

namespace Loading

/-- A want for the key that is wanted already is no new wish. -/
def step (s : Loading K) : Call K → Option (Loading K)
  | .want key =>
    let (loads, request) := s.loads.want key
    some ⟨loads, s.outstanding ++ request.toList, if s.loads.wanted = some key then s.shown else []⟩
  | .cancel => some { s with loads := s.loads.cancel, shown := [] }
  | .finished key id =>
    let (loads, finished) := s.loads.finished key id
    some ⟨loads, s.outstanding.erase (key, id) ++ finished.next.toList,
      if finished.show then s.shown ++ [key] else s.shown⟩

def machine : Machine (Loading K) (Call K) := ⟨fun s => s = ⟨{}, [], []⟩, step⟩

end Loading

/-! ## 3. What each call does -/

namespace BodyLoads

omit [DecidableEq K] in
theorem startWanted_busy {b : BodyLoads K} {r : K × Nat} (h : b.inFlight = some r) :
    b.startWanted = (b, none) := by
  rw [startWanted, if_pos (by rw [h]; rfl)]

omit [DecidableEq K] in
theorem startWanted_idle {b : BodyLoads K} (h : b.wanted = none) : b.startWanted = (b, none) := by
  unfold startWanted
  split
  · rfl
  · rw [h]

omit [DecidableEq K] in
/-- What is wanted is started when the register is empty. -/
theorem startWanted_free {b : BodyLoads K} {key : K} (h : b.inFlight = none)
    (hwanted : b.wanted = some key) :
    b.startWanted =
      ({ b with ids := b.ids.begin.1, inFlight := some (key, b.ids.begin.2) },
        some (key, b.ids.begin.2)) := by
  rw [startWanted, if_neg (by rw [h]; simp)]
  simp only [hwanted]

omit [DecidableEq K] in
/-- Starting what is wanted fills the register, unless nothing is wanted; what is handed out is what
is put into it. -/
theorem startWanted_spec (b : BodyLoads K) :
    b.startWanted.1.wanted = b.wanted ∧
      b.startWanted.1.inFlight.toList = b.inFlight.toList ++ b.startWanted.2.toList ∧
      (b.startWanted.1.inFlight = none → b.wanted = none) := by
  cases hflight : b.inFlight with
  | some r =>
    rw [startWanted_busy hflight, hflight]
    exact ⟨rfl, rfl, fun hnone => absurd hnone (by simp)⟩
  | none =>
    cases hwanted : b.wanted with
    | none =>
      rw [startWanted_idle hwanted, hflight]
      exact ⟨hwanted, rfl, fun _ => rfl⟩
    | some key =>
      rw [startWanted_free hflight hwanted]
      exact ⟨hwanted, rfl, fun hnone => absurd hnone (by simp)⟩

omit [DecidableEq K] in
/-- An empty register is not filled with what is not wanted. -/
theorem startWanted_ne {b : BodyLoads K} {key : K} (id : Nat) (h : b.inFlight = none)
    (hwanted : b.wanted ≠ some key) : b.startWanted.1.inFlight ≠ some (key, id) := by
  cases hwant : b.wanted with
  | none =>
    rw [startWanted_idle hwant, h]
    exact fun hsome => absurd hsome (by simp)
  | some other =>
    rw [startWanted_free h hwant]
    intro hsame
    obtain ⟨rfl, -⟩ := Prod.mk.inj (Option.some.inj hsame)
    exact hwanted hwant

/-- A key that is wanted already starts nothing. -/
theorem want_same {b : BodyLoads K} {key : K} (h : b.wanted = some key) : b.want key = (b, none) :=
  if_pos h

theorem want_other {b : BodyLoads K} {key : K} (h : b.wanted ≠ some key) :
    b.want key = ({ b with wanted := some key } : BodyLoads K).startWanted := if_neg h

/-- Any other reply than the one to the request in flight is ignored. -/
theorem finished_other {b : BodyLoads K} {key : K} {id : Nat} (h : b.inFlight ≠ some (key, id)) :
    b.finished key id = (b, ⟨false, none⟩) := if_pos h

/-- The reply to what is wanted leaves the register empty. -/
theorem finished_wanted {b : BodyLoads K} {key : K} {id : Nat} (h : b.inFlight = some (key, id))
    (hwanted : b.wanted = some key) :
    b.finished key id = ({ b with inFlight := none }, ⟨true, none⟩) := by
  rw [finished, if_neg (not_not.mpr h)]
  exact if_pos hwanted

/-- The reply to what is no longer wanted is not shown, and what is wanted now is started. -/
theorem finished_unwanted {b : BodyLoads K} {key : K} {id : Nat} (h : b.inFlight = some (key, id))
    (hwanted : b.wanted ≠ some key) :
    b.finished key id = (({ b with inFlight := none } : BodyLoads K).startWanted.1,
      ⟨false, ({ b with inFlight := none } : BodyLoads K).startWanted.2⟩) := by
  rw [finished, if_neg (not_not.mpr h)]
  exact if_neg hwanted

/-- A reply that is to be shown answers the request in flight, and that is the one wanted. -/
theorem of_show {b : BodyLoads K} {key : K} {id : Nat} (h : (b.finished key id).2.show = true) :
    b.inFlight = some (key, id) ∧ b.wanted = some key := by
  by_cases hflight : b.inFlight = some (key, id)
  · refine ⟨hflight, ?_⟩
    by_contra hwanted
    rw [finished_unwanted hflight hwanted] at h
    cases h
  · rw [finished_other hflight] at h
    cases h

end BodyLoads

/-! ## 4. Nothing is lost, or shown in another's place -/

namespace Loading

/-- What was handed out is what the register holds; and what is wanted has been shown once the
register is empty. -/
structure Sound (s : Loading K) : Prop where
  outstanding : s.outstanding = s.loads.inFlight.toList
  shown : ∀ key, s.loads.wanted = some key → s.loads.inFlight = none → key ∈ s.shown

theorem Sound.want {s : Loading K} (h : Sound s) (key : K) :
    Sound ⟨(s.loads.want key).1, s.outstanding ++ (s.loads.want key).2.toList,
      if s.loads.wanted = some key then s.shown else []⟩ := by
  by_cases hwanted : s.loads.wanted = some key
  · rw [BodyLoads.want_same hwanted, if_pos hwanted]
    exact ⟨(List.append_nil _).trans h.outstanding, h.shown⟩
  · rw [BodyLoads.want_other hwanted, if_neg hwanted]
    obtain ⟨hsame, hlist, hfull⟩ :=
      BodyLoads.startWanted_spec ({ s.loads with wanted := some key } : BodyLoads K)
    refine ⟨?_, fun key' _ hnone => ?_⟩
    · rw [hlist, h.outstanding]
    · exact absurd (hfull hnone) (by simp)

theorem Sound.finished {s : Loading K} (h : Sound s) (key : K) (id : Nat) :
    Sound ⟨(s.loads.finished key id).1,
      s.outstanding.erase (key, id) ++ (s.loads.finished key id).2.next.toList,
      if (s.loads.finished key id).2.show then s.shown ++ [key] else s.shown⟩ := by
  by_cases hflight : s.loads.inFlight = some (key, id)
  · have hanswered : s.outstanding.erase (key, id) = [] := by
      rw [h.outstanding, hflight]
      simp
    by_cases hwanted : s.loads.wanted = some key
    · rw [BodyLoads.finished_wanted hflight hwanted, hanswered]
      refine ⟨rfl, fun key' hkey' _ => ?_⟩
      obtain rfl := Option.some.inj (hwanted.symm.trans hkey')
      exact List.mem_append_right _ List.mem_cons_self
    · rw [BodyLoads.finished_unwanted hflight hwanted, hanswered]
      obtain ⟨hsame, hlist, hfull⟩ :=
        BodyLoads.startWanted_spec ({ s.loads with inFlight := none } : BodyLoads K)
      refine ⟨hlist.symm, fun key' hkey' hnone => ?_⟩
      rw [← hsame, hkey'] at hfull
      exact absurd (hfull hnone) (by simp)
  · have hmem : (key, id) ∉ s.outstanding := by
      rw [h.outstanding, Option.mem_toList]
      exact hflight
    rw [BodyLoads.finished_other hflight, List.erase_of_not_mem hmem]
    exact ⟨(List.append_nil _).trans h.outstanding, h.shown⟩

theorem Sound.step {s s' : Loading K} {a : Call K} (h : Sound s) (hst : s.step a = some s') :
    Sound s' := by
  cases a with
  | want key => exact Option.some.inj hst ▸ h.want key
  | cancel =>
    obtain rfl := Option.some.inj hst
    exact ⟨h.outstanding, fun key hwanted => absurd hwanted (by simp [BodyLoads.cancel])⟩
  | finished key id => exact Option.some.inj hst ▸ h.finished key id

theorem Sound.of_reach {s : Loading K} (h : machine.Reach Machine.any s) : Sound s := by
  refine h.invariant (P := Sound) ?_ fun s a s' _ hsound _ hst => hsound.step hst
  rintro s rfl
  exact ⟨rfl, fun key hwanted => absurd hwanted (by simp)⟩

/-- In every run, at most one request is out; a reply is reported as to be shown only if it is for the
key that is wanted; and what is wanted has been shown since it became wanted, unless a request is
out.  There is no condition on the calls: replies may come twice, or to requests that were never made. -/
theorem selection_kept {s : Loading K} (h : machine.Reach Machine.any s) :
    s.outstanding.length ≤ 1 ∧
      (∀ key id, (s.loads.finished key id).2.show = true → s.loads.wanted = some key) ∧
      ∀ key, s.loads.wanted = some key → s.outstanding = [] → key ∈ s.shown := by
  have hsound := Sound.of_reach h
  refine ⟨?_, fun key id hshow => (BodyLoads.of_show hshow).2, fun key hwanted hnone => ?_⟩
  · rw [hsound.outstanding]
    cases s.loads.inFlight <;> simp
  · rw [hsound.outstanding, Option.toList_eq_nil_iff] at hnone
    exact hsound.shown key hwanted hnone

/-- Such a run: two more messages are selected while the first is fetched, and then its reply
arrives. -/
theorem selection_kept_of_arrowing : ∃ s : Loading Nat,
    s.loads.wanted = some 3 ∧ s.outstanding = [(3, 2)] ∧ s.shown = [] ∧
      s.outstanding.length ≤ 1 ∧
      (∀ key id, (s.loads.finished key id).2.show = true → s.loads.wanted = some key) ∧
      ∀ key, s.loads.wanted = some key → s.outstanding = [] → key ∈ s.shown := by
  obtain ⟨s, hr, hp⟩ := Machine.exists_reach_of_trace (machine (K := Nat)) Machine.any
    [.want 1, .want 2, .want 3, .finished 1 1]
    (fun s => decide (s.loads.wanted = some 3 ∧ s.outstanding = [(3, 2)] ∧ s.shown = []))
    rfl (by decide)
  obtain ⟨hwanted, hout, hshown⟩ := of_decide_eq_true hp
  exact ⟨s, hwanted, hout, hshown, selection_kept hr⟩

end Loading

end Esmail.Browsing
