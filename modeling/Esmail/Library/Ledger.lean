/-
# Ledgers

A run is often judged by a log of what happened in it: every entry has to be justified by the entries
before it.  `Sound J log` says so for a justification `J`, and `sound_concat` is the only rule that the
proofs about runs need: an entry that is written has to be justified by the log as it stands.
-/
import Mathlib.Tactic.Common

namespace Ledger

variable {α : Type} {J : List α → α → Prop}

/-- Every entry is justified by those before it. -/
def Sound (J : List α → α → Prop) (log : List α) : Prop :=
  ∀ before e after, log = before ++ e :: after → J before e

theorem sound_nil : Sound J [] := by
  intro before e after h
  simp at h

/-- One more entry. -/
theorem sound_concat {log : List α} {e : α} : Sound J (log ++ [e]) ↔ Sound J log ∧ J log e := by
  constructor
  · intro h
    refine ⟨fun before e' after hlog => h before e' (after ++ [e]) (by simp [hlog]), ?_⟩
    exact h log e [] rfl
  · rintro ⟨hlog, he⟩ before e' after h
    cases List.eq_nil_or_concat after with
    | inl hnil =>
      subst hnil
      obtain ⟨rfl, heq⟩ := List.append_inj' h rfl
      simp only [List.cons.injEq, and_true] at heq
      exact heq ▸ he
    | inr hconcat =>
      obtain ⟨after', e'', rfl⟩ := hconcat
      have hcut : log ++ [e] = (before ++ e' :: after') ++ [e''] := by simpa using h
      exact hlog before e' after' (List.append_inj' hcut rfl).1

theorem Sound.concat {log : List α} (h : Sound J log) {e : α} (he : J log e) :
    Sound J (log ++ [e]) :=
  sound_concat.mpr ⟨h, he⟩

/-- A justification may be weakened, entry by entry. -/
theorem Sound.mono {K : List α → α → Prop} (hsub : ∀ before e, J before e → K before e)
    {log : List α} (h : Sound J log) : Sound K log :=
  fun before e after hlog => hsub before e (h before e after hlog)

/-- Whatever an entry is, it is justified by the part of the log before it. -/
theorem Sound.of_mem {log : List α} (h : Sound J log) {e : α} (he : e ∈ log) :
    ∃ before, before <+: log ∧ J before e := by
  obtain ⟨before, after, rfl⟩ := List.append_of_mem he
  exact ⟨before, List.prefix_append _ _, h before e after rfl⟩

end Ledger
