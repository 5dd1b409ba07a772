/-
# Placeholders

A list in which one element stands for a whole run of them, with the runs kept beside it by where they
were.  `putBack` undoes it.  The element that stands for a run may also stand for itself elsewhere in the
list: only the places on record are filled.
-/
import Mathlib.Data.List.Basic
import Mathlib.Tactic.Common

namespace Placeholders

variable {α : Type}

/-- Every run put back in the place that stands for it. -/
def putBack (runs : List (Nat × List α)) (text : List α) : List α :=
  text.zipIdx.flatMap fun e => (runs.lookup e.2).getD [e.1]

/-- What stands in a text for an original: the places ascend, there is a placeholder in each, and
putting back leaves the original. -/
structure StandsFor (placeholder : α) (runs : List (Nat × List α)) (text original : List α) : Prop where
  ascending : (runs.map Prod.fst).Pairwise (· < ·)
  here : ∀ run ∈ runs, text[run.1]? = some placeholder
  back : putBack runs text = original

theorem lookup_eq_none {runs : List (Nat × List α)} {i : Nat} (h : ∀ run ∈ runs, run.1 < i) :
    runs.lookup i = none := by
  rw [List.lookup_eq_none_iff]
  intro run hrun
  simpa using Nat.ne_of_gt (h run hrun)

/-- The places of a longer text that are in it already are filled as before. -/
theorem putBack_congr {runs runs' : List (Nat × List α)} {text : List α}
    (h : ∀ i < text.length, runs'.lookup i = runs.lookup i) :
    putBack runs' text = putBack runs text := by
  rw [putBack, putBack]
  refine List.flatMap_congr fun e he => ?_
  rw [h e.2 (by simpa using List.snd_lt_of_mem_zipIdx he)]

theorem putBack_append (runs : List (Nat × List α)) (text s : List α) :
    putBack runs (text ++ s) = putBack runs text ++
      (s.zipIdx text.length).flatMap fun e => (runs.lookup e.2).getD [e.1] := by
  rw [putBack, List.zipIdx_append, List.flatMap_append, Nat.zero_add, ← putBack]

/-- Behind the last place, everything stands for itself. -/
theorem flatMap_beyond {runs : List (Nat × List α)} : ∀ {s : List α} {i : Nat},
    (∀ run ∈ runs, run.1 < i) →
      ((s.zipIdx i).flatMap fun e => (runs.lookup e.2).getD [e.1]) = s
  | [], _, _ => rfl
  | c :: s, i, h => by
    rw [List.zipIdx_cons, List.flatMap_cons, lookup_eq_none h,
      flatMap_beyond fun run hrun => Nat.lt_succ_of_lt (h run hrun)]
    rfl

namespace StandsFor

variable {placeholder : α} {runs : List (Nat × List α)} {text original : List α}

theorem nil : StandsFor placeholder [] [] [] := ⟨List.Pairwise.nil, by simp, rfl⟩

theorem lt_length (h : StandsFor placeholder runs text original) :
    ∀ run ∈ runs, run.1 < text.length := fun run hrun =>
  (List.getElem?_eq_some_iff.mp (h.here run hrun)).1

/-- More of the original, kept as it is. -/
theorem keep (h : StandsFor placeholder runs text original) (s : List α) :
    StandsFor placeholder runs (text ++ s) (original ++ s) where
  ascending := h.ascending
  here run hrun := by
    rw [List.getElem?_append_left (h.lt_length run hrun)]
    exact h.here run hrun
  back := by rw [putBack_append, h.back, flatMap_beyond h.lt_length]

/-- More of the original, with a placeholder for it. -/
theorem swap (h : StandsFor placeholder runs text original) (s : List α) :
    StandsFor placeholder (runs ++ [(text.length, s)]) (text ++ [placeholder]) (original ++ s) where
  ascending := by
    rw [List.map_append, List.pairwise_append]
    refine ⟨h.ascending, List.pairwise_singleton _ _, fun i hi j hj => ?_⟩
    obtain ⟨run, hrun, rfl⟩ := List.mem_map.mp hi
    obtain rfl := List.mem_singleton.mp hj
    exact h.lt_length run hrun
  here run hrun := by
    rcases List.mem_append.mp hrun with hrun | hrun
    · rw [List.getElem?_append_left (h.lt_length run hrun)]
      exact h.here run hrun
    · obtain rfl := List.mem_singleton.mp hrun
      simp
  back := by
    have hbefore : putBack (runs ++ [(text.length, s)]) text = putBack runs text := by
      refine putBack_congr fun i hi => ?_
      have hne : (i == text.length) = false := by simpa using Nat.ne_of_lt hi
      rw [List.lookup_append, List.lookup_cons, hne]
      simp
    have hnew : (runs ++ [(text.length, s)]).lookup text.length = some s := by
      rw [List.lookup_append, lookup_eq_none h.lt_length]
      simp
    rw [putBack_append, hbefore, h.back]
    simp [hnew]

end StandsFor

end Placeholders
