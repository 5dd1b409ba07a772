/-
# Tables with a primary key

The rows of a `Table` stand in the order in which they were inserted, and no key stands twice:
the constraint that SQL's PRIMARY KEY puts on a table is a field of the type.  `upsert` is
INSERT .. ON CONFLICT DO UPDATE, which keeps the place of a row it updates.  A proof reads a table
through `lookup`, by the equations of section 2.
-/
import Mathlib.Data.List.Basic
import Mathlib.Data.List.Nodup
import Mathlib.Data.List.TakeWhile

structure Table (κ ρ : Type) where
  rows : List (κ × ρ)
  nodup : (rows.map Prod.fst).Nodup
  deriving DecidableEq

namespace Table

variable {κ ρ : Type} [DecidableEq κ]

/-! ## 1. The statements -/

def empty : Table κ ρ := ⟨[], List.nodup_nil⟩

def keys (t : Table κ ρ) : List κ := t.rows.map Prod.fst

def lookup (t : Table κ ρ) (k : κ) : Option ρ := (t.rows.find? fun r => r.1 = k).map Prod.snd

def deleteWhere (t : Table κ ρ) (p : κ → Bool) : Table κ ρ :=
  ⟨t.rows.filter fun r => !p r.1, t.nodup.sublist (List.filter_sublist.map _)⟩

theorem map_update_keys (rows : List (κ × ρ)) (k : κ) (f : ρ → ρ) :
    (rows.map fun r => if r.1 = k then (k, f r.2) else r).map Prod.fst = rows.map Prod.fst := by
  rw [List.map_map]
  refine List.map_congr_left fun r _ => ?_
  simp only [Function.comp_apply]
  split
  · next h => exact h.symm
  · rfl

def update (t : Table κ ρ) (k : κ) (f : ρ → ρ) : Table κ ρ :=
  ⟨t.rows.map fun r => if r.1 = k then (k, f r.2) else r, by
    rw [map_update_keys]
    exact t.nodup⟩

def upsert (t : Table κ ρ) (k : κ) (v : ρ) : Table κ ρ :=
  if h : k ∈ t.keys then t.update k fun _ => v
  else ⟨t.rows ++ [(k, v)], by
    rw [List.map_append, List.map_singleton]
    exact List.nodup_append.mpr ⟨t.nodup, List.nodup_singleton k, fun a ha b hb he => by
      rw [he, List.mem_singleton.mp hb] at ha
      exact h ha⟩⟩

/-! ## 2. What a lookup finds -/

theorem lookup_eq_some {t : Table κ ρ} {k : κ} {v : ρ} :
    t.lookup k = some v ↔ (k, v) ∈ t.rows := by
  obtain ⟨rows, hnodup⟩ := t
  induction rows with
  | nil => simp [lookup]
  | cons r rows ih =>
    simp only [List.map_cons, List.nodup_cons] at hnodup
    have hrest := ih hnodup.2
    simp only [lookup] at hrest ⊢
    by_cases h : r.1 = k
    · have hnot : (k, v) ∉ rows := fun hm => hnodup.1 (h ▸ List.mem_map.mpr ⟨(k, v), hm, rfl⟩)
      simp only [List.find?_cons, h, decide_true, Option.map_some, Option.some.injEq,
        List.mem_cons, hnot, or_false]
      constructor
      · rintro rfl
        exact Prod.ext h.symm rfl
      · rintro he
        rw [← he]
    · have hne : (k, v) ≠ r := by
        rintro rfl
        exact h rfl
      simp only [List.find?_cons, h, decide_false, List.mem_cons, hne, false_or]
      exact hrest

theorem mem_keys {t : Table κ ρ} {k : κ} : k ∈ t.keys ↔ ∃ v, t.lookup k = some v := by
  simp only [keys, List.mem_map, lookup_eq_some]
  constructor
  · rintro ⟨⟨_, v⟩, hr, rfl⟩
    exact ⟨v, hr⟩
  · rintro ⟨v, hv⟩
    exact ⟨(k, v), hv, rfl⟩

theorem lookup_eq_none {t : Table κ ρ} {k : κ} : t.lookup k = none ↔ k ∉ t.keys := by
  rw [mem_keys]
  cases t.lookup k <;> simp

@[simp] theorem lookup_empty (k : κ) : (empty : Table κ ρ).lookup k = none := rfl

@[simp] theorem keys_empty {κ ρ : Type} : (empty : Table κ ρ).keys = [] := rfl

theorem lookup_deleteWhere (t : Table κ ρ) (p : κ → Bool) (k : κ) :
    (t.deleteWhere p).lookup k = if p k then none else t.lookup k := by
  refine Option.ext fun v => ?_
  rw [lookup_eq_some]
  simp only [deleteWhere, List.mem_filter, Bool.not_eq_true']
  split
  · next h => simp [h]
  · next h =>
    rw [lookup_eq_some]
    simp [h]

theorem lookup_update (t : Table κ ρ) (k : κ) (f : ρ → ρ) (k' : κ) :
    (t.update k f).lookup k' = if k' = k then (t.lookup k').map f else t.lookup k' := by
  refine Option.ext fun v => ?_
  rw [lookup_eq_some]
  simp only [update, List.mem_map]
  constructor
  · rintro ⟨r, hr, he⟩
    split at he
    · next hrk =>
      obtain ⟨rfl, rfl⟩ := Prod.mk.inj he
      rw [if_pos rfl, Option.map_eq_some_iff]
      exact ⟨r.2, lookup_eq_some.mpr (hrk ▸ hr), rfl⟩
    · next hrk =>
      subst he
      rw [if_neg hrk]
      exact lookup_eq_some.mpr hr
  · intro h
    split at h
    · next hk =>
      obtain ⟨w, hw, rfl⟩ := Option.map_eq_some_iff.mp h
      exact ⟨(k', w), lookup_eq_some.mp hw, by rw [if_pos hk, hk]⟩
    · next hk => exact ⟨(k', v), lookup_eq_some.mp h, by rw [if_neg hk]⟩

theorem lookup_upsert (t : Table κ ρ) (k : κ) (v : ρ) (k' : κ) :
    (t.upsert k v).lookup k' = if k' = k then some v else t.lookup k' := by
  unfold upsert
  split
  · next h =>
    rw [lookup_update]
    split
    · next hk =>
      obtain ⟨w, hw⟩ := mem_keys.mp h
      rw [hk, hw, Option.map_some]
    · rfl
  · next h =>
    refine Option.ext fun w => ?_
    rw [lookup_eq_some, List.mem_append, List.mem_singleton]
    split
    · next hk =>
      subst hk
      constructor
      · rintro (hm | he)
        · exact absurd (mem_keys.mpr ⟨w, lookup_eq_some.mpr hm⟩) h
        · rw [(Prod.mk.inj he).2]
      · rintro he
        exact Or.inr (by rw [Option.some.inj he])
    · next hk =>
      rw [lookup_eq_some]
      constructor
      · rintro (hm | he)
        · exact hm
        · exact absurd (Prod.mk.inj he).1 hk
      · exact Or.inl

@[simp] theorem mem_keys_upsert {t : Table κ ρ} {k k' : κ} {v : ρ} :
    k' ∈ (t.upsert k v).keys ↔ k' = k ∨ k' ∈ t.keys := by
  rw [mem_keys, mem_keys]
  simp only [lookup_upsert]
  by_cases h : k' = k <;> simp [h]

@[simp] theorem mem_keys_deleteWhere {t : Table κ ρ} {p : κ → Bool} {k : κ} :
    k ∈ (t.deleteWhere p).keys ↔ p k = false ∧ k ∈ t.keys := by
  rw [mem_keys, mem_keys]
  simp only [lookup_deleteWhere]
  by_cases h : p k <;> simp [h]

@[simp] theorem keys_update (t : Table κ ρ) (k : κ) (f : ρ → ρ) : (t.update k f).keys = t.keys :=
  map_update_keys t.rows k f

/-! ## 3. Where a row stands -/

/-- The rows before the one of a key, all of them where it has none. -/
def before (t : Table κ ρ) (k : κ) : List (κ × ρ) := t.rows.takeWhile fun r => r.1 ≠ k

/-- The rows behind it. -/
def behind (t : Table κ ρ) (k : κ) : List (κ × ρ) := (t.rows.dropWhile fun r => r.1 ≠ k).tail

theorem rows_of_mem_keys {t : Table κ ρ} {k : κ} (h : k ∈ t.keys) :
    ∃ v, t.rows = t.before k ++ (k, v) :: t.behind k := by
  obtain ⟨v, hv⟩ := mem_keys.mp h
  have hmem := lookup_eq_some.mp hv
  rcases hdrop : t.rows.dropWhile (fun r => decide (r.1 ≠ k)) with - | ⟨⟨k', w⟩, rest⟩
  · have hne := List.dropWhile_eq_nil_iff.mp hdrop (k, v) hmem
    simp at hne
  · have hkey : k' = k := by
      have hhead := List.head?_dropWhile_not (fun r : κ × ρ => decide (r.1 ≠ k)) t.rows
      rw [hdrop] at hhead
      simpa using hhead
    subst hkey
    refine ⟨w, ?_⟩
    rw [before, behind, hdrop, List.tail_cons, ← hdrop, List.takeWhile_append_dropWhile]

/-- A key that the table does not have stands behind all rows. -/
theorem before_of_not_mem {t : Table κ ρ} {k : κ} (h : k ∉ t.keys) :
    t.before k = t.rows ∧ t.behind k = [] := by
  have hall : ∀ r ∈ t.rows, decide (r.1 ≠ k) = true := by
    intro r hr
    rw [decide_eq_true_eq]
    rintro rfl
    exact h (List.mem_map_of_mem hr)
  rw [before, behind, List.takeWhile_eq_self_iff.mpr hall, List.dropWhile_eq_nil_iff.mpr hall]
  exact ⟨rfl, rfl⟩

/-- An upsert puts its row in the place of the key, or behind all others. -/
theorem rows_upsert (t : Table κ ρ) (k : κ) (v : ρ) :
    (t.upsert k v).rows = t.before k ++ (k, v) :: t.behind k := by
  unfold upsert
  split
  · next h =>
    obtain ⟨w, hrows⟩ := rows_of_mem_keys h
    have hnodup := t.nodup
    rw [hrows, List.map_append, List.map_cons, List.nodup_append, List.nodup_cons] at hnodup
    obtain ⟨-, ⟨hbehind, -⟩, hbefore⟩ := hnodup
    have hsame : ∀ {l : List (κ × ρ)}, k ∉ l.map Prod.fst →
        l.map (fun r => if r.1 = k then (k, v) else r) = l := by
      intro l hl
      refine (List.map_congr_left fun r hr => if_neg ?_).trans (List.map_id l)
      rintro rfl
      exact hl (List.mem_map_of_mem hr)
    rw [update]
    dsimp only
    conv_lhs => rw [hrows]
    rw [List.map_append, List.map_cons, hsame hbehind,
      hsame fun hmem => hbefore k hmem k List.mem_cons_self rfl, if_pos rfl]
  · next h =>
    obtain ⟨hbefore, hbehind⟩ := before_of_not_mem h
    rw [hbefore, hbehind]

end Table
