/-
# A directory tree, and what deletes from it

The entries of a file system by their paths, a path being its components from the root.  Whatever is in a
directory keeps the directory there: that is a field of `FileTree`.  `removeFile`, `removeDir` and
`removeDirAll` are those of `std::fs`; whether the system refuses a deletion that could be done is an
argument of theirs.
-/
import Esmail.Library.Table
import Mathlib.Data.List.Infix
import Mathlib.Tactic.Common

namespace DirTree

/-- What is at a path. -/
inductive Entry
  | file (bytes : List UInt8)
  | dir
  deriving DecidableEq, Repr

/-- What a deletion fails with. -/
inductive IoError
  | notFound
  | isADirectory
  | notADirectory
  | notEmpty
  | refused (text : String)
  deriving DecidableEq, Repr

/-- The entries; what one of them is in is a directory. -/
structure FileTree (Name : Type) [DecidableEq Name] where
  table : Table (List Name) Entry
  nested : ∀ parent name entry, table.lookup (parent ++ [name]) = some entry →
    table.lookup parent = some .dir

namespace FileTree

variable {Name : Type} [DecidableEq Name]

def lookup (t : FileTree Name) (p : List Name) : Option Entry := t.table.lookup p

/-- A tree is checked by its rows. -/
theorem nested_of_rows {table : Table (List Name) Entry}
    (h : ∀ row ∈ table.rows, row.1 = [] ∨ table.lookup row.1.dropLast = some .dir)
    (parent : List Name) (name : Name) (entry : Entry)
    (hentry : table.lookup (parent ++ [name]) = some entry) : table.lookup parent = some .dir := by
  have hparent := h _ (Table.lookup_eq_some.mp hentry)
  simpa using hparent

/-- What a directory is in is a directory, all the way up. -/
theorem lookup_above {t : FileTree Name} {entry : Entry} {q : List Name} :
    ∀ {names : List Name}, names ≠ [] → t.lookup (q ++ names) = some entry → t.lookup q = some .dir := by
  intro names
  induction names using List.reverseRecOn generalizing entry with
  | nil => exact fun h => absurd rfl h
  | append_singleton names name ih =>
    intro _ h
    rw [← List.append_assoc] at h
    have hparent := t.nested _ _ _ h
    rcases eq_or_ne names [] with rfl | hne
    · rwa [List.append_nil] at hparent
    · exact ih hne hparent

/-! ## 1. Pruning -/

/-- That `gone` takes what is in a directory with the directory. -/
def Closed (t : FileTree Name) (gone : List Name → Bool) : Prop :=
  ∀ parent name, gone parent = true →
    gone (parent ++ [name]) = true ∨ t.lookup (parent ++ [name]) = none

theorem nested_deleteWhere {t : FileTree Name} {gone : List Name → Bool} (h : t.Closed gone)
    (parent : List Name) (name : Name) (entry : Entry)
    (hentry : (t.table.deleteWhere gone).lookup (parent ++ [name]) = some entry) :
    (t.table.deleteWhere gone).lookup parent = some .dir := by
  rw [Table.lookup_deleteWhere] at hentry ⊢
  split at hentry
  · cases hentry
  · next hkept =>
    split
    · next hgone =>
      rcases h parent name hgone with hgone' | hnone
      · exact absurd hgone' hkept
      · rw [lookup, hentry] at hnone
        cases hnone
    · exact t.nested parent name entry hentry

/-- The tree without the entries that are `gone`. -/
def prune (t : FileTree Name) (gone : List Name → Bool) (h : t.Closed gone) : FileTree Name where
  table := t.table.deleteWhere gone
  nested := nested_deleteWhere h

@[simp] theorem lookup_prune (t : FileTree Name) (gone : List Name → Bool) (h : t.Closed gone)
    (p : List Name) : (t.prune gone h).lookup p = if gone p then none else t.lookup p :=
  Table.lookup_deleteWhere ..

/-- Nothing has come in: each entry is as it was, or it is gone. -/
structure Shrinks (t t' : FileTree Name) : Prop where
  each : ∀ q, t'.lookup q = t.lookup q ∨ t'.lookup q = none

theorem Shrinks.refl (t : FileTree Name) : t.Shrinks t := ⟨fun _ => .inl rfl⟩

theorem Shrinks.trans {t t' t'' : FileTree Name} (h : t.Shrinks t') (h' : t'.Shrinks t'') :
    t.Shrinks t'' := by
  refine ⟨fun q => ?_⟩
  rcases h'.each q with hq | hq
  · rw [hq]
    exact h.each q
  · exact .inr hq

/-- What is not there does not come back. -/
theorem Shrinks.absent {t t' : FileTree Name} (h : t.Shrinks t') {q : List Name}
    (hq : t.lookup q = none) : t'.lookup q = none := by
  rcases h.each q with h | h
  · rw [h, hq]
  · exact h

theorem shrinks_prune (t : FileTree Name) (gone : List Name → Bool) (h : t.Closed gone) :
    t.Shrinks (t.prune gone h) := by
  refine ⟨fun q => ?_⟩
  rw [lookup_prune]
  split
  · exact .inr rfl
  · exact .inl rfl

/-! ## 2. One file -/

/-- What nothing is in goes alone. -/
theorem closed_of_childless {t : FileTree Name} {p : List Name}
    (h : ∀ name entry, t.lookup (p ++ [name]) ≠ some entry) : t.Closed (· = p) := by
  intro parent name hgone
  obtain rfl : parent = p := of_decide_eq_true hgone
  exact .inr (Option.eq_none_iff_forall_ne_some.mpr (h name))

theorem closed_file {t : FileTree Name} {p : List Name} {bytes : List UInt8}
    (h : t.lookup p = some (.file bytes)) : t.Closed (· = p) := by
  refine closed_of_childless fun name entry hchild => ?_
  have hdir := t.nested p name entry hchild
  rw [lookup, hdir] at h
  cases h

/-- `std::fs::remove_file`. -/
def removeFile (t : FileTree Name) (p : List Name) (refused : Option String) :
    FileTree Name × Option IoError :=
  match h : t.lookup p with
  | none => (t, some .notFound)
  | some .dir => (t, some .isADirectory)
  | some (.file _) =>
    match refused with
    | some text => (t, some (.refused text))
    | none => (t.prune (· = p) (closed_file h), none)

/-- A file is gone when nothing refused that; and nothing else is. -/
theorem lookup_removeFile (t : FileTree Name) (p : List Name) (refused : Option String) (q : List Name) :
    (t.removeFile p refused).1.lookup q =
      if q = p ∧ refused = none ∧ t.lookup p ≠ some .dir then none else t.lookup q := by
  unfold removeFile
  split
  · next h =>
    split
    · next hq => rw [hq.1, h]
    · rfl
  · next h => simp [h]
  · next h =>
    cases refused with
    | some text => simp
    | none => simp [h]

theorem shrinks_removeFile (t : FileTree Name) (p : List Name) (refused : Option String) :
    t.Shrinks (t.removeFile p refused).1 := by
  refine ⟨fun q => ?_⟩
  rw [lookup_removeFile]
  split
  · exact .inr rfl
  · exact .inl rfl

/-! ## 3. A directory -/

/-- Whether something is in the directory. -/
def hasChild (t : FileTree Name) (p : List Name) : Bool :=
  t.table.keys.any fun q => q ≠ [] && q.dropLast = p

theorem hasChild_of_lookup {t : FileTree Name} {p : List Name} {name : Name} {entry : Entry}
    (h : t.lookup (p ++ [name]) = some entry) : t.hasChild p = true := by
  rw [hasChild, List.any_eq_true]
  exact ⟨p ++ [name], Table.mem_keys.mpr ⟨entry, h⟩, by simp⟩

theorem closed_empty {t : FileTree Name} {p : List Name} (h : t.hasChild p = false) :
    t.Closed (· = p) := by
  refine closed_of_childless fun name entry hchild => ?_
  rw [hasChild_of_lookup hchild] at h
  cases h

/-- `std::fs::remove_dir`. -/
def removeDir (t : FileTree Name) (p : List Name) (refused : Option String) :
    FileTree Name × Option IoError :=
  match t.lookup p with
  | none => (t, some .notFound)
  | some (.file _) => (t, some .notADirectory)
  | some .dir =>
    if h : t.hasChild p = false then
      match refused with
      | some text => (t, some (.refused text))
      | none => (t.prune (· = p) (closed_empty h), none)
    else (t, some .notEmpty)

/-- Only an empty directory goes. -/
theorem lookup_removeDir (t : FileTree Name) (p : List Name) (refused : Option String) (q : List Name) :
    (t.removeDir p refused).1.lookup q = t.lookup q ∨
      q = p ∧ t.lookup p = some .dir ∧ t.hasChild p = false := by
  unfold removeDir
  split
  · exact .inl rfl
  · exact .inl rfl
  · next hdir =>
    split
    · next hempty =>
      cases refused with
      | some text => exact .inl rfl
      | none =>
        by_cases hq : q = p
        · exact .inr ⟨hq, hdir, hempty⟩
        · left
          simp [hq]
    · exact .inl rfl

theorem shrinks_removeDir (t : FileTree Name) (p : List Name) (refused : Option String) :
    t.Shrinks (t.removeDir p refused).1 := by
  unfold removeDir
  split
  · exact Shrinks.refl t
  · exact Shrinks.refl t
  · split
    · next hempty =>
      split
      · exact Shrinks.refl t
      · exact shrinks_prune t _ (closed_empty hempty)
    · exact Shrinks.refl t

/-! ## 4. A directory and all in it -/

/-- What a deletion of everything in `p` takes with it, where the entries that are `held` stay, and
what they are in. -/
def taken (p : List Name) (held : List (List Name)) (q : List Name) : Bool :=
  p.isPrefixOf q && !held.any fun h => q.isPrefixOf h

theorem closed_taken (t : FileTree Name) (p : List Name) (held : List (List Name)) :
    t.Closed (taken p held) := by
  intro parent name hgone
  left
  simp only [taken, Bool.and_eq_true, List.isPrefixOf_iff_prefix, Bool.not_eq_true',
    List.any_eq_false] at hgone ⊢
  refine ⟨hgone.1.trans (List.prefix_append _ _), fun h hh hpre => hgone.2 h hh ?_⟩
  exact (List.prefix_append _ _).trans hpre

/-- `std::fs::remove_dir_all`; where it fails, some of what is in the directory may be gone. -/
def removeDirAll (t : FileTree Name) (p : List Name) (refused : Option (String × List (List Name))) :
    FileTree Name × Option IoError :=
  match t.lookup p with
  | none => (t, some .notFound)
  | some (.file _) => (t, some .notADirectory)
  | some .dir =>
    match refused with
    | some (text, held) => (t.prune (taken p held) (closed_taken t p held), some (.refused text))
    | none => (t.prune (taken p []) (closed_taken t p []), none)

/-- What is not in the directory stays. -/
theorem lookup_removeDirAll_of_not_prefix (t : FileTree Name) {p q : List Name}
    (refused : Option (String × List (List Name))) (h : ¬p <+: q) :
    (t.removeDirAll p refused).1.lookup q = t.lookup q := by
  have hnot : ∀ held, taken p held q = false := fun held => by
    simp [taken, List.isPrefixOf_iff_prefix, h]
  unfold removeDirAll
  split
  · rfl
  · rfl
  · split <;> simp [hnot]

theorem shrinks_removeDirAll (t : FileTree Name) (p : List Name)
    (refused : Option (String × List (List Name))) : t.Shrinks (t.removeDirAll p refused).1 := by
  unfold removeDirAll
  split
  · exact Shrinks.refl t
  · exact Shrinks.refl t
  · split <;> exact shrinks_prune t _ (closed_taken t p _)

/-- Nothing of the directory stays, unless the system refuses. -/
theorem lookup_removeDirAll_of_prefix {t : FileTree Name} {p q : List Name}
    (hp : t.lookup p = some .dir) (h : p <+: q) :
    (t.removeDirAll p none).1.lookup q = none := by
  unfold removeDirAll
  split
  · next hnone => rw [hnone] at hp; cases hp
  · next hfile => rw [hfile] at hp; cases hp
  · simp [taken, List.isPrefixOf_iff_prefix, h]

end FileTree

end DirTree
