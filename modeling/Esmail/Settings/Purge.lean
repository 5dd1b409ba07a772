/-
# Everything removed

`uninstall.rs`.  A default directory is esMail's alone and goes with all that is in it; a relocated one may
be anybody's, so only the files on a list go, and the directory itself if that leaves it empty.  The list
is kept by hand, apart from the modules that create files: `createdData` and `createdConfig` are what those
create.

`purge_spec` is what a purge takes and what it leaves, of any tree of files, wherever the directories are
and whatever the system refuses to delete: the files on the lists, the default directories and the scratch
directory go, as far as the system lets them; every file that esMail does not create stays, outside the
directories that go as a whole.

Each step has a lemma for what it takes and one for what it leaves.  What is taken stays away, because no
step puts anything back (`Shrinks`), and because what is below something that is gone is gone
(`absent_below`); so it does not matter that the directories may lie in each other.

The files that esMail creates and that are on no list stay, too; of these nothing is said.
-/
import Esmail.Library.DirTree
import Esmail.Library.RustText
import Esmail.Settings.Keyring

namespace Esmail.Uninstall

open DirTree
open Settings (AccountConfig Kind)

/-! ## 1. Where things are -/

abbrev Path := List String

/-- `SECRET_KINDS`. -/
def secretKinds : List Kind := [.imap, .smtp, .oauth]

/-- `DATA_FILES`. -/
def dataFiles : List String :=
  ["mails.db", "mails.db-wal", "mails.db-shm", "mails.db-journal", "esmail.lock", "show.request",
    "quit.request", "ipc.token"]

/-- `CONFIG_FILE_NAME`. -/
def configFileName : String := "config.toml"

/-- `TOAST_ICON_FILE_NAME`. -/
def toastIconFileName : String := "toast-icon.png"

/-- The files that esMail creates in its data directory, by any of its modules. -/
def createdData : List String :=
  dataFiles ++ [toastIconFileName, "open-account.request", "compose.request"]

/-- Those in its configuration directory. -/
def createdConfig : List String :=
  [configFileName, "win32-window.toml", "win32-window.toml.tmp", "win32-settings.toml",
    "win32-settings.toml.tmp"]

/-- `Layout`. -/
structure Layout where
  configDir : Option Path
  configExclusive : Bool
  dataDir : Option Path
  dataExclusive : Bool
  scratchDir : Path

/-- What the system refuses to delete, though it is there, and how it says so.  Where everything in a
directory is to go, it also says what stays. -/
structure System where
  file : Path → Option String := fun _ => none
  dir : Path → Option String := fun _ => none
  dirAll : Path → Option (String × List Path) := fun _ => none
  describe : IoError → String := fun _ => ""

/-- `Path::display`. -/
def display (p : Path) : String := "\\".intercalate p

/-- What a purge has come to: the files there are, what could not be removed, and the secrets that were
deleted. -/
structure Purging where
  tree : FileTree String
  problems : List String := []
  secrets : List (AccountId × Kind) := []

/-! ## 2. The purge -/

variable (system : System)

/-- What is reported of a deletion: one of something that is not there has not failed. -/
def report (p : Path) (problems : List String) : Option IoError → List String
  | none | some .notFound => problems
  | some e => problems ++ [display p ++ ": " ++ system.describe e]

/-- `remove_dir_all_if_present`. -/
def removeDirAllIfPresent (dir : Path) (s : Purging) : Purging :=
  let r := s.tree.removeDirAll dir (system.dirAll dir)
  { s with tree := r.1, problems := report system dir s.problems r.2 }

/-- Whether the folder is one that esMail's directories are nested in. -/
def namedEsmail (p : Path) : Bool :=
  p.getLast?.any fun name => RustText.eqIgnoreAsciiCase name.toList ['e', 's', 'm', 'a', 'i', 'l']

/-- `remove_owned_dir`. -/
def removeOwnedDir (dir : Path) (s : Purging) : Purging :=
  let s := removeDirAllIfPresent system dir s
  if dir ≠ [] ∧ namedEsmail dir.dropLast then
    { s with tree := (s.tree.removeDir dir.dropLast (system.dir dir.dropLast)).1 }
  else s

/-- The loop body of `remove_files`. -/
def removeOne (dir : Path) (s : Purging) (name : String) : Purging :=
  let r := s.tree.removeFile (dir ++ [name]) (system.file (dir ++ [name]))
  { s with tree := r.1, problems := report system (dir ++ [name]) s.problems r.2 }

/-- `remove_files`. -/
def removeFiles (dir : Path) (names : List String) (s : Purging) : Purging :=
  let s := names.foldl (removeOne system dir) s
  { s with tree := (s.tree.removeDir dir (system.dir dir)).1 }

/-- One of the directories, as `purge` takes them: whether it is esMail's alone, the files on its list,
and those that esMail creates in it. -/
structure Directory where
  path : Path
  exclusive : Bool
  listed : List String
  created : List String

/-- What `purge` does with one of them. -/
def purgeDir (s : Purging) (d : Directory) : Purging :=
  if d.exclusive then removeOwnedDir system d.path s else removeFiles system d.path d.listed s

/-- The directories that there are, the configuration's first. -/
def Layout.directories (layout : Layout) : List Directory :=
  (layout.configDir.toList.map fun dir =>
    ⟨dir, layout.configExclusive, [configFileName], createdConfig⟩) ++
  layout.dataDir.toList.map fun dir =>
    ⟨dir, layout.dataExclusive, dataFiles ++ [toastIconFileName], createdData⟩

/-- `purge`. -/
def purge (layout : Layout) (accounts : List AccountConfig) (t : FileTree String) : Purging :=
  let secrets := accounts.flatMap fun account => secretKinds.map fun kind => (account.id, kind)
  let s := layout.directories.foldl (purgeDir system) { tree := t, secrets := secrets }
  removeDirAllIfPresent system layout.scratchDir s

/-- `purge_user_data`; `unregister` is what unregistering the notifications fails with. -/
def purgeUserData (layout : Layout) (accounts : List AccountConfig) (unregister : Option String)
    (t : FileTree String) : Purging :=
  let s := purge system layout accounts t
  { s with problems := s.problems ++ unregister.toList.map ("notification registration: " ++ ·) }

/-! ## 3. What each step leaves -/

variable {system}

theorem shrinks_removeOwnedDir (dir : Path) (s : Purging) :
    s.tree.Shrinks (removeOwnedDir system dir s).tree := by
  rw [removeOwnedDir]
  split
  · exact (FileTree.shrinks_removeDirAll ..).trans (FileTree.shrinks_removeDir ..)
  · exact FileTree.shrinks_removeDirAll ..

theorem shrinks_removeOnes (dir : Path) (names : List String) (s : Purging) :
    s.tree.Shrinks (names.foldl (removeOne system dir) s).tree := by
  induction names generalizing s with
  | nil => exact FileTree.Shrinks.refl _
  | cons name names ih =>
    exact FileTree.Shrinks.trans (FileTree.shrinks_removeFile ..) (ih (removeOne system dir s name))

theorem shrinks_removeFiles (dir : Path) (names : List String) (s : Purging) :
    s.tree.Shrinks (removeFiles system dir names s).tree :=
  (shrinks_removeOnes dir names s).trans (FileTree.shrinks_removeDir ..)

theorem shrinks_purgeDir (s : Purging) (d : Directory) :
    s.tree.Shrinks (purgeDir system s d).tree := by
  rw [purgeDir]
  split
  · exact shrinks_removeOwnedDir d.path s
  · exact shrinks_removeFiles d.path d.listed s

theorem shrinks_purgeDirs (ds : List Directory) (s : Purging) :
    s.tree.Shrinks (ds.foldl (purgeDir system) s).tree := by
  induction ds generalizing s with
  | nil => exact FileTree.Shrinks.refl _
  | cons d ds ih => exact (shrinks_purgeDir s d).trans (ih _)

theorem removeDirAllIfPresent_takes {dir p : Path} {s : Purging} (hdir : s.tree.lookup dir = some .dir)
    (hfree : system.dirAll dir = none) (hp : dir <+: p) :
    (removeDirAllIfPresent system dir s).tree.lookup p = none := by
  rw [removeDirAllIfPresent, hfree]
  exact FileTree.lookup_removeDirAll_of_prefix hdir hp

/-- Everything in a directory of esMail's own goes. -/
theorem removeOwnedDir_takes {dir p : Path} {s : Purging} (hdir : s.tree.lookup dir = some .dir)
    (hfree : system.dirAll dir = none) (hp : dir <+: p) :
    (removeOwnedDir system dir s).tree.lookup p = none := by
  have hgone := removeDirAllIfPresent_takes hdir hfree hp
  rw [removeOwnedDir]
  split
  · exact (FileTree.shrinks_removeDir ..).absent hgone
  · exact hgone

/-- The directories that go if they are left empty: a relocated one, and the folder that a default one
is nested in. -/
def Directory.MayEmpty (d : Directory) (p : Path) : Prop :=
  if d.exclusive then d.path ≠ [] ∧ namedEsmail d.path.dropLast ∧ p = d.path.dropLast else p = d.path

theorem removeOwnedDir_leaves {dir p : Path} (s : Purging) (hp : ¬dir <+: p) :
    (removeOwnedDir system dir s).tree.lookup p = s.tree.lookup p ∨
      (dir ≠ [] ∧ namedEsmail dir.dropLast ∧ p = dir.dropLast) ∧ s.tree.lookup p = some .dir := by
  have hsame : (removeDirAllIfPresent system dir s).tree.lookup p = s.tree.lookup p :=
    FileTree.lookup_removeDirAll_of_not_prefix _ _ hp
  rw [removeOwnedDir]
  split
  · next hnamed =>
    rcases FileTree.lookup_removeDir (removeDirAllIfPresent system dir s).tree dir.dropLast
      (system.dir dir.dropLast) p with h | ⟨rfl, hdir, -⟩
    · exact .inl (h.trans hsame)
    · exact .inr ⟨⟨hnamed.1, hnamed.2, rfl⟩, hsame ▸ hdir⟩
  · exact .inl hsame

/-- A file that is not on the list stays, and so does a directory, though it has such a name. -/
theorem removeOnes_leaves {dir p : Path} : ∀ (names : List String) (s : Purging),
    (∀ name ∈ names, p ≠ dir ++ [name]) ∨ s.tree.lookup p = some .dir →
      (names.foldl (removeOne system dir) s).tree.lookup p = s.tree.lookup p
  | [], _, _ => rfl
  | name :: names, s, h => by
    have hone : (removeOne system dir s name).tree.lookup p = s.tree.lookup p := by
      rw [removeOne, FileTree.lookup_removeFile]
      refine if_neg fun hgone => ?_
      obtain ⟨rfl, -, hfile⟩ := hgone
      rcases h with h | h
      · exact h name List.mem_cons_self rfl
      · exact hfile h
    rw [List.foldl_cons, removeOnes_leaves names _ ?_, hone]
    rw [hone]
    exact h.imp_left fun h name hname => h name (List.mem_cons_of_mem _ hname)

theorem removeFiles_leaves {dir p : Path} {names : List String} (s : Purging)
    (h : (∀ name ∈ names, p ≠ dir ++ [name]) ∨ s.tree.lookup p = some .dir) :
    (removeFiles system dir names s).tree.lookup p = s.tree.lookup p ∨
      p = dir ∧ s.tree.lookup p = some .dir := by
  have hsame : (names.foldl (removeOne system dir) s).tree.lookup p = s.tree.lookup p :=
    removeOnes_leaves names s h
  rw [removeFiles]
  rcases FileTree.lookup_removeDir (names.foldl (removeOne system dir) s).tree dir (system.dir dir) p with
    h | ⟨rfl, hdir, -⟩
  · exact .inl (h.trans hsame)
  · exact .inr ⟨rfl, hsame ▸ hdir⟩

/-- A file on the list goes. -/
theorem removeOnes_takes {dir : Path} {name : String} (hfree : system.file (dir ++ [name]) = none) :
    ∀ {names : List String} {s : Purging}, name ∈ names →
      s.tree.lookup (dir ++ [name]) ≠ some .dir →
      (names.foldl (removeOne system dir) s).tree.lookup (dir ++ [name]) = none := by
  intro names s hname hfile
  induction names generalizing s with
  | nil => cases hname
  | cons other names ih =>
    rw [List.foldl_cons]
    rcases List.mem_cons.mp hname with rfl | hname
    · refine (shrinks_removeOnes dir names _).absent ?_
      rw [removeOne, FileTree.lookup_removeFile, if_pos ⟨rfl, hfree, hfile⟩]
    · refine ih hname fun hdir => ?_
      have hshrinks : s.tree.Shrinks (removeOne system dir s other).tree :=
        FileTree.shrinks_removeFile ..
      rcases hshrinks.each (dir ++ [name]) with h | h
      · exact hfile (h ▸ hdir)
      · rw [h] at hdir
        cases hdir

theorem removeFiles_takes {dir : Path} {name : String} {names : List String} {s : Purging}
    (hfree : system.file (dir ++ [name]) = none) (hname : name ∈ names)
    (hfile : s.tree.lookup (dir ++ [name]) ≠ some .dir) :
    (removeFiles system dir names s).tree.lookup (dir ++ [name]) = none :=
  (FileTree.shrinks_removeDir ..).absent (removeOnes_takes hfree hname hfile)

/-! ## 4. The purge -/

/-- Where everything goes: below a default directory, and in the scratch directory. -/
def Layout.Wholesale (layout : Layout) (p : Path) : Prop :=
  layout.scratchDir <+: p ∨ ∃ d ∈ layout.directories, d.exclusive = true ∧ d.path <+: p

variable (system) in
/-- What is not below a directory of esMail's own stays: a file that is not on the list, and a directory
that is not one of those that go when they are empty. -/
theorem purgeDir_leaves {d : Directory} {p : Path} (s : Purging)
    (howned : d.exclusive = true → ¬d.path <+: p)
    (hlisted : (∀ name ∈ d.listed, p ≠ d.path ++ [name]) ∨ s.tree.lookup p = some .dir) :
    (purgeDir system s d).tree.lookup p = s.tree.lookup p ∨
      d.MayEmpty p ∧ s.tree.lookup p = some .dir := by
  rw [purgeDir, Directory.MayEmpty]
  split
  · next hexclusive => exact removeOwnedDir_leaves s (howned hexclusive)
  · exact removeFiles_leaves s hlisted

theorem purgeDirs_leaves_file {p : Path} {bytes : List UInt8} : ∀ (ds : List Directory) (s : Purging),
    (∀ d ∈ ds, (d.exclusive = true → ¬d.path <+: p) ∧ ∀ name ∈ d.listed, p ≠ d.path ++ [name]) →
      s.tree.lookup p = some (.file bytes) →
      (ds.foldl (purgeDir system) s).tree.lookup p = some (.file bytes)
  | [], _, _, hp => hp
  | d :: ds, s, h, hp => by
    obtain ⟨howned, hlisted⟩ := h d List.mem_cons_self
    refine purgeDirs_leaves_file ds _ (fun d' hd' => h d' (List.mem_cons_of_mem d hd')) ?_
    rcases purgeDir_leaves system s howned (.inl hlisted) with hsame | ⟨-, hdir⟩
    · rw [hsame, hp]
    · rw [hdir] at hp
      cases hp

theorem purgeDirs_leaves_dir {p : Path} : ∀ (ds : List Directory) (s : Purging),
    (∀ d ∈ ds, (d.exclusive = true → ¬d.path <+: p) ∧ ¬d.MayEmpty p) →
      s.tree.lookup p = some .dir → (ds.foldl (purgeDir system) s).tree.lookup p = some .dir
  | [], _, _, hp => hp
  | d :: ds, s, h, hp => by
    obtain ⟨howned, hmay⟩ := h d List.mem_cons_self
    refine purgeDirs_leaves_dir ds _ (fun d' hd' => h d' (List.mem_cons_of_mem d hd')) ?_
    rcases purgeDir_leaves system s howned (.inr hp) with hsame | ⟨hmay', -⟩
    · rw [hsame, hp]
    · exact absurd hmay' hmay

/-- A file on the list of a relocated directory goes. -/
theorem purgeDirs_takes_listed {d : Directory} {name : String} (hexclusive : d.exclusive = false)
    (hname : name ∈ d.listed) (hfree : system.file (d.path ++ [name]) = none) :
    ∀ (ds : List Directory) (s : Purging), d ∈ ds →
      s.tree.lookup (d.path ++ [name]) ≠ some .dir →
      (ds.foldl (purgeDir system) s).tree.lookup (d.path ++ [name]) = none
  | [], _, hd, _ => by cases hd
  | d' :: ds, s, hd, hfile => by
    rw [List.foldl_cons]
    rcases List.mem_cons.mp hd with rfl | hd
    · refine (shrinks_purgeDirs ds _).absent ?_
      rw [purgeDir, hexclusive]
      exact removeFiles_takes hfree hname hfile
    · refine purgeDirs_takes_listed hexclusive hname hfree ds _ hd fun hdir => ?_
      have hshrinks : s.tree.Shrinks (purgeDir system s d').tree := shrinks_purgeDir s d'
      rcases hshrinks.each (d.path ++ [name]) with h | h
      · exact hfile (h ▸ hdir)
      · rw [h] at hdir
        cases hdir

/-- What is below something that is gone is gone. -/
theorem absent_below {t : FileTree String} {dir p : Path} (hdir : t.lookup dir = none) (hp : dir <+: p) :
    t.lookup p = none := by
  obtain ⟨names, rfl⟩ := hp
  cases hnames : t.lookup (dir ++ names) with
  | none => rfl
  | some entry =>
    rcases eq_or_ne names [] with rfl | hne
    · rw [List.append_nil, hdir] at hnames
      cases hnames
    · rw [FileTree.lookup_above hne hnames] at hdir
      cases hdir

/-- Everything in a default directory goes. -/
theorem purgeDirs_takes_owned {d : Directory} {p : Path} (hexclusive : d.exclusive = true)
    (hfree : system.dirAll d.path = none) (hp : d.path <+: p) :
    ∀ (ds : List Directory) (s : Purging), d ∈ ds → s.tree.lookup d.path = some .dir →
      (ds.foldl (purgeDir system) s).tree.lookup p = none
  | [], _, hd, _ => by cases hd
  | d' :: ds, s, hd, hdir => by
    rw [List.foldl_cons]
    rcases List.mem_cons.mp hd with rfl | hd
    · refine (shrinks_purgeDirs ds _).absent ?_
      rw [purgeDir, if_pos hexclusive]
      exact removeOwnedDir_takes hdir hfree hp
    · have hshrinks : s.tree.Shrinks (purgeDir system s d').tree := shrinks_purgeDir s d'
      rcases hshrinks.each d.path with h | h
      · exact purgeDirs_takes_owned hexclusive hfree hp ds _ hd (h.trans hdir)
      · exact (shrinks_purgeDirs ds _).absent (absent_below h hp)

/-- Every file on a list is one that esMail creates. -/
theorem mem_created {layout : Layout} {d : Directory} (hd : d ∈ layout.directories) {name : String}
    (hname : name ∈ d.listed) : name ∈ d.created := by
  simp only [Layout.directories, List.mem_append, List.mem_map, Option.mem_toList] at hd
  rcases hd with ⟨dir, -, rfl⟩ | ⟨dir, -, rfl⟩
  · obtain rfl := List.mem_singleton.mp hname
    exact List.mem_cons_self
  · rcases List.mem_append.mp hname with hname | hname
    · exact List.mem_append_left _ hname
    · obtain rfl := List.mem_singleton.mp hname
      exact List.mem_append_right _ List.mem_cons_self

section

variable (system) (layout : Layout) (accounts : List AccountConfig) (t : FileTree String)

theorem purge_takes_listed {d : Directory} (hd : d ∈ layout.directories)
    (hexclusive : d.exclusive = false) {name : String} (hname : name ∈ d.listed)
    (hfile : t.lookup (d.path ++ [name]) ≠ some .dir)
    (hfree : system.file (d.path ++ [name]) = none) :
    (purge system layout accounts t).tree.lookup (d.path ++ [name]) = none :=
  (FileTree.shrinks_removeDirAll ..).absent
    (purgeDirs_takes_listed hexclusive hname hfree layout.directories _ hd hfile)

theorem purge_takes_owned {d : Directory} (hd : d ∈ layout.directories)
    (hexclusive : d.exclusive = true) (hdir : t.lookup d.path = some .dir)
    (hfree : system.dirAll d.path = none) {p : Path} (hp : d.path <+: p) :
    (purge system layout accounts t).tree.lookup p = none :=
  (FileTree.shrinks_removeDirAll ..).absent
    (purgeDirs_takes_owned hexclusive hfree hp layout.directories _ hd hdir)

/-- The scratch directory comes last.  Nothing that went before has put anything in it; where it was in a
directory that has gone, it is gone already. -/
theorem purge_takes_scratch (hdir : t.lookup layout.scratchDir = some .dir)
    (hfree : system.dirAll layout.scratchDir = none) {p : Path} (hp : layout.scratchDir <+: p) :
    (purge system layout accounts t).tree.lookup p = none := by
  rw [purge]
  have hshrinks := @shrinks_purgeDirs system layout.directories
    { tree := t, secrets := accounts.flatMap fun account => secretKinds.map (account.id, ·) }
  rcases hshrinks.each layout.scratchDir with h | h
  · exact removeDirAllIfPresent_takes (h.trans hdir) hfree hp
  · exact (FileTree.shrinks_removeDirAll ..).absent (absent_below h hp)

theorem purge_leaves_file {p : Path} {bytes : List UInt8} (hp : t.lookup p = some (.file bytes))
    (hwhole : ¬layout.Wholesale p)
    (hforeign : ∀ d ∈ layout.directories, d.exclusive = false → ∀ name ∈ d.created,
      p ≠ d.path ++ [name]) :
    (purge system layout accounts t).tree.lookup p = some (.file bytes) := by
  rw [Layout.Wholesale, not_or] at hwhole
  refine (FileTree.lookup_removeDirAll_of_not_prefix _ _ hwhole.1).trans
    (purgeDirs_leaves_file layout.directories _ (fun d hd => ⟨fun hexclusive hpre => ?_, ?_⟩) hp)
  · exact hwhole.2 ⟨d, hd, hexclusive, hpre⟩
  · rintro name hname rfl
    cases hexclusive : d.exclusive with
    | true => exact hwhole.2 ⟨d, hd, hexclusive, List.prefix_append _ _⟩
    | false => exact hforeign d hd hexclusive name (mem_created hd hname) rfl

theorem purge_leaves_dir {p : Path} (hp : t.lookup p = some .dir) (hwhole : ¬layout.Wholesale p)
    (hmay : ∀ d ∈ layout.directories, ¬d.MayEmpty p) :
    (purge system layout accounts t).tree.lookup p = some .dir := by
  rw [Layout.Wholesale, not_or] at hwhole
  refine (FileTree.lookup_removeDirAll_of_not_prefix _ _ hwhole.1).trans
    (purgeDirs_leaves_dir layout.directories _ (fun d hd => ⟨fun hexclusive hpre => ?_, hmay d hd⟩) hp)
  exact hwhole.2 ⟨d, hd, hexclusive, hpre⟩

/-- What a purge takes: from a relocated directory the files on its list, a default one with all that is
in it, and the scratch directory likewise.  What it leaves: outside the directories that go as a whole,
every file that esMail does not create, and every directory, but for a relocated one and the folder above a
default one; and these too, where anything is left in them.

Each part is a statement about any tree, since what goes is looked at where it goes: `Shrinks` says that no
step puts anything back or in another's place.  Nothing is said of the files that esMail creates and that
are on no list; they stay. -/
theorem purge_spec :
    let after := (purge system layout accounts t).tree
    (∀ d ∈ layout.directories, d.exclusive = false → ∀ name ∈ d.listed,
        t.lookup (d.path ++ [name]) ≠ some .dir → system.file (d.path ++ [name]) = none →
        after.lookup (d.path ++ [name]) = none) ∧
      (∀ d ∈ layout.directories, d.exclusive = true → t.lookup d.path = some .dir →
        system.dirAll d.path = none → ∀ p, d.path <+: p → after.lookup p = none) ∧
      (t.lookup layout.scratchDir = some .dir → system.dirAll layout.scratchDir = none →
        ∀ p, layout.scratchDir <+: p → after.lookup p = none) ∧
      (∀ p bytes, t.lookup p = some (.file bytes) → ¬layout.Wholesale p →
        (∀ d ∈ layout.directories, d.exclusive = false → ∀ name ∈ d.created,
          p ≠ d.path ++ [name]) →
        after.lookup p = some (.file bytes)) ∧
      ∀ p, t.lookup p = some .dir → ¬layout.Wholesale p →
        ((∀ d ∈ layout.directories, ¬d.MayEmpty p) ∨
          ∃ names entry, names ≠ [] ∧ after.lookup (p ++ names) = some entry) →
        after.lookup p = some .dir := by
  intro after
  refine ⟨fun d hd hexclusive name hname hfile hfree => ?_,
    fun d hd hexclusive hdir hfree p hp => ?_, fun hdir hfree p hp => ?_,
    fun p bytes hp hwhole hforeign => ?_, fun p hp hwhole hleft => ?_⟩
  · exact purge_takes_listed system layout accounts t hd hexclusive hname hfile hfree
  · exact purge_takes_owned system layout accounts t hd hexclusive hdir hfree hp
  · exact purge_takes_scratch system layout accounts t hdir hfree hp
  · exact purge_leaves_file system layout accounts t hp hwhole hforeign
  · rcases hleft with hmay | ⟨names, entry, hne, hentry⟩
    · exact purge_leaves_dir system layout accounts t hp hwhole hmay
    · exact FileTree.lookup_above hne hentry

end

/-- A default configuration directory with a file that somebody put there. -/
def notesTree : FileTree String where
  table := ⟨[([], .dir), (["esmail"], .dir), (["esmail", "config"], .dir),
    (["esmail", "config", "config.toml"], .file []), (["esmail", "config", "notes.txt"], .file [])],
    by decide⟩
  nested := FileTree.nested_of_rows (by decide)

/-- The file goes with the directory. -/
theorem purge_takes_notes :
    ¬∀ (system : System) (layout : Layout) (accounts : List AccountConfig) (t : FileTree String),
      (∀ p, system.file p = none ∧ system.dir p = none ∧ system.dirAll p = none) →
      let after := (purge system layout accounts t).tree
      ∀ d ∈ layout.directories,
        (∀ name ∈ d.created, ∀ bytes, t.lookup (d.path ++ [name]) = some (.file bytes) →
          after.lookup (d.path ++ [name]) = none) ∧
        (∀ p bytes, d.path <+: p → t.lookup p = some (.file bytes) →
          (∀ name ∈ d.created, p ≠ d.path ++ [name]) → after.lookup p = some (.file bytes)) := by
  intro hall
  let layout : Layout := ⟨some ["esmail", "config"], true, none, true, ["temp"]⟩
  let d : Directory := ⟨["esmail", "config"], true, [configFileName], createdConfig⟩
  have hd : d ∈ layout.directories := List.mem_cons_self
  have hleft := (hall {} layout [] notesTree (fun _ => ⟨rfl, rfl, rfl⟩) d hd).2
    ["esmail", "config", "notes.txt"] [] ⟨["notes.txt"], rfl⟩ (by decide) (by decide)
  have hgone := purge_takes_owned {} layout [] notesTree hd rfl (by decide) rfl
    (p := ["esmail", "config", "notes.txt"]) ⟨["notes.txt"], rfl⟩
  rw [hgone] at hleft
  cases hleft

/-- The same directory, and one with a half-saved attachment. -/
def scratchTree : FileTree String where
  table := ⟨[([], .dir), (["esmail"], .dir), (["esmail", "config"], .dir),
    (["esmail", "config", "config.toml"], .file []), (["esmail", "config", "notes.txt"], .file []),
    (["temp"], .dir), (["temp", "invoice.pdf"], .file [])], by decide⟩
  nested := FileTree.nested_of_rows (by decide)

/-- With the directory relocated, `config.toml` goes, and the file and the directory stay.  What is in the
scratch directory goes. -/
theorem purge_spec_relocated :
    let layout : Layout := ⟨some ["esmail", "config"], false, none, true, ["temp"]⟩
    let after := (purge {} layout [] scratchTree).tree
    after.lookup ["esmail", "config", "config.toml"] = none ∧
      after.lookup ["temp", "invoice.pdf"] = none ∧
      after.lookup ["esmail", "config", "notes.txt"] = some (.file []) ∧
      after.lookup ["esmail", "config"] = some .dir := by
  intro layout after
  let d : Directory := ⟨["esmail", "config"], false, [configFileName], createdConfig⟩
  have hd : d ∈ layout.directories := List.mem_cons_self
  have hwhole : ∀ p : Path, p.head? = some "esmail" → ¬layout.Wholesale p := by
    rintro p hp (⟨names, rfl⟩ | ⟨d', hd', hexclusive, -⟩)
    · exact absurd (Option.some.inj hp) (by decide)
    · obtain rfl : d' = d := List.mem_singleton.mp hd'
      cases hexclusive
  obtain ⟨hlisted, -, hscratch, hfiles, hdirs⟩ := purge_spec {} layout [] scratchTree
  have hnotes : after.lookup ["esmail", "config", "notes.txt"] = some (.file []) :=
    hfiles _ _ (by decide) (hwhole _ rfl) (by decide)
  exact ⟨hlisted d hd rfl configFileName List.mem_cons_self (by decide) rfl,
    hscratch (by decide) rfl _ ⟨["invoice.pdf"], rfl⟩, hnotes,
    hdirs _ (by decide) (hwhole _ rfl) (.inr ⟨["notes.txt"], .file [], by simp, hnotes⟩)⟩

end Esmail.Uninstall
