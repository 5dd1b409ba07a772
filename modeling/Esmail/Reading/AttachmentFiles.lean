/-
# Saving attachments

`view_model.rs`, `core_glue/files.rs`.  The name of an attachment is the sender's.  What stands before
the last separator is cut off, so that it cannot lead out of the folder; a DRIVE is not cut off, and
a name with one is joined to the folder as a path of its own.

`save_all` looks for a name that is free, one attachment at a time.  The numbers it tries are those of
an `i32`, which the release build lets wrap around: the search ends if one of them is free.

* `parent_saved_iff`: an attachment goes into the folder, exactly where what is left of its name has no
  drive, or the folder is that drive and nothing else;
* `saveAll_iff`: `save_all` ends and has overwritten nothing, exactly where at every turn some name is
  free, in the build that checks for overflow and in the one that does not;
* `saveAll_ends_with_room`: so it ends in every folder with fewer files than there are numbers.

That a search ends has to be shown with fuel, and more of it changes nothing (`findFree_mono`): a number
that is free is reached, or one before it is found (`findFree_ends`, by induction on how far it is).  What
the turns before have written is the invariant of the loop (`Kept`).  Which paths name one file, and
whether a write fails, are the file system's (`Disk`), and are left open.
-/
import Esmail.Library.Table
import Esmail.Library.WinPath
import Esmail.Rendering.Attachments
import Mathlib.Data.Bool.AllAny
import Mathlib.Data.List.Dedup

namespace Esmail.AttachmentFiles

open WinPath

/-! ## 1. The name that is left of a sender's name -/

/-- What stands behind the last separator. -/
def lastPiece (filename : List Char) : List Char :=
  (filename.reverse.takeWhile fun c => !(c == '/' || c == '\\')).reverse

/-- `safe_attachment_filename`. -/
def safeAttachmentFilename (filename : String) : String :=
  let name := lastPiece filename.toList
  if name ≠ [] ∧ name ≠ ['.'] ∧ name ≠ ['.', '.'] then String.ofList name else "attachment"

theorem no_sep_lastPiece (filename : List Char) : ∀ c ∈ lastPiece filename, isSep c = false := by
  intro c hc
  have := List.mem_takeWhile_imp (List.mem_reverse.mp hc)
  simpa [isSep] using this

/-- What is left is a name, with a drive perhaps. -/
theorem isName_safe (filename : String) : IsName (safeAttachmentFilename filename).toList := by
  unfold safeAttachmentFilename
  simp only
  split
  · next h =>
    rw [String.toList_ofList]
    exact ⟨h.1, no_sep_lastPiece _, h.2.1, h.2.2⟩
  · exact ⟨by decide, List.all_iff_forall_prop.mp (by decide), by decide, by decide⟩

theorem driveOf_safe (filename : String) :
    driveOf (safeAttachmentFilename filename).toList = driveOf (lastPiece filename.toList) := by
  unfold safeAttachmentFilename
  simp only
  split
  · rw [String.toList_ofList]
  · next h =>
    have hcases : lastPiece filename.toList = [] ∨ lastPiece filename.toList = ['.'] ∨
        lastPiece filename.toList = ['.', '.'] := by
      by_contra hnone
      simp only [not_or] at hnone
      exact h ⟨hnone.1, hnone.2.1, hnone.2.2⟩
    rcases hcases with h | h | h <;> rw [h] <;> decide

theorem driveOf_eq_some {s : List Char} {drive : Char} (h : driveOf s = some drive) :
    ∃ c rest, s = c :: ':' :: rest ∧ c.isAlpha ∧ c.toUpper = drive := by
  unfold driveOf at h
  split at h
  · next c rest =>
    split at h
    · next hc => exact ⟨c, rest, rfl, hc, Option.some.inj h⟩
    · exact absurd h (by simp)
  · exact absurd h (by simp)

/-- An attachment goes into the folder, unless its name has a drive: then only if the folder is this
drive and nothing else, and the name goes on. -/
theorem parent_saved_iff (filename dir : String) :
    parent (join dir.toList (safeAttachmentFilename filename).toList) = some (components dir.toList) ↔
      ∀ drive, driveOf (lastPiece filename.toList) = some drive →
        components dir.toList = [.drive drive] ∧ 2 < (lastPiece filename.toList).length := by
  have hname := isName_safe filename
  have hdrive := driveOf_safe filename
  cases hpiece : driveOf (lastPiece filename.toList) with
  | none =>
    rw [hpiece] at hdrive
    simp [parent_join hname hdrive]
  | some drive =>
    obtain ⟨c, rest, hsplit, hc, rfl⟩ := driveOf_eq_some hpiece
    have hsafe : (safeAttachmentFilename filename).toList = c :: ':' :: rest := by
      rw [safeAttachmentFilename, hsplit]
      simp
    have hrest : ∀ d ∈ rest, isSep d = false := fun d hd =>
      no_sep_lastPiece filename.toList d (by simp [hsplit, hd])
    have hjoin : join dir.toList (c :: ':' :: rest) = c :: ':' :: rest := by
      rw [join, if_pos]
      rw [driveOf, if_pos hc]
      rfl
    rw [hsafe, hjoin, parent_drive hc hrest, hsplit]
    by_cases hnil : rest = []
    · simp [hnil]
    · have hlen : 0 < rest.length := List.length_pos_of_ne_nil hnil
      simp [hnil, hlen, eq_comm]

/-- A name with a drive leads out of the folder. -/
theorem drive_leads_out : ∃ filename dir : String,
    parent (join dir.toList (safeAttachmentFilename filename).toList) ≠ some (components dir.toList) :=
  ⟨"C:evil.exe", "D:\\mail", by decide⟩

/-! ## 2. A name that is free -/

/-- The name with a number before its extension. -/
def numberedName (name : List Char) (n : Int32) : List Char :=
  let (stem, extension) := match RustText.rsplitAt '.' name with
    | some (stem, extension) => if stem ≠ [] then (stem, '.' :: extension) else (name, [])
    | none => (name, [])
  stem ++ " (".toList ++ (toString n.toInt).toList ++ ")".toList ++ extension

/-- How a search for a name ends. -/
inductive Search
  | found (path : List Char)
  /-- The next number is beyond the type, and the build checks for that. -/
  | panicked
  deriving DecidableEq, Repr

/-- The search through `2..`, of numbers of type `i32`: `checks` says whether the build checks for
overflow, else they wrap around.  The number that follows is computed first. -/
def findFree (checks : Bool) (taken : Int32 → Bool) (path : Int32 → List Char) :
    Nat → Int32 → Option Search
  | 0, _ => none
  | fuel + 1, n =>
    if checks ∧ n = Int32.maxValue then some .panicked
    else if taken n then findFree checks taken path fuel (n + 1)
    else some (.found (path n))

/-- A file system: which file a path names, for two spellings can name one, and the error that
`fs::write` meets with, if any.  What a write that fails leaves behind is not looked at. -/
structure Disk (κ : Type) where
  key : List Char → κ
  failure : Table κ (List UInt8) → List Char → Option String

section

variable {κ : Type} [DecidableEq κ] (disk : Disk κ) (checks : Bool) (dir : List Char)

/-- `Path::exists`. -/
def isTaken (files : Table κ (List UInt8)) (path : List Char) : Bool := disk.key path ∈ files.keys

/-- `free_name`, as far as the fuel goes. -/
def freeName (fuel : Nat) (files : Table κ (List UInt8)) (name : List Char) : Option Search :=
  let first := join dir name
  if isTaken disk files first then
    findFree checks (fun n => isTaken disk files (join dir (numberedName name n)))
      (fun n => join dir (numberedName name n)) fuel 2
  else some (.found first)

/-- `save_attachment`. -/
def saveAttachment (files : Table κ (List UInt8)) (path : List Char) (attachment : Attachment) :
    Except String (Table κ (List UInt8)) :=
  match disk.failure files path with
  | some e => .error ("Cannot write " ++ String.ofList path ++ ": " ++ e)
  | none => .ok (files.upsert (disk.key path) attachment.data)

/-- How `save_all` ends. -/
inductive Ending
  | saved
  | failed (error : String)
  | panicked
  deriving DecidableEq, Repr

/-- What `save_all` has done at its end: `written` is what it returns if all went well. -/
structure Saved (κ : Type) where
  written : List (List Char)
  files : Table κ (List UInt8)
  ending : Ending

/-- `save_all`, with the paths that are written already. -/
def saveAll (fuel : Nat) (files : Table κ (List UInt8)) (written : List (List Char)) :
    List Attachment → Option (Saved κ)
  | [] => some ⟨written, files, .saved⟩
  | attachment :: rest =>
    match freeName disk checks dir fuel files (safeAttachmentFilename attachment.filename).toList with
    | none => none
    | some .panicked => some ⟨written, files, .panicked⟩
    | some (.found path) =>
      match saveAttachment disk files path attachment with
      | .error e => some ⟨written, files, .failed e⟩
      | .ok files => saveAll fuel files (written ++ [path]) rest

example : ((saveAll ⟨id, fun _ _ => none⟩ false "d".toList 3
    (Table.empty.upsert "d\\a.txt".toList [0]) []
    [⟨"a.txt", "", [1]⟩, ⟨"a.txt", "", [2]⟩, ⟨"..\\..\\evil.dll", "", [3]⟩]).map fun saved =>
      saved.written.map String.ofList) =
    some ["d\\a (2).txt", "d\\a (3).txt", "d\\evil.dll"] := by decide

/-! ## 3. When the search ends -/

/-- The numbers that are tried: every `i32`, or those before the last but one. -/
def number (k : Nat) : Int32 := 2 + Int32.ofNat k

/-- The name itself is free, or one with a number that is tried. -/
def HasFree (files : Table κ (List UInt8)) (name : List Char) : Prop :=
  isTaken disk files (join dir name) = false ∨
    ∃ k, (checks → k < 2 ^ 31 - 3) ∧ isTaken disk files (join dir (numberedName name (number k))) = false

theorem number_eq (k : Nat) : number k = Int32.ofNat (2 + k) := by
  rw [number, Int32.ofNat_add]
  rfl

theorem number_succ (k : Nat) : number k + 1 = number (k + 1) := by
  rw [number, number, Int32.ofNat_add, Int32.add_assoc]
  rfl

theorem number_max : number (2 ^ 31 - 3) = Int32.maxValue := by decide

theorem number_ne_max {k : Nat} (h : k < 2 ^ 31 - 3) : number k ≠ Int32.maxValue := by
  intro heq
  have hvalue := congrArg Int32.toInt heq
  have hmax : Int32.maxValue.toInt = 2147483647 := by decide
  rw [number_eq, Int32.toInt_ofNat_of_lt (by omega)] at hvalue
  omega

variable {checks} in
/-- More fuel does not change what is found. -/
theorem findFree_mono {taken : Int32 → Bool} {path : Int32 → List Char} {r : Search} :
    ∀ {fuel fuel' : Nat} {n : Int32}, fuel ≤ fuel' → findFree checks taken path fuel n = some r →
      findFree checks taken path fuel' n = some r
  | 0, _, _, _, h => absurd h (by simp [findFree])
  | fuel + 1, 0, _, hle, _ => absurd hle (by omega)
  | fuel + 1, fuel' + 1, n, hle, h => by
    rw [findFree] at h ⊢
    split
    · next hmax => rwa [if_pos hmax] at h
    · next hmax =>
      rw [if_neg hmax] at h
      split
      · next htaken =>
        rw [if_pos htaken] at h
        exact findFree_mono (Nat.le_of_succ_le_succ hle) h
      · next htaken => rwa [if_neg htaken] at h

variable {checks} in
/-- What is found is free, and its number is one that is tried. -/
theorem findFree_found {taken : Int32 → Bool} {path : Int32 → List Char} {p : List Char} :
    ∀ {fuel k : Nat}, (checks → k ≤ 2 ^ 31 - 3) →
      findFree checks taken path fuel (number k) = some (.found p) →
      ∃ j, (checks → j < 2 ^ 31 - 3) ∧ taken (number j) = false ∧ p = path (number j)
  | 0, _, _, h => absurd h (by simp [findFree])
  | fuel + 1, k, hk, h => by
    rw [findFree] at h
    split at h
    · exact absurd h (by simp)
    · next hmax =>
      have hlt : checks → k < 2 ^ 31 - 3 := by
        intro hc
        refine Nat.lt_of_le_of_ne (hk hc) ?_
        rintro rfl
        exact hmax ⟨hc, number_max⟩
      split at h
      · rw [number_succ] at h
        exact findFree_found hlt h
      · next htaken =>
        obtain rfl := Search.found.inj (Option.some.inj h)
        exact ⟨k, hlt, by simpa using htaken, rfl⟩

variable {checks} in
/-- A number that is tried and free is reached, or one before it is found. -/
theorem findFree_ends {taken : Int32 → Bool} {path : Int32 → List Char} :
    ∀ (steps k : Nat), (checks → k + steps < 2 ^ 31 - 3) → taken (number (k + steps)) = false →
      ∃ p, findFree checks taken path (steps + 1) (number k) = some (.found p)
  | steps, k, hlast, hfree => by
    have hmax : ¬(checks = true ∧ number k = Int32.maxValue) := fun ⟨hc, heq⟩ =>
      number_ne_max (Nat.lt_of_le_of_lt (Nat.le_add_right k steps) (hlast hc)) heq
    rw [findFree, if_neg hmax]
    split
    · next htaken =>
      cases steps with
      | zero =>
        rw [Nat.add_zero] at hfree
        rw [hfree] at htaken
        exact absurd htaken (by decide)
      | succ steps =>
        rw [number_succ]
        have hshift : k + (steps + 1) = k + 1 + steps := by omega
        rw [hshift] at hfree hlast
        exact findFree_ends steps (k + 1) hlast hfree
    · exact ⟨_, rfl⟩

theorem number_zero : number 0 = 2 := by decide

variable {disk checks dir}

theorem freeName_mono {fuel fuel' : Nat} (hle : fuel ≤ fuel') {files : Table κ (List UInt8)}
    {name : List Char} {r : Search} (h : freeName disk checks dir fuel files name = some r) :
    freeName disk checks dir fuel' files name = some r := by
  unfold freeName at h ⊢
  simp only at h ⊢
  split
  · next htaken =>
    rw [if_pos htaken] at h
    exact findFree_mono hle h
  · next htaken => rwa [if_neg htaken] at h

/-- The search is over at some time with a name that is free, if there is one. -/
theorem freeName_found_iff {files : Table κ (List UInt8)} {name : List Char} :
    (∃ fuel path, freeName disk checks dir fuel files name = some (.found path)) ↔
      HasFree disk checks dir files name := by
  constructor
  · rintro ⟨fuel, path, h⟩
    unfold freeName at h
    simp only at h
    split at h
    · rw [← number_zero] at h
      obtain ⟨k, hk, hfree, -⟩ := findFree_found (fun _ => Nat.zero_le _) h
      exact .inr ⟨k, hk, hfree⟩
    · next htaken => exact .inl (by simpa using htaken)
  · intro hfree
    by_cases htaken : isTaken disk files (join dir name)
    · obtain ⟨k, hk, hfree⟩ := hfree.resolve_left (by simp [htaken])
      obtain ⟨path, hpath⟩ : ∃ p, findFree checks
          (fun n => isTaken disk files (join dir (numberedName name n)))
          (fun n => join dir (numberedName name n)) (k + 1) (number 0) = some (.found p) :=
        findFree_ends k 0 (by simpa using hk) (by simpa using hfree)
      refine ⟨k + 1, path, ?_⟩
      rw [number_zero] at hpath
      unfold freeName
      simp only
      rw [if_pos htaken, hpath]
    · refine ⟨0, join dir name, ?_⟩
      unfold freeName
      simp only
      rw [if_neg htaken]

/-- What the search finds is free. -/
theorem freeName_free {fuel : Nat} {files : Table κ (List UInt8)} {name path : List Char}
    (h : freeName disk checks dir fuel files name = some (.found path)) :
    disk.key path ∉ files.keys := by
  unfold freeName at h
  simp only at h
  split at h
  · rw [← number_zero] at h
    obtain ⟨k, -, hfree, rfl⟩ := findFree_found (fun _ => Nat.zero_le _) h
    simpa [isTaken] using hfree
  · next htaken =>
    obtain rfl := Search.found.inj (Option.some.inj h)
    simpa [isTaken] using htaken

/-! ## 4. The turns of `save_all` -/

variable (disk checks dir) in
/-- Before a turn: what is written, what the files are then, and the attachments to come. -/
inductive Turn (files₀ : Table κ (List UInt8)) (attachments : List Attachment) :
    List (List Char) → Table κ (List UInt8) → List Attachment → Prop
  | first : Turn files₀ attachments [] files₀ attachments
  | next {written : List (List Char)} {files files' : Table κ (List UInt8)} {attachment : Attachment}
    {rest : List Attachment} {fuel : Nat} {path : List Char}
    (hturn : Turn files₀ attachments written files (attachment :: rest))
    (hfound : freeName disk checks dir fuel files
      (safeAttachmentFilename attachment.filename).toList = some (.found path))
    (hsaved : saveAttachment disk files path attachment = .ok files') :
    Turn files₀ attachments (written ++ [path]) files' rest

variable (disk) in
/-- Nothing that was there is touched: each of the attachments `done` is in one file, which is new, and
there are no other new files. -/
structure Kept (files₀ : Table κ (List UInt8)) (written : List (List Char)) (done : List Attachment)
    (files : Table κ (List UInt8)) : Prop where
  length : written.length = done.length
  fresh : ∀ path ∈ written, disk.key path ∉ files₀.keys
  distinct : (written.map disk.key).Nodup
  bytes : ∀ w ∈ written.zip done, files.lookup (disk.key w.1) = some w.2.data
  others : ∀ k, k ∉ written.map disk.key → files.lookup k = files₀.lookup k

/-- One turn. -/
theorem kept_save {files₀ files files' : Table κ (List UInt8)} {written : List (List Char)}
    {done : List Attachment} {attachment : Attachment} {path : List Char}
    (h : Kept disk files₀ written done files) (hfree : disk.key path ∉ files.keys)
    (hsaved : saveAttachment disk files path attachment = .ok files') :
    Kept disk files₀ (written ++ [path]) (done ++ [attachment]) files' := by
  have hfiles : files' = files.upsert (disk.key path) attachment.data := by
    unfold saveAttachment at hsaved
    split at hsaved
    · exact absurd hsaved (by simp)
    · exact (Except.ok.inj hsaved).symm
  have hnew : disk.key path ∉ written.map disk.key := by
    intro hmem
    obtain ⟨p, hp, heq⟩ := List.mem_map.mp hmem
    obtain ⟨i, hi, rfl⟩ := List.mem_iff_getElem.mp hp
    have hdone : i < done.length := h.length ▸ hi
    have hzip : (written[i], done[i]) ∈ written.zip done := by
      rw [List.mem_iff_getElem]
      exact ⟨i, by rw [List.length_zip]; exact Nat.lt_min.mpr ⟨hi, hdone⟩, by simp⟩
    exact hfree (Table.mem_keys.mpr ⟨_, heq ▸ h.bytes _ hzip⟩)
  refine ⟨by simp [h.length], ?_, ?_, ?_, ?_⟩
  · intro p hp
    rcases List.mem_append.mp hp with hp | hp
    · exact h.fresh p hp
    · rw [List.mem_singleton.mp hp]
      rwa [← Table.lookup_eq_none, ← h.others _ hnew, Table.lookup_eq_none]
  · rw [List.map_append, List.map_singleton]
    refine List.nodup_append.mpr ⟨h.distinct, List.nodup_singleton _, fun a ha b hb hab => ?_⟩
    rw [hab, List.mem_singleton.mp hb] at ha
    exact hnew ha
  · intro w hw
    rw [List.zip_append h.length, List.mem_append] at hw
    rw [hfiles, Table.lookup_upsert]
    rcases hw with hw | hw
    · have hne : disk.key w.1 ≠ disk.key path := fun heq =>
        hnew (heq ▸ List.mem_map_of_mem (List.of_mem_zip hw).1)
      rw [if_neg hne]
      exact h.bytes w hw
    · rw [List.zip_cons_cons, List.zip_nil_left, List.mem_singleton] at hw
      rw [hw, if_pos rfl]
  · intro k hk
    rw [List.map_append, List.mem_append, not_or, List.map_singleton, List.mem_singleton] at hk
    rw [hfiles, Table.lookup_upsert, if_neg hk.2, h.others k hk.1]

/-- Every turn. -/
theorem kept_of_turn {files₀ files : Table κ (List UInt8)} {attachments rest : List Attachment}
    {written : List (List Char)} (h : Turn disk checks dir files₀ attachments written files rest) :
    ∃ done, attachments = done ++ rest ∧ Kept disk files₀ written done files := by
  induction h with
  | first => exact ⟨[], rfl, rfl, by simp, by simp, by simp, fun _ _ => rfl⟩
  | next hturn hfound hsaved ih =>
    obtain ⟨done, rfl, hkept⟩ := ih
    exact ⟨done ++ [_], by simp, kept_save hkept (freeName_free hfound) hsaved⟩

/-- `save_all` at its end: it has written the attachments up to the first that cannot be written, and
has overwritten nothing. -/
def NeverOverwrites (disk : Disk κ) (files₀ : Table κ (List UInt8)) (attachments : List Attachment)
    (saved : Saved κ) : Prop :=
  ∃ done rest, attachments = done ++ rest ∧ Kept disk files₀ saved.written done saved.files ∧
    (rest = [] ∧ saved.ending = .saved ∨
      ∃ attachment more path e, rest = attachment :: more ∧
        saveAttachment disk saved.files path attachment = .error e ∧ saved.ending = .failed e)

/-- `save_all` does not end before its search does. -/
theorem freeName_of_saveAll {fuel : Nat} {files : Table κ (List UInt8)} {written : List (List Char)}
    {attachment : Attachment} {rest : List Attachment} {saved : Saved κ}
    (h : saveAll disk checks dir fuel files written (attachment :: rest) = some saved) :
    ∃ r, freeName disk checks dir fuel files (safeAttachmentFilename attachment.filename).toList =
      some r := by
  cases hfree : freeName disk checks dir fuel files
      (safeAttachmentFilename attachment.filename).toList with
  | some r => exact ⟨r, rfl⟩
  | none =>
    rw [saveAll, hfree] at h
    exact absurd h (by simp)

theorem saveAll_mono {fuel fuel' : Nat} (hle : fuel ≤ fuel') {saved : Saved κ} :
    ∀ {rest : List Attachment} {files : Table κ (List UInt8)} {written : List (List Char)},
      saveAll disk checks dir fuel files written rest = some saved →
        saveAll disk checks dir fuel' files written rest = some saved
  | [], _, _, h => h
  | attachment :: rest, files, written, h => by
    obtain ⟨r, hfree⟩ := freeName_of_saveAll h
    rw [saveAll, hfree] at h
    rw [saveAll, freeName_mono hle hfree]
    cases r with
    | panicked => exact h
    | found path =>
      simp only at h ⊢
      cases hsave : saveAttachment disk files path attachment with
      | error e =>
        rw [hsave] at h
        exact h
      | ok files' =>
        rw [hsave] at h
        exact saveAll_mono hle h

/-- From a turn on, `save_all` does what it does from the first. -/
theorem saveAll_of_turn {fuel : Nat} {files₀ files : Table κ (List UInt8)}
    {attachments rest : List Attachment} {written : List (List Char)} {saved : Saved κ}
    (hall : saveAll disk checks dir fuel files₀ [] attachments = some saved)
    (h : Turn disk checks dir files₀ attachments written files rest) :
    saveAll disk checks dir fuel files written rest = some saved := by
  induction h with
  | first => exact hall
  | @next written files files' attachment rest fuel' path hturn hfound hsaved ih =>
    obtain ⟨r, hfree⟩ := freeName_of_saveAll ih
    -- both searches end, so they find the same
    have hsame : some r = some (.found path) :=
      (freeName_mono (Nat.le_max_left fuel fuel') hfree).symm.trans
        (freeName_mono (Nat.le_max_right fuel fuel') hfound)
    rw [saveAll, hfree, Option.some.inj hsame] at ih
    simp only [hsaved] at ih
    exact ih

/-- If every search to come can end, so does `save_all`. -/
theorem saveAll_ends {files₀ : Table κ (List UInt8)} {attachments : List Attachment}
    (hfree : ∀ written files attachment rest,
      Turn disk checks dir files₀ attachments written files (attachment :: rest) →
        HasFree disk checks dir files (safeAttachmentFilename attachment.filename).toList) :
    ∀ (rest : List Attachment) {written : List (List Char)} {files : Table κ (List UInt8)},
      Turn disk checks dir files₀ attachments written files rest →
        ∃ fuel saved, saveAll disk checks dir fuel files written rest = some saved ∧
          NeverOverwrites disk files₀ attachments saved
  | [], written, files, h => by
    obtain ⟨done, hdone, hkept⟩ := kept_of_turn h
    exact ⟨0, ⟨written, files, .saved⟩, rfl, ⟨done, [], hdone, hkept, .inl ⟨rfl, rfl⟩⟩⟩
  | attachment :: rest, written, files, h => by
    obtain ⟨done, hdone, hkept⟩ := kept_of_turn h
    obtain ⟨fuel, path, hfound⟩ := freeName_found_iff.mpr (hfree _ _ _ _ h)
    cases hsave : saveAttachment disk files path attachment with
    | error e =>
      refine ⟨fuel, ⟨written, files, .failed e⟩, ?_, ⟨done, _, hdone, hkept, .inr ?_⟩⟩
      · rw [saveAll, hfound]
        simp only [hsave]
      · exact ⟨attachment, rest, path, e, rfl, hsave, rfl⟩
    | ok files' =>
      obtain ⟨fuel', saved, hrest, hgood⟩ := saveAll_ends hfree rest (.next h hfound hsave)
      refine ⟨max fuel fuel', saved, ?_, hgood⟩
      rw [saveAll, freeName_mono (Nat.le_max_left fuel fuel') hfound]
      simp only [hsave]
      exact saveAll_mono (Nat.le_max_right fuel fuel') hrest

/-- At the first turn something is free, if `save_all` comes to a good end. -/
theorem hasFree_of_saveAll {fuel : Nat} {files₀ files : Table κ (List UInt8)}
    {attachments rest : List Attachment} {attachment : Attachment} {written : List (List Char)}
    {saved : Saved κ}
    (h : saveAll disk checks dir fuel files written (attachment :: rest) = some saved)
    (hgood : NeverOverwrites disk files₀ attachments saved) :
    HasFree disk checks dir files (safeAttachmentFilename attachment.filename).toList := by
  obtain ⟨r, hfree⟩ := freeName_of_saveAll h
  cases r with
  | found path => exact freeName_found_iff.mp ⟨fuel, path, hfree⟩
  | panicked =>
    rw [saveAll, hfree] at h
    obtain ⟨done, rest', -, -, ⟨-, hend⟩ | ⟨_, _, _, _, -, -, hend⟩⟩ := hgood
    · rw [← Option.some.inj h] at hend
      exact absurd hend (by simp)
    · rw [← Option.some.inj h] at hend
      exact absurd hend (by simp)

end

/-! ## 5. Folders with room, and a folder that is full -/

section

variable {κ : Type} [DecidableEq κ] {disk : Disk κ} {checks : Bool} {dir : List Char}

/-- Names with different numbers are different files. -/
def TellsApart (disk : Disk κ) (dir name : List Char) : Prop :=
  ∀ j k, j < 2 ^ 31 - 3 → k < 2 ^ 31 - 3 → disk.key (join dir (numberedName name (number j))) =
    disk.key (join dir (numberedName name (number k))) → j = k

/-- Fewer files than numbers leave a number free. -/
theorem hasFree_of_few {files : Table κ (List UInt8)} {name : List Char}
    (hapart : TellsApart disk dir name) (hfew : files.keys.length < 2 ^ 31 - 3) :
    HasFree disk checks dir files name := by
  by_contra hnone
  simp only [HasFree, not_or, not_exists, not_and, Bool.not_eq_false] at hnone
  generalize hN : 2 ^ 31 - 3 = N at hfew hnone hapart
  have hsub : (List.range N).map (fun k => disk.key (join dir (numberedName name (number k)))) ⊆
      files.keys := by
    intro key hkey
    obtain ⟨k, hk, rfl⟩ := List.mem_map.mp hkey
    simpa [isTaken] using hnone.2 k fun _ => List.mem_range.mp hk
  have hnodup : ((List.range N).map fun k =>
      disk.key (join dir (numberedName name (number k)))).Nodup :=
    List.nodup_range.map_on fun j hj k hk =>
      hapart j k (hN ▸ List.mem_range.mp hj) (hN ▸ List.mem_range.mp hk)
  have hlen := (List.subperm_of_subset hnodup hsub).length_le
  rw [List.length_map, List.length_range] at hlen
  omega

theorem length_keys_upsert (t : Table κ (List UInt8)) (k : κ) (data : List UInt8) :
    (t.upsert k data).keys.length ≤ t.keys.length + 1 := by
  unfold Table.upsert
  split
  · rw [Table.keys_update]
    omega
  · simp [Table.keys]

/-- No turn makes more than one file. -/
theorem length_of_turn {files₀ files : Table κ (List UInt8)} {attachments rest : List Attachment}
    {written : List (List Char)} (h : Turn disk checks dir files₀ attachments written files rest) :
    files.keys.length + rest.length ≤ files₀.keys.length + attachments.length := by
  induction h with
  | first => exact Nat.le_refl _
  | @next written files files' attachment rest fuel path hturn hfound hsaved ih =>
    unfold saveAttachment at hsaved
    split at hsaved
    · exact absurd hsaved (by simp)
    · obtain rfl := Except.ok.inj hsaved
      have hlen := length_keys_upsert files (disk.key path) attachment.data
      rw [List.length_cons] at ih
      omega

/-- A folder of any usual size has room. -/
theorem turns_have_free {files₀ : Table κ (List UInt8)} {attachments : List Attachment}
    (hapart : ∀ name, TellsApart disk dir name)
    (hroom : files₀.keys.length + attachments.length < 2 ^ 31 - 3) {written : List (List Char)}
    {files : Table κ (List UInt8)} {attachment : Attachment} {rest : List Attachment}
    (h : Turn disk checks dir files₀ attachments written files (attachment :: rest)) :
    HasFree disk checks dir files (safeAttachmentFilename attachment.filename).toList := by
  have hlen := length_of_turn h
  exact hasFree_of_few (hapart _) (by omega)

/-- `save_all` ends, and has overwritten nothing, exactly if at every turn some name is free.

`saveAll_ends_with_room` is the other half: what that comes to for a folder and a list of attachments,
without the states in between. -/
theorem saveAll_iff (files₀ : Table κ (List UInt8)) (attachments : List Attachment) :
    (∃ fuel saved, saveAll disk checks dir fuel files₀ [] attachments = some saved ∧
      NeverOverwrites disk files₀ attachments saved) ↔
    ∀ written files attachment rest,
      Turn disk checks dir files₀ attachments written files (attachment :: rest) →
        HasFree disk checks dir files (safeAttachmentFilename attachment.filename).toList := by
  constructor
  · rintro ⟨fuel, saved, hall, hgood⟩ written files attachment rest hturn
    exact hasFree_of_saveAll (saveAll_of_turn hall hturn) hgood
  · exact fun hfree => saveAll_ends hfree attachments .first

/-- With fewer files than there are numbers, those that are to be written included, `save_all` ends and
overwrites nothing, if files with different numbers are different files. -/
theorem saveAll_ends_with_room {files₀ : Table κ (List UInt8)} {attachments : List Attachment}
    (hapart : ∀ name, TellsApart disk dir name)
    (hroom : files₀.keys.length + attachments.length < 2 ^ 31 - 3) :
    ∃ fuel saved, saveAll disk checks dir fuel files₀ [] attachments = some saved ∧
      NeverOverwrites disk files₀ attachments saved :=
  saveAll_ends (fun _ _ _ _ hturn => turns_have_free hapart hroom hturn) attachments .first

end

/-- The paths that are tried for `a.txt`. -/
def allTried : List (List Char) :=
  join [] "a.txt".toList ::
    (List.range (2 ^ 32)).map fun k => join [] (numberedName "a.txt".toList (number k))

theorem number_mod (k : Nat) : number k = number (k % 2 ^ 32) := by
  rw [number_eq, number_eq]
  refine Int32.toBitVec_inj.mp (BitVec.eq_of_toNat_eq ?_)
  simp only [Int32.toBitVec_ofNat', BitVec.toNat_ofNat]
  omega

/-- A folder with a file for each of them, if it is one. -/
def fullFolder : Table (List Char) (List UInt8) :=
  ⟨allTried.dedup.map fun path => (path, []), by
    rw [List.map_map]
    exact (List.map_id _).symm ▸ List.nodup_dedup allTried⟩

/-- No name is left for an attachment, and the build that ships looks for one for ever. -/
theorem full_folder_has_no_name : ¬∃ fuel saved,
    saveAll ⟨id, fun _ _ => none⟩ false [] fuel fullFolder [] [⟨"a.txt", "text/plain", []⟩] =
      some saved ∧
    NeverOverwrites ⟨id, fun _ _ => none⟩ fullFolder [⟨"a.txt", "text/plain", []⟩] saved := by
  rintro ⟨fuel, saved, h, hgood⟩
  have hname : (safeAttachmentFilename "a.txt").toList = "a.txt".toList := by decide
  have htaken : ∀ path ∈ allTried, isTaken ⟨id, fun _ _ => none⟩ fullFolder path = true := by
    intro path hpath
    have hkey : path ∈ fullFolder.keys := by
      rw [Table.keys, fullFolder, List.map_map]
      exact List.mem_map.mpr ⟨path, List.mem_dedup.mpr hpath, rfl⟩
    simpa [isTaken] using hkey
  have hfree := hasFree_of_saveAll h hgood
  rw [hname] at hfree
  rcases hfree with hfree | ⟨k, -, hfree⟩
  · rw [htaken _ List.mem_cons_self] at hfree
    exact absurd hfree (by decide)
  · have hmem : join [] (numberedName "a.txt".toList (number k)) ∈ allTried := by
      rw [number_mod]
      exact List.mem_cons_of_mem _ (List.mem_map_of_mem (List.mem_range.mpr (Nat.mod_lt _ (by decide))))
    rw [htaken _ hmem] at hfree
    exact absurd hfree (by decide)

end Esmail.AttachmentFiles
