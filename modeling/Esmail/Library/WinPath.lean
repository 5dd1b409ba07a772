/-
# Paths of Windows

A path is a drive, a root, and names between separators, each of them optional.  Two paths are the
same if their components are: repeated separators say nothing, `.` says nothing but at the start of a
path without a root, and the letter of a drive has no case.

`join` is where a name is more than a name.  What has a drive or a root of its own REPLACES the path
that it is joined to; everything else goes behind it, so that its parent is what it was joined to
(`parent_join`).  Shares of a server and verbatim paths are not told apart from roots.
-/
import Mathlib.Tactic.Common
import Esmail.Library.RustSplit

namespace WinPath

open RustText

/-! ## 1. Components -/

def isSep (c : Char) : Bool := c == '/' || c == '\\'

inductive Component
  | drive (letter : Char)
  | rootDir
  | curDir
  | parentDir
  | normal (name : List Char)
  deriving DecidableEq, Repr

/-- The drive that a path begins with, as a capital letter. -/
def driveOf : List Char → Option Char
  | c :: ':' :: _ => if c.isAlpha then some c.toUpper else none
  | _ => none

/-- What follows the drive. -/
def afterDrive (s : List Char) : List Char := if (driveOf s).isSome then s.drop 2 else s

/-- What follows the drive begins with a separator. -/
def rooted : List Char → Bool
  | [] => false
  | c :: _ => isSep c

/-- What stands between the separators. -/
def pieces (s : List Char) : List (List Char) := split '\\' (s.map fun c => if c = '/' then '\\' else c)

def componentOf (piece : List Char) : Component :=
  if piece = ['.', '.'] then .parentDir else .normal piece

/-- The components behind the drive. -/
def body (s : List Char) : List Component :=
  (if rooted s then [.rootDir] else if (pieces s).head? = some ['.'] then [.curDir] else []) ++
    ((pieces s).filter fun piece => piece ≠ [] ∧ piece ≠ ['.']).map componentOf

/-- `Path::components`. -/
def components (s : List Char) : List Component :=
  ((driveOf s).map .drive).toList ++ body (afterDrive s)

/-- `Path::parent`, which a drive and a root do not have. -/
def parent (s : List Char) : Option (List Component) :=
  match (components s).getLast? with
  | some .curDir | some .parentDir | some (.normal _) => some (components s).dropLast
  | _ => none

/-- `Path::join`. -/
def join (base path : List Char) : List Char :=
  if (driveOf path).isSome then path
  else if rooted path then (if (driveOf base).isSome then base.take 2 else []) ++ path
  else
    match (afterDrive base).getLast? with
    | none => base ++ path
    | some c => if isSep c then base ++ path else base ++ '\\' :: path

/-! ## 2. Names -/

/-- A name and nothing else: no separator, and neither a drive nor a dot. -/
structure IsName (name : List Char) : Prop where
  ne_nil : name ≠ []
  no_sep : ∀ c ∈ name, isSep c = false
  ne_dot : name ≠ ['.']
  ne_dots : name ≠ ['.', '.']

theorem pieces_append (a b : List Char) {c : Char} (hc : isSep c) :
    pieces (a ++ c :: b) = pieces a ++ pieces b := by
  have hsep : (if c = '/' then '\\' else c) = '\\' := by
    simp only [isSep, Bool.or_eq_true, beq_iff_eq] at hc
    rcases hc with rfl | rfl <;> rfl
  rw [pieces, List.map_append, List.map_cons, hsep, split_append]
  rfl

theorem pieces_name {name : List Char} (h : ∀ c ∈ name, isSep c = false) : pieces name = [name] := by
  have hmap : (name.map fun c => if c = '/' then '\\' else c) = name := by
    refine (List.map_congr_left fun c hc => if_neg ?_).trans (List.map_id name)
    rintro rfl
    exact absurd (h _ hc) (by decide)
  rw [pieces, hmap]
  refine split_self fun hmem => ?_
  exact absurd (h _ hmem) (by decide)

theorem head?_pieces_append (s : List Char) (t : List (List Char)) :
    (pieces s ++ t).head? = (pieces s).head? := by
  cases hs : pieces s with
  | nil => exact absurd hs (split_ne_nil _ _)
  | cons piece more => rfl

theorem rooted_append {s : List Char} (hs : s ≠ []) (t : List Char) :
    rooted (s ++ t) = rooted s := by
  cases s with
  | nil => exact absurd rfl hs
  | cons c s => rfl

/-- A separator at the end says nothing. -/
theorem body_sep {s : List Char} (hs : s ≠ []) {c : Char} (hc : isSep c) :
    body (s ++ [c]) = body s := by
  have hempty : (pieces []).filter (fun piece => piece ≠ [] ∧ piece ≠ ['.']) = [] := by decide
  rw [body, body, rooted_append hs, pieces_append s [] hc, head?_pieces_append, List.filter_append,
    hempty, List.append_nil]

/-- A name behind a separator is one more component. -/
theorem body_name {c : Char} (hc : isSep c) {name : List Char} (h : IsName name) (s : List Char) :
    body (s ++ c :: name) = body (s ++ [c]) ++ [.normal name] := by
  have hrooted : rooted (s ++ c :: name) = rooted (s ++ [c]) := by cases s <;> rfl
  have hempty : (pieces []).filter (fun piece => piece ≠ [] ∧ piece ≠ ['.']) = [] := by decide
  have hkeep : [name].filter (fun piece => piece ≠ [] ∧ piece ≠ ['.']) = [name] := by
    simp [h.ne_nil, h.ne_dot]
  have hname : componentOf name = .normal name := if_neg h.ne_dots
  rw [body, body, hrooted, pieces_append s name hc, pieces_append s [] hc, pieces_name h.no_sep,
    head?_pieces_append, head?_pieces_append, List.filter_append, List.filter_append, hkeep, hempty,
    List.map_append, List.append_nil, List.map_singleton, hname, List.append_assoc]

theorem rooted_name {name : List Char} (h : ∀ c ∈ name, isSep c = false) : rooted name = false := by
  cases name with
  | nil => rfl
  | cons c s => exact h c List.mem_cons_self

/-- A name alone. -/
theorem body_of_name {name : List Char} (h : IsName name) : body name = [.normal name] := by
  have hname : componentOf name = .normal name := if_neg h.ne_dots
  have hkeep : [name].filter (fun piece => piece ≠ [] ∧ piece ≠ ['.']) = [name] := by
    simp [h.ne_nil, h.ne_dot]
  rw [body, rooted_name h.no_sep, pieces_name h.no_sep, hkeep]
  simp [h.ne_dot, hname]

/-! ## 3. Joining -/

/-- What is put behind a path does not change its drive, unless it makes one. -/
theorem components_append {base t : List Char} (hnil : base = [] → driveOf t = none)
    (hone : ∀ c, base = [c] → c.isAlpha = false ∨ t.head? ≠ some ':') :
    components (base ++ t) =
      ((driveOf base).map .drive).toList ++ body (afterDrive base ++ t) := by
  have hdrive : driveOf (base ++ t) = driveOf base := by
    rcases base with _ | ⟨c, _ | ⟨d, base⟩⟩
    · exact hnil rfl
    · rcases t with _ | ⟨d, t⟩
      · rfl
      · by_cases hd : d = ':'
        · subst hd
          have hc := (hone c rfl).resolve_right fun h => h rfl
          simp [driveOf, hc]
        · simp [driveOf, hd]
    · by_cases hd : d = ':'
      · subst hd
        rfl
      · simp [driveOf, hd]
  have hafter : afterDrive (base ++ t) = afterDrive base ++ t := by
    rw [afterDrive, afterDrive, hdrive]
    split
    · next hsome =>
      rcases base with _ | ⟨c, _ | ⟨d, base⟩⟩
      · exact absurd hsome (by simp [driveOf])
      · exact absurd hsome (by simp [driveOf])
      · rfl
    · rfl
  rw [components, hdrive, hafter]

theorem isAlpha_of_isSep {c : Char} (h : isSep c) : c.isAlpha = false := by
  simp only [isSep, Bool.or_eq_true, beq_iff_eq] at h
  rcases h with rfl | rfl <;> decide

/-- A name goes behind the path that it is joined to. -/
theorem components_join {name : List Char} (h : IsName name) (hdrive : driveOf name = none)
    (base : List Char) : components (join base name) = components base ++ [.normal name] := by
  rw [join, hdrive, if_neg (by simp), rooted_name h.no_sep, if_neg (by simp)]
  cases hlast : (afterDrive base).getLast? with
  | none =>
    have hafter : afterDrive base = [] := List.getLast?_eq_none_iff.mp hlast
    simp only
    have hnil : body [] = [] := by decide
    rw [components_append (fun _ => hdrive), hafter, List.nil_append, body_of_name h, components, hafter,
      hnil, List.append_nil]
    · rintro c rfl
      exact absurd hafter (by simp [afterDrive, driveOf])
  | some c =>
    obtain ⟨s, hs⟩ := List.getLast?_eq_some_iff.mp hlast
    simp only
    split
    · next hc =>
      rw [components_append (fun _ => hdrive), hs, List.append_assoc, List.singleton_append,
        body_name hc h, components, hs, List.append_assoc]
      rintro d rfl
      have hd : d = c := by
        have hafter : afterDrive [d] = [d] := by simp [afterDrive, driveOf]
        rw [hafter, List.getLast?_singleton] at hlast
        exact Option.some.inj hlast
      exact .inl (hd ▸ isAlpha_of_isSep hc)
    · next hc =>
      have hne : afterDrive base ≠ [] := by simp [hs]
      rw [components_append (fun hnil => ?_) fun _ _ => .inr (by simp), body_name (by decide) h,
        body_sep hne (by decide), components, List.append_assoc]
      rw [hnil] at hne
      exact absurd rfl hne

/-- THE PARENT of what a name is joined to is what it was joined to. -/
theorem parent_join {name : List Char} (h : IsName name) (hdrive : driveOf name = none)
    (base : List Char) : parent (join base name) = some (components base) := by
  rw [parent, components_join h hdrive, List.getLast?_concat, List.dropLast_concat]

/-- A path of one piece behind a drive has that drive for its parent, if there is a piece. -/
theorem parent_drive {c : Char} (hc : c.isAlpha) {rest : List Char}
    (h : ∀ d ∈ rest, isSep d = false) :
    parent (c :: ':' :: rest) = if rest = [] then none else some [.drive c.toUpper] := by
  have hdrive : driveOf (c :: ':' :: rest) = some c.toUpper := if_pos hc
  have hcomponents : components (c :: ':' :: rest) = .drive c.toUpper :: body rest := by
    rw [components, afterDrive, hdrive]
    rfl
  have hbody : body rest = (if rest = ['.'] then [.curDir] else []) ++
      ([rest].filter fun piece => piece ≠ [] ∧ piece ≠ ['.']).map componentOf := by
    rw [body, rooted_name h, pieces_name h]
    simp
  rw [parent, hcomponents, hbody]
  by_cases hnil : rest = []
  · subst hnil
    rfl
  · by_cases hdot : rest = ['.']
    · subst hdot
      rfl
    · by_cases hdots : rest = ['.', '.']
      · subst hdots
        rfl
      · simp [hnil, hdot, hdots, componentOf]

end WinPath
