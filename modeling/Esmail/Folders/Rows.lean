/-
# The rows of the folder list

`flatten_tree`, `visible_rows` and `descendants` of `imap.rs`.  The list is drawn from a flat list of
rows with depths, and a folder is collapsed by its row's key, the labels from the root joined with '/'.

`visibleRows_pruned`, for every forest and every set of collapsed keys: the rows are the nodes in
preorder, those in view are the tree with the collapsed branches cut off, and the descendants of a row are
the rows of its node's proper subtree.

`listing` is the tree read in preorder with the branches cut off, by recursion over the nodes;
`visible_rows` is a scan that knows depths and no nodes.  The two meet in the outline
(`outline_flattenInto`): below a row stand the rows of its subtree, up to one that is no deeper
(`exists_below`), so the scan passes over just these.

A key may belong to two rows (`Keys.lean`); then both are collapsed, here as in the program.
-/
import Mathlib.Data.Finset.Basic
import Esmail.Folders.Sorted
import Esmail.Library.Outline

namespace Esmail.App.Folders

open RustText

/-! ## 1. The rows -/

/-- The key of a node: its labels from the root, joined with '/'. -/
def nodeKey (parentKey label : String) : String :=
  if parentKey = "" then label else parentKey ++ "/" ++ label

mutual

/-- The rows of a node and of what is below it. -/
def flattenNode (depth : Nat) (parentKey : String) : MailboxNode → List MailboxRow
  | ⟨label, fullName, specialUse, children⟩ =>
    ⟨depth, label, fullName, specialUse, nodeKey parentKey label, !children.isEmpty⟩ ::
      flattenInto (depth + 1) (nodeKey parentKey label) children
termination_by structural node => node

/-- `flatten_into`. -/
def flattenInto (depth : Nat) (parentKey : String) : List MailboxNode → List MailboxRow
  | [] => []
  | node :: rest => flattenNode depth parentKey node ++ flattenInto depth parentKey rest
termination_by structural nodes => nodes

end

/-- `flatten_tree`. -/
def flattenTree (nodes : List MailboxNode) : List MailboxRow := flattenInto 0 "" nodes

/-- `visible_rows`: the rows that no collapsed row hides. -/
def visibleRows (rows : List MailboxRow) (collapsed : Finset String) : List Nat :=
  Outline.shown MailboxRow.depth (fun row => row.hasChildren && decide (row.key ∈ collapsed)) none
    rows.zipIdx

/-- `descendants`; there are none of a row that does not exist. -/
def descendants (rows : List MailboxRow) (index : Nat) : Option (List MailboxRow) :=
  rows[index]?.map fun row =>
    let rest := rows.drop (index + 1)
    rest.take ((rest.findIdx? fun r => r.depth ≤ row.depth).getD rest.length)

/-- A node of the tree, with the depth it is at and its key. -/
structure Place where
  depth : Nat
  key : String
  node : MailboxNode

/-- The row of a node. -/
def Place.row (place : Place) : MailboxRow :=
  ⟨place.depth, place.node.label, place.node.fullName, place.node.specialUse, place.key,
    !place.node.children.isEmpty⟩

/-- The rows of a node's proper subtree. -/
def Place.below (place : Place) : List MailboxRow :=
  flattenInto (place.depth + 1) place.key place.node.children

mutual

/-- A node, and what is below it if it is not collapsed. -/
def listNode (collapsed : Finset String) (depth : Nat) (parentKey : String) :
    MailboxNode → List Place
  | ⟨label, fullName, specialUse, children⟩ =>
    ⟨depth, nodeKey parentKey label, ⟨label, fullName, specialUse, children⟩⟩ ::
      if nodeKey parentKey label ∈ collapsed then []
      else listing collapsed (depth + 1) (nodeKey parentKey label) children
termination_by structural node => node

/-- The tree in preorder, the branches below collapsed nodes cut off. -/
def listing (collapsed : Finset String) (depth : Nat) (parentKey : String) :
    List MailboxNode → List Place
  | [] => []
  | node :: rest => listNode collapsed depth parentKey node ++ listing collapsed depth parentKey rest
termination_by structural nodes => nodes

end

theorem flattenInto_cons (depth : Nat) (parentKey label : String) (fullName : Option String)
    (specialUse : Option SpecialUse) (children rest : List MailboxNode) :
    flattenInto depth parentKey (⟨label, fullName, specialUse, children⟩ :: rest) =
      Place.row ⟨depth, nodeKey parentKey label, ⟨label, fullName, specialUse, children⟩⟩ ::
        (flattenInto (depth + 1) (nodeKey parentKey label) children ++
          flattenInto depth parentKey rest) := rfl

theorem listing_cons (collapsed : Finset String) (depth : Nat) (parentKey label : String)
    (fullName : Option String) (specialUse : Option SpecialUse) (children rest : List MailboxNode) :
    listing collapsed depth parentKey (⟨label, fullName, specialUse, children⟩ :: rest) =
      ⟨depth, nodeKey parentKey label, ⟨label, fullName, specialUse, children⟩⟩ ::
        ((if nodeKey parentKey label ∈ collapsed then []
          else listing collapsed (depth + 1) (nodeKey parentKey label) children) ++
        listing collapsed depth parentKey rest) := rfl

/-- The rows are the nodes in preorder. -/
theorem flattenInto_eq (nodes : List MailboxNode) (depth : Nat) (parentKey : String) :
    flattenInto depth parentKey nodes = (listing ∅ depth parentKey nodes).map Place.row := by
  induction nodes using forest_induction generalizing depth parentKey with
  | nil => rfl
  | cons label fullName specialUse children rest ihchildren ihrest =>
    rw [flattenInto_cons, listing_cons, ihchildren, ihrest, if_neg (Finset.notMem_empty _),
      List.map_cons, List.map_append]

/-- The rows are an outline. -/
theorem outline_flattenInto (nodes : List MailboxNode) (depth : Nat) (parentKey : String) :
    Outline MailboxRow.depth depth (flattenInto depth parentKey nodes) := by
  induction nodes using forest_induction generalizing depth parentKey with
  | nil => exact .nil
  | cons label fullName specialUse children rest ihchildren ihrest =>
    rw [flattenInto_cons]
    exact .node rfl (ihchildren _ _) (ihrest _ _)

/-! ## 2. The rows in view -/

/-- The scan over the rows of a tree lists the tree with the collapsed branches cut off, and goes on
after it. -/
theorem shown_flattenInto {ι : Type} (collapsed : Finset String) (g : MailboxRow → ι)
    (nodes : List MailboxNode) (depth : Nat) (parentKey : String) {after : List MailboxRow}
    (hafter : Outline.StartsBy MailboxRow.depth depth after) :
    Outline.shown MailboxRow.depth (fun row => row.hasChildren && decide (row.key ∈ collapsed)) none
        ((flattenInto depth parentKey nodes ++ after).map fun row => (row, g row)) =
      (listing collapsed depth parentKey nodes).map (fun place => g place.row) ++
        Outline.shown MailboxRow.depth (fun row => row.hasChildren && decide (row.key ∈ collapsed)) none
          (after.map fun row => (row, g row)) := by
  induction nodes using forest_induction generalizing depth parentKey after with
  | nil => rfl
  | cons label fullName specialUse children rest ihchildren ihrest =>
    have hrest : Outline.StartsBy MailboxRow.depth depth (flattenInto depth parentKey rest ++ after) :=
      (outline_flattenInto rest depth parentKey).startsBy.append hafter
    rw [flattenInto_cons, listing_cons, List.cons_append, List.append_assoc, List.map_cons,
      Outline.shown, List.map_cons, List.cons_append, List.cons.injEq]
    refine ⟨rfl, ?_⟩
    by_cases hkey : nodeKey parentKey label ∈ collapsed
    · rw [if_pos hkey, List.nil_append, ← ihrest depth parentKey hafter]
      rcases children with - | ⟨child, children⟩
      · rw [if_neg (by simp [Place.row])]
        rfl
      · rw [if_pos (by simpa [Place.row] using hkey), List.map_append]
        exact (Outline.shown_below (outline_flattenInto _ (depth + 1) _) g _).trans
          (Outline.shown_after g hrest)
    · rw [if_neg hkey, if_neg (by simp [Place.row, hkey]),
        ihchildren (depth + 1) (nodeKey parentKey label) (hrest.mono (Nat.le_succ depth)),
        ihrest depth parentKey hafter, List.map_append, List.append_assoc]

/-- The rows in view are the tree with the collapsed branches cut off, in order. -/
theorem visibleRows_listing (nodes : List MailboxNode) (collapsed : Finset String) :
    (visibleRows (flattenTree nodes) collapsed).map (fun i => (flattenTree nodes)[i]?) =
        (listing collapsed 0 "" nodes).map (fun place => some place.row) ∧
      (visibleRows (flattenTree nodes) collapsed).Pairwise (· < ·) := by
  constructor
  · rw [visibleRows, ← Outline.shown_map]
    have hitems : (flattenTree nodes).zipIdx.map (fun x => (x.1, (flattenTree nodes)[x.2]?)) =
        (flattenTree nodes).map fun row => (row, some row) := by
      rw [← List.zipIdx_map_fst 0 (flattenTree nodes), List.map_map]
      simp only [List.zipIdx_map_fst]
      refine List.map_congr_left fun x hx => ?_
      have hget := List.mem_zipIdx_iff_getElem?.mp hx
      rw [Function.comp_apply, hget]
    have hnil : Outline.StartsBy MailboxRow.depth 0 ([] : List MailboxRow) :=
      fun _ h => absurd h (by simp)
    have hscan := shown_flattenInto collapsed some nodes 0 "" hnil
    rw [List.append_nil, List.map_nil] at hscan
    rw [hitems, flattenTree, hscan, Outline.shown, List.append_nil]
  · refine List.Pairwise.sublist (Outline.shown_sublist none (flattenTree nodes).zipIdx) ?_
    rw [List.zipIdx_map_snd]
    exact List.pairwise_lt_range'

/-! ## 3. The rows below a row -/

/-- Where a node's row stands, the rows below it follow, up to a row that is no deeper. -/
theorem exists_below (nodes : List MailboxNode) (depth : Nat) (parentKey : String) {i : Nat}
    {place : Place} (h : (listing ∅ depth parentKey nodes)[i]? = some place) :
    depth ≤ place.depth ∧ ∃ after, Outline.StartsBy MailboxRow.depth place.depth after ∧
      (flattenInto depth parentKey nodes).drop (i + 1) = place.below ++ after := by
  induction nodes using forest_induction generalizing depth parentKey i with
  | nil => exact absurd h (by simp [listing])
  | cons label fullName specialUse children rest ihchildren ihrest =>
    have hrest := (outline_flattenInto rest depth parentKey).startsBy
    rw [listing_cons, if_neg (Finset.notMem_empty _)] at h
    rw [flattenInto_cons]
    rcases i with - | i
    · rw [List.getElem?_cons_zero, Option.some.injEq] at h
      subst h
      exact ⟨le_rfl, flattenInto depth parentKey rest, hrest, rfl⟩
    · rw [List.getElem?_cons_succ] at h
      rw [List.drop_succ_cons]
      have hlength : (flattenInto (depth + 1) (nodeKey parentKey label) children).length =
          (listing ∅ (depth + 1) (nodeKey parentKey label) children).length := by
        rw [flattenInto_eq, List.length_map]
      rcases Nat.lt_or_ge i (listing ∅ (depth + 1) (nodeKey parentKey label) children).length with
        hi | hi
      · rw [List.getElem?_append_left hi] at h
        obtain ⟨hdepth, after, hafter, hdrop⟩ := ihchildren _ _ h
        refine ⟨Nat.le_of_succ_le hdepth, after ++ flattenInto depth parentKey rest,
          hafter.append (hrest.mono (Nat.le_of_succ_le hdepth)), ?_⟩
        rw [List.drop_append_of_le_length (by omega), hdrop, List.append_assoc]
      · rw [List.getElem?_append_right hi] at h
        obtain ⟨hdepth, after, hafter, hdrop⟩ := ihrest _ _ h
        refine ⟨hdepth, after, hafter, ?_⟩
        rw [← hdrop, ← hlength, List.drop_append]
        have hlong : (flattenInto (depth + 1) (nodeKey parentKey label) children).length ≤ i + 1 := by
          omega
        rw [List.drop_eq_nil_of_le hlong, List.nil_append]
        congr 1
        omega

/-- What `descendants` takes: the rows until one that is no deeper. -/
theorem descendants_eq {rows : List MailboxRow} {index : Nat} {row : MailboxRow}
    (h : rows[index]? = some row) :
    descendants rows index =
      some ((rows.drop (index + 1)).takeWhile fun r => row.depth + 1 ≤ r.depth) := by
  have hpred : (fun r : MailboxRow => decide (row.depth + 1 ≤ r.depth)) =
      fun r => !decide (r.depth ≤ row.depth) := by
    funext r
    rw [← decide_not]
    exact decide_eq_decide.mpr Nat.not_le.symm
  rw [descendants, h, Option.map_some, hpred, List.takeWhile_eq_take_findIdx_not]
  simp only [Bool.not_not, List.findIdx_eq_getD_findIdx?]

/-- The descendants of a row are the rows of its node's proper subtree. -/
theorem descendants_flattenTree {nodes : List MailboxNode} {index : Nat} {place : Place}
    (h : (listing ∅ 0 "" nodes)[index]? = some place) :
    descendants (flattenTree nodes) index = some place.below := by
  have hrow : (flattenTree nodes)[index]? = some place.row := by
    rw [flattenTree, flattenInto_eq, List.getElem?_map, h, Option.map_some]
  obtain ⟨-, after, hafter, hdrop⟩ := exists_below nodes 0 "" h
  rw [descendants_eq hrow, flattenTree, hdrop]
  exact congrArg some ((outline_flattenInto _ (place.depth + 1) _).takeWhile_append hafter)

/-- The collapsed view is the pruned tree: the rows are the nodes in preorder, those in view are the
tree with the collapsed branches cut off, and the descendants of a row are its node's proper subtree. -/
theorem visibleRows_pruned (nodes : List MailboxNode) (collapsed : Finset String) :
    flattenTree nodes = (listing ∅ 0 "" nodes).map Place.row ∧
      (visibleRows (flattenTree nodes) collapsed).map (fun i => (flattenTree nodes)[i]?) =
        (listing collapsed 0 "" nodes).map (fun place => some place.row) ∧
      (visibleRows (flattenTree nodes) collapsed).Pairwise (· < ·) ∧
      ∀ (index : Nat) (place : Place), (listing ∅ 0 "" nodes)[index]? = some place →
        descendants (flattenTree nodes) index = some place.below :=
  ⟨flattenInto_eq nodes 0 "", (visibleRows_listing nodes collapsed).1,
    (visibleRows_listing nodes collapsed).2, fun _ _ h => descendants_flattenTree h⟩

end Esmail.App.Folders
