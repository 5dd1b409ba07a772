/-
# The folder tree

`mailbox_tree` of `imap.rs`: the flat names of a LIST reply, each split at its delimiter and inserted
as a path, with the nodes that a path needs made on the way; then every list of siblings is sorted.

A tree is read through `lookup`, the mailbox at a path of labels.  What an insertion does to it
(`lookup_insertPath`) does not depend on what came before, so the tree of a reply is known from the
set of its paths (`lookup_build`), and where the siblings are sorted without ties that is all there is
to a tree (`ext_of_lookup`).
-/
import Mathlib.Data.Char
import Mathlib.Data.List.Lex
import Mathlib.Data.List.Sort
import Mathlib.Data.Prod.Lex
import Esmail.App.Core
import Esmail.Library.RustSplit

namespace Esmail.App.Folders

open RustText

/-! ## 1. The nodes -/

/-- `MailboxNode`. -/
structure MailboxNode where
  label : String
  fullName : Option String
  specialUse : Option SpecialUse
  children : List MailboxNode
  deriving Repr

/-- The node that is pushed where there is none. -/
def MailboxNode.fresh (label : String) : MailboxNode := ⟨label, none, none, []⟩

/-- What holds of every list of siblings in a tree. -/
inductive Everywhere (P : List MailboxNode → Prop) : List MailboxNode → Prop
  | intro {nodes : List MailboxNode} (here : P nodes)
      (below : ∀ node ∈ nodes, Everywhere P node.children) : Everywhere P nodes

/-- Trees by induction: a first node, with what is below it, and its siblings. -/
theorem forest_induction {P : List MailboxNode → Prop} (nil : P [])
    (cons : ∀ (label : String) (fullName : Option String) (specialUse : Option SpecialUse)
      (children rest : List MailboxNode), P children → P rest →
        P (⟨label, fullName, specialUse, children⟩ :: rest)) : ∀ nodes, P nodes
  | [] => nil
  | ⟨label, fullName, specialUse, children⟩ :: rest =>
    cons label fullName specialUse children rest (forest_induction nil cons children)
      (forest_induction nil cons rest)

/-! ## 2. Building the tree -/

/-- The path of a mailbox: `segments` of `mailbox_tree`. -/
def segments (mb : MailboxInfo) : List String :=
  match mb.delimiter.filter (· ≠ "") with
  | some d => ((splitText d.toList mb.name.toList).filter (· ≠ [])).map String.ofList
  | none => [mb.name]

/-- The node of that label, changed in its place, or a new one at the end. -/
def updateLabel (label : String) (f : MailboxNode → MailboxNode) : List MailboxNode → List MailboxNode
  | [] => [f (.fresh label)]
  | node :: rest => if node.label = label then f node :: rest else node :: updateLabel label f rest

/-- `insert_path`. -/
def insertPath (fullName : String) (specialUse : Option SpecialUse) (noselect : Bool) :
    List String → List MailboxNode → List MailboxNode
  | [], nodes => nodes
  | first :: rest, nodes =>
    updateLabel first
      (fun node =>
        if rest = [] then
          { node with
            fullName := if noselect then node.fullName else some fullName
            specialUse := specialUse }
        else { node with children := insertPath fullName specialUse noselect rest node.children })
      nodes

/-- The rank of `sort_key`. -/
def rank : Option SpecialUse → Nat
  | some .inbox => 0
  | some .sent => 1
  | some .drafts => 2
  | some .archive => 3
  | some .junk => 4
  | some .trash => 5
  | none => 6

/-- `sort_key`. -/
def sortKey (node : MailboxNode) : ℕ ×ₗ List Char :=
  toLex (rank node.specialUse, node.label.toList.map toAsciiLowercase)

mutual

/-- A node with what is below it sorted. -/
def sortNode : MailboxNode → MailboxNode
  | ⟨label, fullName, specialUse, children⟩ => ⟨label, fullName, specialUse, sortTree children⟩
termination_by structural node => node

/-- `sort_tree`: each list of siblings is sorted by key, and those of the same key stay in order. -/
def sortTree : List MailboxNode → List MailboxNode
  | [] => []
  | node :: rest =>
    List.orderedInsert (fun a b => sortKey a ≤ sortKey b) (sortNode node) (sortTree rest)
termination_by structural nodes => nodes

end

/-- The loop of `mailbox_tree`. -/
def build (mailboxes : List MailboxInfo) : List MailboxNode :=
  mailboxes.foldl (fun roots mb => insertPath mb.name mb.specialUse mb.noselect (segments mb) roots) []

/-- `mailbox_tree`. -/
def mailboxTree (mailboxes : List MailboxInfo) : List MailboxNode := sortTree (build mailboxes)

example : ((mailboxTree [⟨"Work/b", some "/", none, false⟩, ⟨"Work", some "/", none, true⟩,
    ⟨"work/A", some "/", none, false⟩, ⟨"Work/A", some "/", none, false⟩,
    ⟨"INBOX", some "/", some .inbox, false⟩]).map fun n => (n.label, n.fullName, n.children.map (·.label))) =
      [("INBOX", some "INBOX", []), ("Work", none, ["A", "b"]), ("work", none, ["A"])] := by decide +kernel

/-! ## 3. One insertion -/

/-- Either the first node of the label changes, or a new one is pushed. -/
theorem updateLabel_cases (label : String) (f : MailboxNode → MailboxNode) (nodes : List MailboxNode) :
    (∃ before node after, nodes = before ++ node :: after ∧ node.label = label ∧
      (∀ n ∈ before, n.label ≠ label) ∧ updateLabel label f nodes = before ++ f node :: after) ∨
    ((∀ n ∈ nodes, n.label ≠ label) ∧ updateLabel label f nodes = nodes ++ [f (.fresh label)]) := by
  induction nodes with
  | nil => exact .inr ⟨by simp, rfl⟩
  | cons first rest ih =>
    by_cases hfirst : first.label = label
    · exact .inl ⟨[], first, rest, rfl, hfirst, by simp, by rw [updateLabel, if_pos hfirst]; rfl⟩
    · rw [updateLabel, if_neg hfirst]
      rcases ih with ⟨before, node, after, hnodes, hnode, hbefore, heq⟩ | ⟨hnone, heq⟩
      · refine .inl ⟨first :: before, node, after, by rw [hnodes]; rfl, hnode, ?_, by rw [heq]; rfl⟩
        exact List.forall_mem_cons.mpr ⟨hfirst, hbefore⟩
      · exact .inr ⟨List.forall_mem_cons.mpr ⟨hfirst, hnone⟩, by rw [heq]; rfl⟩

/-- The node of a label: `find` of `insert_path`. -/
def withLabel (label : String) (nodes : List MailboxNode) : Option MailboxNode :=
  nodes.find? fun n => n.label = label

/-- The node of a label, or the one that would be pushed. -/
def nodeAt (label : String) (nodes : List MailboxNode) : MailboxNode :=
  (withLabel label nodes).getD (.fresh label)

theorem withLabel_cons (label : String) (first : MailboxNode) (rest : List MailboxNode) :
    withLabel label (first :: rest) =
      if first.label = label then some first else withLabel label rest := by
  rw [withLabel, List.find?_cons]
  by_cases h : first.label = label <;> simp [h, withLabel]

theorem withLabel_updateLabel (label : String) {f : MailboxNode → MailboxNode}
    (hf : ∀ n, (f n).label = n.label) (nodes : List MailboxNode) (x : String) :
    withLabel x (updateLabel label f nodes) =
      if x = label then some (f (nodeAt label nodes)) else withLabel x nodes := by
  induction nodes with
  | nil =>
    have hlabel : (f (.fresh label)).label = label := hf _
    rw [updateLabel, withLabel_cons, hlabel]
    by_cases hx : x = label
    · rw [if_pos hx, if_pos hx.symm]
      rfl
    · rw [if_neg hx, if_neg (Ne.symm hx)]
  | cons first rest ih =>
    rw [updateLabel, nodeAt, withLabel_cons label]
    by_cases hfirst : first.label = label
    · rw [if_pos hfirst, if_pos hfirst, withLabel_cons, hf, withLabel_cons, hfirst]
      by_cases hx : x = label
      · rw [if_pos hx, if_pos hx.symm]
        rfl
      · rw [if_neg hx, if_neg (Ne.symm hx), if_neg (Ne.symm hx)]
    · rw [if_neg hfirst, if_neg hfirst, withLabel_cons, ih, withLabel_cons]
      by_cases hx : first.label = x
      · rw [if_pos hx, if_pos hx, if_neg fun h => hfirst (hx.trans h)]
      · rw [if_neg hx, if_neg hx]
        rfl

/-- What a tree says of the mailbox at a path: its full name and its role. -/
def lookup : List String → List MailboxNode → Option (Option String × Option SpecialUse)
  | [], _ => none
  | first :: rest, nodes =>
    (withLabel first nodes).bind fun node =>
      if rest = [] then some (node.fullName, node.specialUse) else lookup rest node.children

theorem lookup_nil_right (path : List String) : lookup path [] = none := by
  cases path <;> rfl

/-- Below a label stands what is below its node. -/
theorem lookup_cons {rest : List String} (hrest : rest ≠ []) (first : String)
    (nodes : List MailboxNode) :
    lookup (first :: rest) nodes = lookup rest (nodeAt first nodes).children := by
  rw [lookup, nodeAt]
  rcases withLabel first nodes with - | node
  · exact (lookup_nil_right rest).symm
  · rw [Option.bind_some, if_neg hrest, Option.getD_some]

theorem lookup_singleton (first : String) (nodes : List MailboxNode) :
    lookup [first] nodes =
      (withLabel first nodes).map fun node => (node.fullName, node.specialUse) := by
  rw [lookup]
  rcases withLabel first nodes with - | node <;> rfl

/-- At a label stands what its node says. -/
theorem getD_lookup_singleton (first : String) (nodes : List MailboxNode) :
    (lookup [first] nodes).getD (none, none) =
      ((nodeAt first nodes).fullName, (nodeAt first nodes).specialUse) := by
  rw [lookup_singleton, nodeAt]
  rcases withLabel first nodes with - | node <;> rfl

/-- What `insert_path` does to the node of the first segment. -/
def place (fullName : String) (specialUse : Option SpecialUse) (noselect : Bool) (rest : List String)
    (node : MailboxNode) : MailboxNode :=
  if rest = [] then
    { node with
      fullName := if noselect then node.fullName else some fullName
      specialUse := specialUse }
  else { node with children := insertPath fullName specialUse noselect rest node.children }

theorem insertPath_cons (fullName : String) (specialUse : Option SpecialUse) (noselect : Bool)
    (first : String) (rest : List String) (nodes : List MailboxNode) :
    insertPath fullName specialUse noselect (first :: rest) nodes =
      updateLabel first (place fullName specialUse noselect rest) nodes := by
  rw [insertPath]
  rfl

@[simp] theorem label_place (fullName : String) (specialUse : Option SpecialUse) (noselect : Bool)
    (rest : List String) (node : MailboxNode) :
    (place fullName specialUse noselect rest node).label = node.label := by
  unfold place
  split <;> rfl

/-- An insertion writes at its path, makes the nodes on the way, and leaves every other path. -/
theorem lookup_insertPath (fullName : String) (specialUse : Option SpecialUse) (noselect : Bool) :
    ∀ (path q : List String) (nodes : List MailboxNode), q ≠ [] →
      lookup q (insertPath fullName specialUse noselect path nodes) =
        if q = path then
          some (if noselect then ((lookup q nodes).getD (none, none)).1 else some fullName, specialUse)
        else if q <+: path then some ((lookup q nodes).getD (none, none))
        else lookup q nodes
  | [], q, nodes, hq => by
    rw [insertPath, if_neg hq, if_neg fun h => hq (List.prefix_nil.mp h)]
  | first :: rest, [], nodes, hq => absurd rfl hq
  | first :: rest, x :: q, nodes, _ => by
    have hwith := withLabel_updateLabel first (label_place fullName specialUse noselect rest) nodes x
    rw [insertPath_cons]
    by_cases hx : x = first
    · subst hx
      rw [if_pos rfl] at hwith
      simp only [List.cons.injEq, true_and, List.cons_prefix_cons]
      by_cases hq : q = []
      · subst hq
        rw [lookup_singleton, hwith, getD_lookup_singleton, Option.map_some]
        by_cases hrest : rest = []
        · rw [if_pos hrest.symm, place, if_pos hrest]
        · rw [if_neg (Ne.symm hrest), if_pos List.nil_prefix, place, if_neg hrest]
      · rw [lookup_cons hq, nodeAt, hwith, Option.getD_some, lookup_cons hq, place]
        by_cases hrest : rest = []
        · rw [if_pos hrest, hrest, if_neg hq, if_neg fun h => hq (List.prefix_nil.mp h)]
        · rw [if_neg hrest, lookup_insertPath fullName specialUse noselect rest q _ hq]
    · rw [if_neg hx] at hwith
      have hlookup : ∀ nodes', withLabel x nodes' = withLabel x nodes →
          lookup (x :: q) nodes' = lookup (x :: q) nodes := by
        intro nodes' h
        rw [lookup, lookup, h]
      rw [hlookup _ hwith, if_neg fun h => hx (List.cons.inj h).1,
        if_neg fun h => hx (List.cons_prefix_cons.mp h).1]

/-! ## 4. All of them -/

/-- What a mailbox of a LIST reply puts at its path. -/
def entry (mb : MailboxInfo) : Option String × Option SpecialUse :=
  (if mb.noselect then none else some mb.name, mb.specialUse)

/-- The folders of a reply: its paths, and the paths on the way to them. -/
def IsFolder (mailboxes : List MailboxInfo) (path : List String) : Prop :=
  path ≠ [] ∧ ∃ mb ∈ mailboxes, path <+: segments mb

theorem build_append (mailboxes : List MailboxInfo) (mb : MailboxInfo) :
    build (mailboxes ++ [mb]) =
      insertPath mb.name mb.specialUse mb.noselect (segments mb) (build mailboxes) := by
  rw [build, build, List.foldl_append]
  rfl

/-- What stands at a path where no mailbox is. -/
theorem lookup_build_of_notMem {mailboxes : List MailboxInfo} {q : List String} (hq : q ≠ [])
    (hnot : ∀ mb ∈ mailboxes, segments mb ≠ q) :
    ((∃ mb ∈ mailboxes, q <+: segments mb) → lookup q (build mailboxes) = some (none, none)) ∧
      ((¬ ∃ mb ∈ mailboxes, q <+: segments mb) → lookup q (build mailboxes) = none) := by
  induction mailboxes using List.reverseRecOn with
  | nil => exact ⟨fun ⟨_, h, _⟩ => absurd h List.not_mem_nil, fun _ => lookup_nil_right q⟩
  | append_singleton mailboxes mb ih =>
    have hmb : q ≠ segments mb := fun h => hnot mb (by simp) h.symm
    obtain ⟨hfolder, hother⟩ := ih fun mb' h => hnot mb' (List.mem_append_left _ h)
    rw [build_append, lookup_insertPath _ _ _ _ _ _ hq, if_neg hmb]
    by_cases hpre : q <+: segments mb
    · rw [if_pos hpre]
      refine ⟨fun _ => ?_, fun h => absurd ⟨mb, by simp, hpre⟩ h⟩
      by_cases hold : ∃ mb' ∈ mailboxes, q <+: segments mb'
      · rw [hfolder hold]
        rfl
      · rw [hother hold]
        rfl
    · rw [if_neg hpre]
      have hiff : (∃ mb' ∈ mailboxes ++ [mb], q <+: segments mb') ↔
          ∃ mb' ∈ mailboxes, q <+: segments mb' := by
        simp [hpre, or_and_right, exists_or]
      rw [hiff]
      exact ⟨hfolder, hother⟩

/-- No name stands there. -/
theorem getD_lookup_build {mailboxes : List MailboxInfo} {q : List String} (hq : q ≠ [])
    (hnot : ∀ mb ∈ mailboxes, segments mb ≠ q) :
    ((lookup q (build mailboxes)).getD (none, none)).1 = none := by
  obtain ⟨hfolder, hother⟩ := lookup_build_of_notMem hq hnot
  by_cases hpre : ∃ mb ∈ mailboxes, q <+: segments mb
  · rw [hfolder hpre]
    rfl
  · rw [hother hpre]
    rfl

/-- At the path of a mailbox stands what it says, whatever came before and after it. -/
theorem lookup_build_of_mem {mailboxes : List MailboxInfo} (hpaths : (mailboxes.map segments).Nodup)
    {mb : MailboxInfo} (hmb : mb ∈ mailboxes) (hpath : segments mb ≠ []) :
    lookup (segments mb) (build mailboxes) = some (entry mb) := by
  induction mailboxes using List.reverseRecOn with
  | nil => cases hmb
  | append_singleton mailboxes last ih =>
    rw [List.map_append, List.map_singleton] at hpaths
    have hfirst : (mailboxes.map segments).Nodup := hpaths.of_append_left
    have hlast : ∀ mb' ∈ mailboxes, segments mb' ≠ segments last := by
      intro mb' h
      exact (List.nodup_append.mp hpaths).2.2 _ (List.mem_map_of_mem h) _ (by simp)
    rw [build_append, lookup_insertPath _ _ _ _ _ _ hpath]
    rcases List.mem_append.mp hmb with hmem | hmem
    · rw [if_neg (hlast mb hmem), ih hfirst hmem]
      split <;> rfl
    · rw [List.mem_singleton] at hmem
      subst hmem
      rw [if_pos rfl, entry, getD_lookup_build hpath hlast]

/-- The order of the reply plays no part. -/
theorem lookup_build_perm {mailboxes mailboxes' : List MailboxInfo} (hperm : mailboxes.Perm mailboxes')
    (hpaths : (mailboxes.map segments).Nodup) (q : List String) :
    lookup q (build mailboxes) = lookup q (build mailboxes') := by
  have hpaths' : (mailboxes'.map segments).Nodup := (hperm.map segments).nodup_iff.mp hpaths
  by_cases hq : q = []
  · subst hq
    rfl
  by_cases hmem : ∃ mb ∈ mailboxes, segments mb = q
  · obtain ⟨mb, hmb, rfl⟩ := hmem
    rw [lookup_build_of_mem hpaths hmb hq, lookup_build_of_mem hpaths' (hperm.mem_iff.mp hmb) hq]
  · have hnot : ∀ mb ∈ mailboxes, segments mb ≠ q := fun mb h he => hmem ⟨mb, h, he⟩
    obtain ⟨hfolder, hother⟩ := lookup_build_of_notMem hq hnot
    obtain ⟨hfolder', hother'⟩ := lookup_build_of_notMem hq fun mb h => hnot mb (hperm.mem_iff.mpr h)
    have hiff : (∃ mb ∈ mailboxes', q <+: segments mb) ↔ ∃ mb ∈ mailboxes, q <+: segments mb := by
      simp only [hperm.mem_iff]
    rw [hiff] at hfolder' hother'
    by_cases hpre : ∃ mb ∈ mailboxes, q <+: segments mb
    · rw [hfolder hpre, hfolder' hpre]
    · rw [hother hpre, hother' hpre]

/-- The folders of a reply are what its tree has nodes for. -/
theorem isSome_lookup_build {mailboxes : List MailboxInfo} {q : List String} :
    (lookup q (build mailboxes)).isSome = true ↔ IsFolder mailboxes q := by
  by_cases hq : q = []
  · subst hq
    simp [IsFolder, lookup]
  induction mailboxes using List.reverseRecOn with
  | nil => simp [IsFolder, build, lookup_nil_right]
  | append_singleton mailboxes mb ih =>
    rw [build_append, lookup_insertPath _ _ _ _ _ _ hq]
    have hiff : IsFolder (mailboxes ++ [mb]) q ↔ IsFolder mailboxes q ∨ q <+: segments mb := by
      simp [IsFolder, hq, or_and_right, exists_or]
    rw [hiff, ← ih]
    by_cases hmb : q = segments mb
    · simp [hmb]
    · rw [if_neg hmb]
      by_cases hpre : q <+: segments mb <;> simp [hpre]

/-! ## 5. Labels -/

/-- No two siblings have the same label, anywhere. -/
abbrev DistinctLabels (nodes : List MailboxNode) : Prop :=
  Everywhere (fun siblings => (siblings.map MailboxNode.label).Nodup) nodes

theorem distinctLabels_nil : DistinctLabels [] :=
  .intro List.nodup_nil fun _ h => absurd h List.not_mem_nil

theorem DistinctLabels.insertPath (fullName : String) (specialUse : Option SpecialUse)
    (noselect : Bool) : ∀ (path : List String) {nodes : List MailboxNode}, DistinctLabels nodes →
      DistinctLabels (insertPath fullName specialUse noselect path nodes)
  | [], nodes, h => by rwa [Folders.insertPath]
  | first :: rest, nodes, .intro hhere hbelow => by
    have hplace : ∀ node : MailboxNode, DistinctLabels node.children →
        DistinctLabels (place fullName specialUse noselect rest node).children := by
      intro node hnode
      unfold place
      split
      · exact hnode
      · exact DistinctLabels.insertPath fullName specialUse noselect rest hnode
    rw [insertPath_cons]
    rcases updateLabel_cases first (place fullName specialUse noselect rest) nodes with
      ⟨before, node, after, rfl, -, -, heq⟩ | ⟨hnone, heq⟩ <;> rw [heq]
    · constructor
      · simpa using hhere
      · intro n hn
        rcases List.mem_append.mp hn with hn | hn
        · exact hbelow n (List.mem_append_left _ hn)
        · rcases List.mem_cons.mp hn with rfl | hn
          · exact hplace node (hbelow node (by simp))
          · exact hbelow n (by simp [hn])
    · constructor
      · rw [List.map_append, List.map_singleton, label_place]
        refine List.nodup_append.mpr ⟨hhere, List.nodup_singleton _, fun x hx y hy => ?_⟩
        obtain ⟨n, hn, rfl⟩ := List.mem_map.mp hx
        rw [List.mem_singleton.mp hy]
        exact hnone n hn
      · intro n hn
        rcases List.mem_append.mp hn with hn | hn
        · exact hbelow n hn
        · rw [List.mem_singleton.mp hn]
          exact hplace _ distinctLabels_nil

theorem distinctLabels_build (mailboxes : List MailboxInfo) : DistinctLabels (build mailboxes) := by
  induction mailboxes using List.reverseRecOn with
  | nil => exact distinctLabels_nil
  | append_singleton mailboxes mb ih =>
    rw [build_append]
    exact ih.insertPath _ _ _ _

/-- Where labels differ, a node is found by its label. -/
theorem withLabel_eq_some {nodes : List MailboxNode} (h : (nodes.map MailboxNode.label).Nodup)
    {label : String} {node : MailboxNode} :
    withLabel label nodes = some node ↔ node ∈ nodes ∧ node.label = label := by
  induction nodes with
  | nil => simp [withLabel]
  | cons first rest ih =>
    rw [List.map_cons, List.nodup_cons] at h
    rw [withLabel_cons]
    by_cases hfirst : first.label = label
    · rw [if_pos hfirst, Option.some.injEq]
      constructor
      · rintro rfl
        exact ⟨List.mem_cons_self, hfirst⟩
      · rintro ⟨hmem, hnode⟩
        rcases List.mem_cons.mp hmem with rfl | hmem
        · rfl
        · exact absurd (List.mem_map.mpr ⟨node, hmem, hnode.trans hfirst.symm⟩) h.1
    · rw [if_neg hfirst, ih h.2, List.mem_cons]
      refine ⟨fun ⟨hmem, hnode⟩ => ⟨.inr hmem, hnode⟩, fun ⟨hmem, hnode⟩ => ⟨?_, hnode⟩⟩
      rcases hmem with rfl | hmem
      · exact absurd hnode hfirst
      · exact hmem

end Esmail.App.Folders
