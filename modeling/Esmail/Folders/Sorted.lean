/-
# What the folder tree holds, and in which order

`mailbox_tree` of `imap.rs` puts the mailboxes of a LIST reply into a tree, path by path, and sorts every
list of siblings: the special folders first, then by the label in lower case.

`mailboxTree_complete` is about every reply: each mailbox that can be selected and has a path stands in
the tree once, at its path, and nothing else does; siblings have different labels and are sorted; and
where no two siblings have the same rank and the same label in lower case, the order of the reply plays no
part.

The parts come from three lemmas about the functions of the tree: an insertion adds the mailbox at its
path and moves no other (`places_insertPath`), the sort moves none (`places_sortTree`), and two sorted
trees that say the same of every path are the same, if one of them has no ties (`ext_of_lookup`).

A name of nothing but delimiters has no path; `insert_path` passes it over (`root_not_held`).  With ties the
sort is stable, and the order of the reply is seen.
-/
import Esmail.Folders.Tree

namespace Esmail.App.Folders

open RustText

/-! ## 1. The sort -/

theorem sortNode_eq (node : MailboxNode) :
    sortNode node = { node with children := sortTree node.children } := by
  cases node
  rfl

@[simp] theorem label_sortNode (node : MailboxNode) : (sortNode node).label = node.label := by
  rw [sortNode_eq]

@[simp] theorem fullName_sortNode (node : MailboxNode) :
    (sortNode node).fullName = node.fullName := by
  rw [sortNode_eq]

@[simp] theorem specialUse_sortNode (node : MailboxNode) :
    (sortNode node).specialUse = node.specialUse := by
  rw [sortNode_eq]

@[simp] theorem children_sortNode (node : MailboxNode) :
    (sortNode node).children = sortTree node.children := by
  rw [sortNode_eq]

@[simp] theorem sortKey_sortNode (node : MailboxNode) : sortKey (sortNode node) = sortKey node := by
  rw [sortNode_eq]
  rfl

theorem sortTree_cons (node : MailboxNode) (rest : List MailboxNode) :
    sortTree (node :: rest) =
      List.orderedInsert (fun a b => sortKey a ≤ sortKey b) (sortNode node) (sortTree rest) := rfl

/-- The siblings are sorted, and then what is below each of them. -/
theorem sortTree_eq (nodes : List MailboxNode) :
    sortTree nodes = (nodes.insertionSort fun a b => sortKey a ≤ sortKey b).map sortNode := by
  induction nodes with
  | nil => rfl
  | cons node rest ih =>
    rw [sortTree_cons, ih, List.insertionSort_cons]
    exact (List.map_orderedInsert _ _ sortNode _ _ (by simp) (by simp)).symm

theorem sortTree_perm (nodes : List MailboxNode) : (sortTree nodes).Perm (nodes.map sortNode) := by
  rw [sortTree_eq]
  exact (List.perm_insertionSort _ _).map sortNode

theorem mem_sortTree {nodes : List MailboxNode} {node : MailboxNode} :
    node ∈ sortTree nodes ↔ ∃ n ∈ nodes, sortNode n = node := by
  rw [(sortTree_perm nodes).mem_iff, List.mem_map]

/-- Every list of siblings is sorted by key. -/
theorem everywhere_sorted (nodes : List MailboxNode) :
    Everywhere (fun siblings => siblings.Pairwise fun a b => sortKey a ≤ sortKey b)
      (sortTree nodes) := by
  induction nodes using forest_induction with
  | nil => exact .intro List.Pairwise.nil fun _ h => absurd h List.not_mem_nil
  | cons label fullName specialUse children rest ihchildren ihrest =>
    obtain ⟨hhere, hbelow⟩ := ihrest
    rw [sortTree_cons]
    constructor
    · exact List.Pairwise.orderedInsert _ _ hhere
    · intro n hn
      rcases List.mem_cons.mp ((List.perm_orderedInsert _ _ _).mem_iff.mp hn) with rfl | hn
      · exact ihchildren
      · exact hbelow n hn

theorem DistinctLabels.sortTree {nodes : List MailboxNode} (h : DistinctLabels nodes) :
    DistinctLabels (sortTree nodes) := by
  induction h with
  | intro hhere _ ih =>
    constructor
    · rw [((sortTree_perm _).map _).nodup_iff, List.map_map]
      simpa only [Function.comp_def, label_sortNode] using hhere
    · intro node hnode
      obtain ⟨n, hn, rfl⟩ := mem_sortTree.mp hnode
      rw [children_sortNode]
      exact ih n hn

/-- The sort moves no mailbox to another path. -/
theorem lookup_sortTree : ∀ (q : List String) {nodes : List MailboxNode}, DistinctLabels nodes →
    lookup q (sortTree nodes) = lookup q nodes
  | [], _, _ => rfl
  | first :: rest, nodes, h => by
    obtain ⟨hhere', -⟩ := h.sortTree
    obtain ⟨hhere, hbelow⟩ := h
    rw [lookup, lookup]
    rcases hfind : withLabel first nodes with - | node
    · have hnone : withLabel first (sortTree nodes) = none := by
        rw [Option.eq_none_iff_forall_ne_some] at hfind ⊢
        intro node' hnode'
        obtain ⟨hmem, hlabel⟩ := (withLabel_eq_some hhere').mp hnode'
        obtain ⟨n, hn, rfl⟩ := mem_sortTree.mp hmem
        exact hfind n ((withLabel_eq_some hhere).mpr ⟨hn, (label_sortNode n).symm.trans hlabel⟩)
      rw [hnone, Option.bind_none]
    · obtain ⟨hmem, hlabel⟩ := (withLabel_eq_some hhere).mp hfind
      have hsome : withLabel first (sortTree nodes) = some (sortNode node) :=
        (withLabel_eq_some hhere').mpr
          ⟨mem_sortTree.mpr ⟨node, hmem, rfl⟩, (label_sortNode node).trans hlabel⟩
      rw [hsome, Option.bind_some, Option.bind_some, children_sortNode,
        fullName_sortNode, specialUse_sortNode, lookup_sortTree rest (hbelow node hmem)]

/-! ## 2. A tree is what it says -/

/-- A node of a tree is a node of another that says the same, where what is below the two agrees. -/
theorem exists_node {a b : List MailboxNode} (ha : (a.map MailboxNode.label).Nodup)
    (hb : (b.map MailboxNode.label).Nodup) (h : ∀ q, lookup q a = lookup q b) {node : MailboxNode}
    (hnode : node ∈ a) :
    ∃ other ∈ b, other.label = node.label ∧ other.fullName = node.fullName ∧
      other.specialUse = node.specialUse ∧ ∀ q, lookup q node.children = lookup q other.children := by
  have hfind : withLabel node.label a = some node := (withLabel_eq_some ha).mpr ⟨hnode, rfl⟩
  have hhere := h [node.label]
  rw [lookup_singleton, lookup_singleton, hfind, Option.map_some] at hhere
  obtain ⟨other, hother, hdata⟩ := Option.map_eq_some_iff.mp hhere.symm
  obtain ⟨hmem, hlabel⟩ := (withLabel_eq_some hb).mp hother
  refine ⟨other, hmem, hlabel, congrArg Prod.fst hdata, congrArg Prod.snd hdata, fun q => ?_⟩
  by_cases hq : q = []
  · subst hq
    rfl
  · have hbelow := h (node.label :: q)
    rwa [lookup_cons hq, lookup_cons hq, nodeAt, nodeAt, hfind, hother] at hbelow

/-- Two sorted trees that say the same are the same, if one of them has no ties. -/
theorem ext_of_lookup {a b : List MailboxNode} (ha : DistinctLabels a) (hb : DistinctLabels b)
    (hsorted : Everywhere (fun siblings => siblings.Pairwise fun x y => sortKey x < sortKey y) a)
    (hsorted' : Everywhere (fun siblings => siblings.Pairwise fun x y => sortKey x ≤ sortKey y) b)
    (h : ∀ q, lookup q a = lookup q b) : a = b := by
  induction hsorted generalizing b with
  | @intro a hhere hbelow ih =>
    obtain ⟨hdistinct, hdistincts⟩ := ha
    obtain ⟨hdistinct', hdistincts'⟩ := hb
    obtain ⟨hhere', hbelow'⟩ := hsorted'
    have hsame : ∀ x ∈ a, ∀ y ∈ b, y.label = x.label → y.fullName = x.fullName →
        y.specialUse = x.specialUse → (∀ q, lookup q x.children = lookup q y.children) → x = y := by
      rintro ⟨label, fullName, specialUse, children⟩ hx ⟨_, _, _, children'⟩ hy rfl rfl rfl hchildren
      have heq := ih _ hx (hdistincts _ hx) (hdistincts' _ hy) (hbelow' _ hy) hchildren
      simp only at heq
      rw [heq]
    have hmem : ∀ x, x ∈ a ↔ x ∈ b := by
      intro x
      constructor
      · intro hx
        obtain ⟨y, hy, hlabel, hname, huse, hchildren⟩ := exists_node hdistinct hdistinct' h hx
        rwa [hsame x hx y hy hlabel hname huse hchildren]
      · intro hx
        obtain ⟨y, hy, hlabel, hname, huse, hchildren⟩ :=
          exists_node hdistinct' hdistinct (fun q => (h q).symm) hx
        rwa [← hsame y hy x hx hlabel.symm hname.symm huse.symm fun q => (hchildren q).symm]
    have hperm : a.Perm b :=
      (List.perm_ext_iff_of_nodup (List.Nodup.of_map _ hdistinct) (List.Nodup.of_map _ hdistinct')).mpr
        hmem
    have hstrict : ∀ x ∈ a, ∀ y ∈ a, sortKey x ≤ sortKey y → sortKey y ≤ sortKey x → x = y := by
      intro x hx y hy hxy hyx
      have hsymm : Std.Symm fun x y : MailboxNode => sortKey x ≠ sortKey y := ⟨fun _ _ h => h.symm⟩
      have hties : a.Pairwise fun x y => sortKey x ≠ sortKey y := hhere.imp fun hlt => ne_of_lt hlt
      by_contra hne
      exact hties.forall hx hy hne (le_antisymm hxy hyx)
    exact List.Perm.eq_of_pairwise
      (fun x y hx hy hxy hyx => hstrict x hx y (hperm.mem_iff.mpr hy) hxy hyx)
      (hhere.imp fun hlt => le_of_lt hlt) hhere' hperm

/-! ## 3. Where the mailboxes are -/

mutual

/-- The mailboxes of a node and below it, each with its path. -/
def nodePlaces (parent : List String) : MailboxNode → List (List String × String)
  | ⟨label, fullName, _, children⟩ =>
    fullName.toList.map (parent ++ [label], ·) ++ places (parent ++ [label]) children
termination_by structural node => node

/-- The mailboxes that a tree holds and that can be selected, each with its path. -/
def places (parent : List String) : List MailboxNode → List (List String × String)
  | [] => []
  | node :: rest => nodePlaces parent node ++ places parent rest
termination_by structural nodes => nodes

end

theorem nodePlaces_eq (parent : List String) (node : MailboxNode) :
    nodePlaces parent node = node.fullName.toList.map (parent ++ [node.label], ·) ++
      places (parent ++ [node.label]) node.children := by
  cases node
  rfl

theorem places_cons (parent : List String) (node : MailboxNode) (rest : List MailboxNode) :
    places parent (node :: rest) = nodePlaces parent node ++ places parent rest := rfl

theorem places_perm {a b : List MailboxNode} (h : a.Perm b) (parent : List String) :
    (places parent a).Perm (places parent b) := by
  induction h with
  | nil => exact .refl _
  | cons node _ ih => exact ih.append_left _
  | swap x y l =>
    rw [places_cons, places_cons, places_cons, places_cons, ← List.append_assoc, ← List.append_assoc]
    exact List.perm_append_comm.append_right _
  | trans _ _ ih ih' => exact ih.trans ih'

/-- The sort moves no mailbox to another path. -/
theorem places_sortTree (parent : List String) (nodes : List MailboxNode) :
    (places parent (sortTree nodes)).Perm (places parent nodes) := by
  induction nodes using forest_induction generalizing parent with
  | nil => exact .refl _
  | cons label fullName specialUse children rest ihchildren ihrest =>
    rw [sortTree_cons]
    refine (places_perm (List.perm_orderedInsert _ _ _) parent).trans ?_
    rw [places_cons, places_cons, nodePlaces_eq, nodePlaces_eq, children_sortNode, label_sortNode,
      fullName_sortNode]
    exact ((ihchildren (parent ++ [label])).append_left _).append (ihrest parent)

/-- What is put into a node comes to what the tree holds. -/
theorem places_updateLabel {parent : List String} {label : String} {f : MailboxNode → MailboxNode}
    {new : List (List String × String)} {nodes : List MailboxNode}
    (hf : (nodePlaces parent (f (nodeAt label nodes))).Perm
      (nodePlaces parent (nodeAt label nodes) ++ new)) :
    (places parent (updateLabel label f nodes)).Perm (places parent nodes ++ new) := by
  induction nodes with
  | nil =>
    rw [updateLabel, places_cons, places, List.append_nil]
    exact hf
  | cons first rest ih =>
    rw [nodeAt, withLabel_cons] at hf
    rw [updateLabel]
    by_cases hfirst : first.label = label
    · rw [if_pos hfirst] at hf ⊢
      rw [places_cons, places_cons]
      refine (hf.append_right _).trans ?_
      rw [Option.getD_some, List.append_assoc, List.append_assoc]
      exact List.perm_append_comm.append_left _
    · rw [if_neg hfirst] at hf ⊢
      rw [places_cons, places_cons, List.append_assoc]
      exact (ih hf).append_left _

/-- An insertion adds the mailbox, if it can be selected and has a path, where none was. -/
theorem places_insertPath (fullName : String) (specialUse : Option SpecialUse) (noselect : Bool) :
    ∀ (path parent : List String) (nodes : List MailboxNode), path ≠ [] →
      ((lookup path nodes).getD (none, none)).1 = none →
        (places parent (insertPath fullName specialUse noselect path nodes)).Perm
          (places parent nodes ++ if noselect then [] else [(parent ++ path, fullName)])
  | [], _, _, hpath, _ => absurd rfl hpath
  | first :: rest, parent, nodes, _, hnone => by
    have hlabel : (nodeAt first nodes).label = first := by
      rw [nodeAt]
      rcases hfind : withLabel first nodes with - | node
      · rfl
      · simpa using List.find?_some hfind
    rw [insertPath_cons]
    refine places_updateLabel ?_
    rw [nodePlaces_eq, nodePlaces_eq, label_place, place, hlabel]
    by_cases hrest : rest = []
    · subst hrest
      rw [getD_lookup_singleton] at hnone
      rw [if_pos rfl]
      simp only at hnone
      simp only [hnone, Option.toList_none, List.map_nil, List.nil_append]
      rcases noselect with - | -
      · exact List.perm_append_comm
      · simp
    · rw [lookup_cons hrest] at hnone
      have hbelow := places_insertPath fullName specialUse noselect rest (parent ++ [first])
        (nodeAt first nodes).children hrest hnone
      rw [List.append_assoc, List.singleton_append] at hbelow
      rw [if_neg hrest, List.append_assoc]
      exact hbelow.append_left _

/-- A mailbox of a reply that the tree can hold: it can be selected, and has a path. -/
def Held (mb : MailboxInfo) : Bool := !mb.noselect && segments mb ≠ []

/-- The mailboxes of a reply, each at its path. -/
theorem places_build {mailboxes : List MailboxInfo} (hpaths : (mailboxes.map segments).Nodup) :
    (places [] (build mailboxes)).Perm
      ((mailboxes.filter Held).map fun mb => (segments mb, mb.name)) := by
  induction mailboxes using List.reverseRecOn with
  | nil => exact .refl _
  | append_singleton mailboxes mb ih =>
    rw [List.map_append, List.map_singleton] at hpaths
    have hfirst := ih hpaths.of_append_left
    rw [build_append, List.filter_append, List.map_append]
    by_cases hpath : segments mb = []
    · have hheld : Held mb = false := by simp [Held, hpath]
      rw [hpath, insertPath, List.filter_cons_of_neg (by simp [hheld])]
      simpa using hfirst
    · have hlast : ∀ mb' ∈ mailboxes, segments mb' ≠ segments mb := by
        intro mb' h
        exact (List.nodup_append.mp hpaths).2.2 _ (List.mem_map_of_mem h) _ (by simp)
      refine (places_insertPath mb.name mb.specialUse mb.noselect _ [] _ hpath
        (getD_lookup_build hpath hlast)).trans ?_
      refine hfirst.append ?_
      rcases hns : mb.noselect with - | -
      · rw [List.filter_cons_of_pos (by simp [Held, hns, hpath])]
        exact .refl _
      · rw [List.filter_cons_of_neg (by simp [Held, hns])]
        exact .refl _

/-! ## 4. The tree of a reply -/

theorem distinctLabels_mailboxTree (mailboxes : List MailboxInfo) :
    DistinctLabels (mailboxTree mailboxes) :=
  (distinctLabels_build mailboxes).sortTree

theorem lookup_mailboxTree (mailboxes : List MailboxInfo) (q : List String) :
    lookup q (mailboxTree mailboxes) = lookup q (build mailboxes) :=
  lookup_sortTree q (distinctLabels_build mailboxes)

theorem Everywhere.and {P Q : List MailboxNode → Prop} {nodes : List MailboxNode}
    (hp : Everywhere P nodes) (hq : Everywhere Q nodes) :
    Everywhere (fun siblings => P siblings ∧ Q siblings) nodes := by
  induction hp with
  | intro hhere _ ih =>
    obtain ⟨hhere', hbelow'⟩ := hq
    exact ⟨⟨hhere, hhere'⟩, fun node hnode => ih node hnode (hbelow' node hnode)⟩

theorem Everywhere.imp {P Q : List MailboxNode → Prop} (h : ∀ siblings, P siblings → Q siblings)
    {nodes : List MailboxNode} (hp : Everywhere P nodes) : Everywhere Q nodes := by
  induction hp with
  | intro hhere _ ih => exact ⟨h _ hhere, ih⟩

/-- No two siblings have the same rank and the same label in lower case, anywhere. -/
def NoTies (nodes : List MailboxNode) : Prop :=
  Everywhere (fun siblings => siblings.Pairwise fun x y => sortKey x ≠ sortKey y) nodes

/-- Without ties, the order of the reply plays no part. -/
theorem mailboxTree_perm {mailboxes mailboxes' : List MailboxInfo} (hperm : mailboxes.Perm mailboxes')
    (hpaths : (mailboxes.map segments).Nodup) (hties : NoTies (mailboxTree mailboxes)) :
    mailboxTree mailboxes' = mailboxTree mailboxes := by
  have hstrict : Everywhere (fun siblings => siblings.Pairwise fun x y => sortKey x < sortKey y)
      (mailboxTree mailboxes) :=
    ((everywhere_sorted (build mailboxes)).and hties).imp fun siblings h =>
      (h.1.and h.2).imp fun hlt => lt_of_le_of_ne hlt.1 hlt.2
  refine (ext_of_lookup (distinctLabels_mailboxTree mailboxes) (distinctLabels_mailboxTree mailboxes')
    hstrict (everywhere_sorted (build mailboxes')) fun q => ?_).symm
  rw [lookup_mailboxTree, lookup_mailboxTree, lookup_build_perm hperm hpaths]

/-- The tree holds each mailbox that can be selected and has a path once, at its path; siblings have
different labels and are sorted; and without ties the order of the reply plays no part.

`hpaths` is what is asked of a reply: no two mailboxes in it have one path. -/
theorem mailboxTree_complete (mailboxes : List MailboxInfo) (hpaths : (mailboxes.map segments).Nodup) :
    (places [] (mailboxTree mailboxes)).Perm
        ((mailboxes.filter Held).map fun mb => (segments mb, mb.name)) ∧
      DistinctLabels (mailboxTree mailboxes) ∧
      Everywhere (fun siblings => siblings.Pairwise fun a b => sortKey a ≤ sortKey b)
        (mailboxTree mailboxes) ∧
      (NoTies (mailboxTree mailboxes) →
        ∀ mailboxes', mailboxes.Perm mailboxes' → mailboxTree mailboxes' = mailboxTree mailboxes) :=
  ⟨(places_sortTree [] (build mailboxes)).trans (places_build hpaths),
    distinctLabels_mailboxTree mailboxes, everywhere_sorted (build mailboxes),
    fun hties _ hperm => mailboxTree_perm hperm hpaths hties⟩

/-- A mailbox of a deeper path than its parent's, which comes after it. -/
theorem mailboxTree_complete_nested :
    (places [] (mailboxTree [⟨"Work/b", some "/", none, false⟩, ⟨"Work", some "/", none, true⟩])).Perm
      [(["Work", "b"], "Work/b")] :=
  (mailboxTree_complete [⟨"Work/b", some "/", none, false⟩, ⟨"Work", some "/", none, true⟩]
    (by decide)).1

/-- A name of nothing but delimiters has no path, and no node. -/
theorem root_not_held :
    ¬ ∀ mailboxes : List MailboxInfo, (mailboxes.map segments).Nodup →
      (places [] (mailboxTree mailboxes)).Perm
        ((mailboxes.filter fun mb => !mb.noselect).map fun mb => (segments mb, mb.name)) := by
  intro h
  have hperm := h [⟨"/", some "/", none, false⟩] (List.nodup_singleton _)
  have hlength := hperm.length_eq
  revert hlength
  decide

end Esmail.App.Folders
