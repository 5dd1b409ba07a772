/-
# The keys of the folder rows

A row's key is its path with '/' between the labels, and the labels come from a split at a delimiter
that the server chooses.  So a label may hold a '/', and two paths that differ can come to one key.

`keys_nodup_iff` says when no two rows have one, for every reply: exactly where two folders that have the
same labels, once each label is split at '/' as well, are the same folder.  With '/' as every delimiter, and
wherever no label has one in it, that is always so (`keys_nodup_of_slash`, `keys_nodup_of_notMem`).

The rows are the paths of the tree in preorder (`keys_flattenTree`), the paths are different ones
(`nodup_paths`), and they are the folders of the reply (`mem_paths_mailboxTree`); what is left is when a
join can be told apart (`keyOf_eq_iff`).

An empty label is the one special case: only the last one of a path can be empty, as the others come out of
a split.
-/
import Esmail.Folders.Rows

namespace Esmail.App.Folders

open RustText

/-! ## 1. Paths -/

mutual

/-- The paths of a node and of what is below it. -/
def nodePaths : MailboxNode → List (List String)
  | ⟨label, _, _, children⟩ => [label] :: (paths children).map (label :: ·)
termination_by structural node => node

/-- The paths of all nodes, in preorder. -/
def paths : List MailboxNode → List (List String)
  | [] => []
  | node :: rest => nodePaths node ++ paths rest
termination_by structural nodes => nodes

end

theorem paths_cons (label : String) (fullName : Option String) (specialUse : Option SpecialUse)
    (children rest : List MailboxNode) :
    paths (⟨label, fullName, specialUse, children⟩ :: rest) =
      [label] :: ((paths children).map (label :: ·) ++ paths rest) := rfl

/-- A path begins with the label of a root, and goes on below it. -/
theorem mem_paths {nodes : List MailboxNode} {q : List String} :
    q ∈ paths nodes ↔
      ∃ node ∈ nodes, ∃ rest, q = node.label :: rest ∧ (rest = [] ∨ rest ∈ paths node.children) := by
  induction nodes with
  | nil => simp [paths]
  | cons node nodes ih =>
    obtain ⟨label, fullName, specialUse, children⟩ := node
    rw [paths_cons, List.mem_cons, List.mem_append, ih, List.mem_map]
    constructor
    · rintro (rfl | ⟨rest, hrest, rfl⟩ | ⟨node, hnode, rest, hq, hrest⟩)
      · exact ⟨_, List.mem_cons_self, [], rfl, .inl rfl⟩
      · exact ⟨_, List.mem_cons_self, rest, rfl, .inr hrest⟩
      · exact ⟨node, List.mem_cons_of_mem _ hnode, rest, hq, hrest⟩
    · rintro ⟨node, hnode, rest, hq, hrest⟩
      rcases List.mem_cons.mp hnode with rfl | hnode
      · rcases hrest with rfl | hrest
        · exact .inl hq
        · exact .inr (.inl ⟨rest, hrest, hq.symm⟩)
      · exact .inr (.inr ⟨node, hnode, rest, hq, hrest⟩)

/-- The paths are what the tree has an answer for. -/
theorem mem_paths_iff_lookup : ∀ (q : List String) {nodes : List MailboxNode}, DistinctLabels nodes →
    (q ∈ paths nodes ↔ (lookup q nodes).isSome = true)
  | [], nodes, _ => by
    rw [mem_paths]
    simp [lookup]
  | first :: rest, nodes, .intro hhere hbelow => by
    rw [mem_paths]
    constructor
    · rintro ⟨node, hnode, rest', heq, hrest'⟩
      obtain ⟨rfl, rfl⟩ := List.cons.inj heq
      rw [lookup, (withLabel_eq_some hhere).mpr ⟨hnode, rfl⟩, Option.bind_some]
      split
      · rfl
      · next hne => exact (mem_paths_iff_lookup rest (hbelow node hnode)).mp (hrest'.resolve_left hne)
    · intro h
      obtain ⟨data, hdata⟩ := Option.isSome_iff_exists.mp h
      obtain ⟨node, hfind, hnode⟩ := Option.bind_eq_some_iff.mp hdata
      obtain ⟨hmem, hlabel⟩ := (withLabel_eq_some hhere).mp hfind
      refine ⟨node, hmem, rest, by rw [hlabel], ?_⟩
      by_cases hrest : rest = []
      · exact .inl hrest
      · rw [if_neg hrest] at hnode
        exact .inr ((mem_paths_iff_lookup rest (hbelow node hmem)).mpr (by rw [hnode]; rfl))

/-- No two nodes have the same path. -/
theorem nodup_paths {nodes : List MailboxNode} (h : DistinctLabels nodes) : (paths nodes).Nodup := by
  induction nodes using forest_induction with
  | nil => exact List.nodup_nil
  | cons label fullName specialUse children rest ihchildren ihrest =>
    obtain ⟨hhere, hbelow⟩ := h
    rw [List.map_cons, List.nodup_cons] at hhere
    have hchildren : (paths children).Nodup := ihchildren (hbelow _ List.mem_cons_self)
    have hrest : (paths rest).Nodup :=
      ihrest (.intro hhere.2 fun node hnode => hbelow node (List.mem_cons_of_mem _ hnode))
    have hother : ∀ q ∈ paths rest, ∀ q', q ≠ label :: q' := by
      rintro q hq q' rfl
      obtain ⟨node, hnode, rest', heq, -⟩ := mem_paths.mp hq
      exact hhere.1 (List.mem_map.mpr ⟨node, hnode, (List.cons.inj heq).1.symm⟩)
    rw [paths_cons, List.nodup_cons, List.mem_append, not_or, List.nodup_append]
    refine ⟨⟨?_, fun h => hother _ h [] rfl⟩, ?_, hrest, ?_⟩
    · intro h
      obtain ⟨q, hq, heq⟩ := List.mem_map.mp h
      rw [(List.cons.inj heq).2] at hq
      obtain ⟨_, _, _, hnil, _⟩ := mem_paths.mp hq
      cases hnil
    · exact hchildren.map fun _ _ heq => (List.cons.inj heq).2
    · rintro _ hq q hq' rfl
      obtain ⟨q', -, heq⟩ := List.mem_map.mp hq
      exact hother _ hq' q' heq.symm

/-- The folders of a reply are the paths of its tree. -/
theorem mem_paths_mailboxTree {mailboxes : List MailboxInfo} {q : List String} :
    q ∈ paths (mailboxTree mailboxes) ↔ IsFolder mailboxes q := by
  rw [mem_paths_iff_lookup q (distinctLabels_mailboxTree mailboxes), lookup_mailboxTree,
    isSome_lookup_build]

/-! ## 2. Keys -/

/-- The key of a path. -/
def keyOf (path : List String) : String := String.ofList (join ['/'] (path.map String.toList))

/-- A path, each label split at '/' as well. -/
def slashPieces (path : List String) : List (List Char) :=
  path.flatMap fun label => split '/' label.toList

theorem keyOf_singleton (label : String) : keyOf [label] = label := by
  rw [keyOf, List.map_singleton, join, List.intercalate_singleton, String.ofList_toList]

theorem keyOf_append {parent : List String} (h : parent ≠ []) (label : String) :
    keyOf (parent ++ [label]) = keyOf parent ++ "/" ++ label := by
  have hjoin : join ['/'] ((parent ++ [label]).map String.toList) =
      join ['/'] (parent.map String.toList) ++ ['/'] ++ label.toList := by
    rw [List.map_append, List.map_singleton, join_append (by simpa using h) (by simp)]
    congr 1
    exact List.intercalate_singleton
  rw [keyOf, hjoin, String.ofList_append, String.ofList_append, String.ofList_toList]
  rfl

/-- Two paths have the same key where their labels are the same when split at '/'. -/
theorem keyOf_eq_iff {p q : List String} (hp : p ≠ []) (hq : q ≠ []) :
    keyOf p = keyOf q ↔ slashPieces p = slashPieces q := by
  rw [keyOf, keyOf, String.ofList_inj, join_eq_iff '/' (by simpa using hp) (by simpa using hq),
    List.flatMap_map, List.flatMap_map]
  rfl

theorem ne_nil_of_mem_paths {nodes : List MailboxNode} {q : List String} (h : q ∈ paths nodes) :
    q ≠ [] := by
  rintro rfl
  obtain ⟨_, _, _, hnil, _⟩ := mem_paths.mp h
  cases hnil

theorem paths_eq_nil {nodes : List MailboxNode} (h : paths nodes = []) : nodes = [] := by
  rcases nodes with - | ⟨⟨label, fullName, specialUse, children⟩, rest⟩
  · rfl
  · rw [paths_cons] at h
    cases h

/-- Below a label that is not empty, no key is. -/
theorem nodeKey_ne_empty {parent label : String} (h : label ≠ "") : nodeKey parent label ≠ "" := by
  rw [nodeKey]
  split
  · exact h
  · intro he
    have hempty := congrArg String.toList he
    simp at hempty

/-- The row of a path has its key, if only a last label can be empty. -/
theorem keys_flattenInto (nodes : List MailboxNode) (depth : Nat) {parent : List String}
    (hparent : keyOf parent = "" → parent = [])
    (hlabels : ∀ q ∈ paths nodes, ∀ label ∈ q.dropLast, label ≠ "") :
    (flattenInto depth (keyOf parent) nodes).map MailboxRow.key =
      (paths nodes).map fun q => keyOf (parent ++ q) := by
  induction nodes using forest_induction generalizing depth parent with
  | nil => rfl
  | cons label fullName specialUse children rest ihchildren ihrest =>
    have hkey : nodeKey (keyOf parent) label = keyOf (parent ++ [label]) := by
      by_cases h : parent = []
      · subst h
        rw [nodeKey, if_pos (by rfl), List.nil_append, keyOf_singleton]
      · rw [nodeKey, if_neg fun he => h (hparent he), keyOf_append h]
    have hrest := ihrest depth hparent fun q hq =>
      hlabels q (List.mem_cons_of_mem _ (List.mem_append_right _ hq))
    have hchildren : (flattenInto (depth + 1) (keyOf (parent ++ [label])) children).map
        MailboxRow.key = (paths children).map fun q => keyOf (parent ++ [label] ++ q) := by
      have hbelow : ∀ q ∈ paths children, ∀ l ∈ label :: q.dropLast, l ≠ "" := by
        intro q hq l hl
        refine hlabels (label :: q) ?_ l ?_
        · exact List.mem_cons_of_mem _ (List.mem_append_left _ (List.mem_map_of_mem hq))
        · rwa [List.dropLast_cons_of_ne_nil (ne_nil_of_mem_paths hq)]
      rcases hpaths : paths children with - | ⟨q, qs⟩
      · rw [paths_eq_nil hpaths]
        rfl
      · have hlabel : label ≠ "" :=
          hbelow q (by rw [hpaths]; exact List.mem_cons_self) label List.mem_cons_self
        rw [← hpaths]
        refine ihchildren (depth + 1) (fun he => ?_) fun q' hq' l hl => ?_
        · rw [← hkey] at he
          exact absurd he (nodeKey_ne_empty hlabel)
        · exact hbelow q' hq' l (List.mem_cons_of_mem _ hl)
    rw [flattenInto_cons, paths_cons, List.map_cons, List.map_cons, List.map_append, List.map_append,
      hrest, hkey, hchildren, List.map_map]
    refine congrArg₂ List.cons rfl (congrArg₂ (· ++ ·) ?_ rfl)
    refine List.map_congr_left fun q _ => ?_
    rw [Function.comp_apply, List.append_assoc, List.singleton_append]

/-! ## 3. The keys of a reply -/

/-- A label that is not the only one of its path came out of a split, and is not empty. -/
theorem ne_empty_of_mem_segments {mb : MailboxInfo} (hlong : 2 ≤ (segments mb).length) {label : String}
    (hlabel : label ∈ segments mb) : label ≠ "" := by
  rw [segments] at hlong hlabel
  split at hlabel
  · obtain ⟨piece, hpiece, rfl⟩ := List.mem_map.mp hlabel
    have hne : piece ≠ [] := by simpa using (List.mem_filter.mp hpiece).2
    intro he
    have hempty := congrArg String.toList he
    rw [String.toList_ofList] at hempty
    exact hne hempty
  · next hnone =>
    rw [hnone] at hlong
    exact absurd hlong (by simp)

theorem IsFolder.ne_empty {mailboxes : List MailboxInfo} {q : List String} (h : IsFolder mailboxes q)
    {label : String} (hlabel : label ∈ q.dropLast) : label ≠ "" := by
  obtain ⟨-, mb, -, hpre⟩ := h
  have hlong : 2 ≤ q.length := by
    have hpos := List.length_pos_of_mem hlabel
    rw [List.length_dropLast] at hpos
    omega
  exact ne_empty_of_mem_segments (hlong.trans hpre.length_le)
    (hpre.subset (List.dropLast_subset q hlabel))

/-- The keys of the rows are those of the paths, in preorder. -/
theorem keys_flattenTree (mailboxes : List MailboxInfo) :
    (flattenTree (mailboxTree mailboxes)).map MailboxRow.key =
      (paths (mailboxTree mailboxes)).map keyOf := by
  have hroot : keyOf [] = "" → ([] : List String) = [] := fun _ => rfl
  exact keys_flattenInto (mailboxTree mailboxes) 0 hroot fun q hq label hlabel =>
    (mem_paths_mailboxTree.mp hq).ne_empty hlabel

/-- The rows have different keys exactly where no two folders of the reply become the same when their
labels are split at '/'.  A folder here is any prefix of a mailbox's path, as each of them has a row. -/
theorem keys_nodup_iff (mailboxes : List MailboxInfo) :
    ((flattenTree (mailboxTree mailboxes)).map MailboxRow.key).Nodup ↔
      ∀ p q, IsFolder mailboxes p → IsFolder mailboxes q → slashPieces p = slashPieces q → p = q := by
  rw [keys_flattenTree, List.nodup_map_iff_inj_on (nodup_paths (distinctLabels_mailboxTree mailboxes))]
  simp only [mem_paths_mailboxTree]
  constructor
  · intro h p q hp hq heq
    exact h p hp q hq ((keyOf_eq_iff hp.1 hq.1).mpr heq)
  · intro h p hp q hq heq
    exact h p q hp hq ((keyOf_eq_iff hp.1 hq.1).mp heq)

/-- A label with the separator of the keys: one folder, and a folder in another. -/
theorem keys_collide :
    ¬ ∀ mailboxes : List MailboxInfo, (mailboxes.map segments).Nodup →
      ((flattenTree (mailboxTree mailboxes)).map MailboxRow.key).Nodup := by
  intro h
  have hkeys := h [⟨"a/b", some ".", none, false⟩, ⟨"a.b", some ".", none, false⟩] (by decide)
  revert hkeys
  decide

/-- Labels without a '/' have different keys, -/
theorem keys_nodup_of_notMem {mailboxes : List MailboxInfo}
    (h : ∀ mb ∈ mailboxes, ∀ label ∈ segments mb, '/' ∉ label.toList) :
    ((flattenTree (mailboxTree mailboxes)).map MailboxRow.key).Nodup := by
  have hpieces : ∀ p, IsFolder mailboxes p → slashPieces p = p.map String.toList := by
    rintro p ⟨-, mb, hmb, hpre⟩
    have hsplit : ∀ label ∈ p, split '/' label.toList = [label.toList] := fun label hlabel =>
      split_self (h mb hmb label (hpre.subset hlabel))
    clear hpre
    induction p with
    | nil => rfl
    | cons label p ih =>
      rw [slashPieces, List.flatMap_cons, hsplit label List.mem_cons_self]
      exact congrArg (label.toList :: ·) (ih fun l hl => hsplit l (List.mem_cons_of_mem _ hl))
  refine (keys_nodup_iff mailboxes).mpr fun p q hp hq heq => ?_
  rw [hpieces p hp, hpieces q hq] at heq
  exact List.map_injective_iff.mpr (fun _ _ h => String.toList_inj.mp h) heq

/-- and with '/' as the delimiter there are no others. -/
theorem keys_nodup_of_slash {mailboxes : List MailboxInfo}
    (h : ∀ mb ∈ mailboxes, mb.delimiter = some "/") :
    ((flattenTree (mailboxTree mailboxes)).map MailboxRow.key).Nodup := by
  refine keys_nodup_of_notMem fun mb hmb label hlabel => ?_
  have hfilter : (some "/").filter (fun d : String => d ≠ "") = some "/" := by decide
  rw [segments, h mb hmb, hfilter] at hlabel
  obtain ⟨piece, hpiece, rfl⟩ := List.mem_map.mp hlabel
  rw [String.toList_ofList]
  have hslash : "/".toList = ['/'] := by decide
  rw [hslash, splitText_singleton] at hpiece
  exact not_mem_split (List.mem_filter.mp hpiece).1

end Esmail.App.Folders
