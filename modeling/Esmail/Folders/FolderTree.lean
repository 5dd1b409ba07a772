/-
# The accounts and their folders

`FolderTree` of `core_glue/folders.rs`: what the native tree view asks for its children, node by node,
and hands ids back to.  A node's id is the account's index and a hash of the folder's key, so a folder
keeps its id when others come and go.

`reproduces` is what the view depends on, of any accounts and any rows of theirs: asked from the root
down, the tree lists every account and every row once and in order; a row is marked as one with children
where there are some to list; and an id leads back to its account and mailbox, before and after any
refreshes.

The children of a node are found by a scan over the flat rows, by depth.  The rows of an account are
always those of some tree (`AccountFolders.ofTree`), so they are an outline (`Library/Outline.lean`), and
the induction is on that outline and not on the rows (`enumerate_outline`).

Two things are assumed of the tree: at most 2^31 accounts, as the index is packed into an `i64`; and that
no two rows of an account have the same hash.  The second is more than that FNV does not collide:
`Keys.lean` has two folders of one key.  `ids_collide` shows what becomes of either.
-/
import Mathlib.Algebra.Order.BigOperators.Group.List
import Mathlib.Algebra.Order.Group.Nat
import Mathlib.Data.List.Nodup
import Esmail.Folders.Keys
import Esmail.Library.Table

namespace Esmail.App.Folders

/-! ## 1. Ids -/

/-- `NodeId`, an `i64`. -/
abbrev NodeId := BitVec 64

/-- `FOLDER_BITS`. -/
def folderBits : Nat := 32

/-- `make_id`. -/
def makeId (account : Nat) (folder : UInt32) : NodeId :=
  BitVec.ofNat 64 account <<< folderBits ||| folder.toBitVec.setWidth 64

/-- `split_id`: the shift keeps the sign. -/
def splitId (id : NodeId) : Nat × UInt32 :=
  ((id.sshiftRight folderBits).toNat,
    .ofBitVec ((id &&& ((1 : NodeId) <<< folderBits - 1)).setWidth 32))

/-- `folder_hash`: FNV-1a of the bytes of the key, never 0. -/
def folderHash (key : String) : UInt32 :=
  max ((key.toList.flatMap String.utf8EncodeChar).foldl
    (fun hash byte => (hash ^^^ byte.toUInt32) * 0x01000193) 0x811c9dc5) 1

theorem folderHash_ne_zero (key : String) : folderHash key ≠ 0 := by
  have hmax : ∀ a : UInt32, max a 1 = if a ≤ 1 then 1 else a := fun _ => rfl
  rw [folderHash, hmax]
  split
  · decide
  · next hle =>
    intro h
    rw [h] at hle
    exact hle (by decide)

theorem toNat_makeId {account : Nat} (h : account < 2 ^ 31) (folder : UInt32) :
    (makeId account folder).toNat = account <<< 32 + folder.toNat := by
  have hfolder : folder.toNat < 2 ^ 32 := folder.toNat_lt
  have hshift : account <<< 32 < 2 ^ 64 := by
    rw [Nat.shiftLeft_eq]
    omega
  rw [makeId, BitVec.toNat_or, BitVec.toNat_shiftLeft, BitVec.toNat_ofNat, BitVec.toNat_setWidth,
    UInt32.toNat_toBitVec, Nat.mod_eq_of_lt (by omega : account < 2 ^ 64), folderBits,
    Nat.mod_eq_of_lt hshift, Nat.mod_eq_of_lt (by omega), Nat.shiftLeft_add_eq_or_of_lt hfolder]

/-- `split_id` inverts `make_id`, for an account whose index is not a sign. -/
theorem splitId_makeId {account : Nat} (h : account < 2 ^ 31) (folder : UInt32) :
    splitId (makeId account folder) = (account, folder) := by
  have hfolder : folder.toNat < 2 ^ 32 := folder.toNat_lt
  have hid := toNat_makeId h folder
  rw [Nat.shiftLeft_eq] at hid
  refine Prod.ext ?_ ?_
  · have hmsb : (makeId account folder).msb = false := by
      rw [BitVec.msb_eq_false_iff_two_mul_lt, hid]
      omega
    rw [splitId, BitVec.sshiftRight_eq_of_msb_false hmsb, BitVec.toNat_ushiftRight, hid, folderBits,
      Nat.shiftRight_eq_div_pow]
    omega
  · have hmask : ((1 : NodeId) <<< folderBits - 1).toNat = 2 ^ 32 - 1 := by decide
    apply UInt32.toNat_inj.mp
    change (splitId (makeId account folder)).2.toNat = folder.toNat
    rw [splitId, UInt32.toNat_ofBitVec, BitVec.toNat_setWidth, BitVec.toNat_and, hmask,
      Nat.and_two_pow_sub_one_eq_mod, hid]
    omega

/-! ## 2. The tree -/

/-- `Node`. -/
structure Node where
  text : String
  id : NodeId
  hasChildren : Bool
  deriving DecidableEq

/-- `FolderRef`. -/
structure FolderRef where
  account : Nat
  mailbox : String
  deriving DecidableEq, Repr

/-- `AccountFolders`.  The rows are only ever those of a tree. -/
structure AccountFolders where
  label : String
  rows : List MailboxRow
  unread : Table String Nat
  ofTree : ∃ nodes, rows = flattenTree nodes

namespace AccountFolders

/-- An account whose folders have not arrived. -/
def ofLabel (label : String) : AccountFolders := ⟨label, [], Table.empty, [], rfl⟩

/-- The rows of a fresh LIST reply. -/
def setRows (entry : AccountFolders) (mailboxes : List MailboxInfo) : AccountFolders :=
  { entry with rows := flattenTree (mailboxTree mailboxes), ofTree := ⟨_, rfl⟩ }

/-- `folder_text`: the count stands beside the label where there is something to count. -/
def folderText (entry : AccountFolders) (row : MailboxRow) : String :=
  match row.fullName.bind entry.unread.lookup with
  | some count => if 0 < count then row.label ++ " (" ++ toString count ++ ")" else row.label
  | none => row.label

/-- The node of a row. -/
def folderNode (entry : AccountFolders) (account : Nat) (row : MailboxRow) : Node :=
  ⟨entry.folderText row, makeId account (folderHash row.key), row.hasChildren⟩

/-- `account_node`. -/
def accountNode (entry : AccountFolders) (account : Nat) : Node := ⟨entry.label, makeId account 0, true⟩

/-- The first row of a hash. -/
def rowOf (entry : AccountFolders) (folder : UInt32) : Option MailboxRow :=
  entry.rows.find? fun row => folderHash row.key = folder

/-- Where the children of a node begin among the rows, and how deep they are. -/
def childrenFrom (entry : AccountFolders) (folder : UInt32) : Option (Nat × Nat) :=
  if folder = 0 then some (0, 0)
  else
    (entry.rows.findIdx? fun row => folderHash row.key = folder).bind fun index =>
      entry.rows[index]?.map fun row => (index + 1, row.depth + 1)

/-- The rows of a depth, up to one that is not as deep. -/
def childRows (entry : AccountFolders) (start depth : Nat) : List MailboxRow :=
  ((entry.rows.drop start).takeWhile fun row => depth ≤ row.depth).filter fun row => row.depth = depth

end AccountFolders

/-- `FolderTree`. -/
structure FolderTree where
  accounts : List AccountFolders

namespace FolderTree

/-- `FolderTree::new`. -/
def new (labels : List String) : FolderTree := ⟨labels.map .ofLabel⟩

/-- `has_folders`. -/
def hasFolders (t : FolderTree) (account : Nat) : Bool :=
  t.accounts[account]?.any fun entry => !entry.rows.isEmpty

/-- `set_mailboxes`. -/
def setMailboxes (t : FolderTree) (account : Nat) (mailboxes : List MailboxInfo) : FolderTree :=
  ⟨t.accounts.modify account fun entry => entry.setRows mailboxes⟩

/-- `set_cached_mailboxes`. -/
def setCachedMailboxes (t : FolderTree) (account : Nat) (names : List String) : FolderTree :=
  if t.hasFolders account then t
  else
    t.setMailboxes account <| names.map fun name =>
      { name := name
        delimiter := none
        specialUse :=
          if RustText.eqIgnoreAsciiCase name.toList "INBOX".toList then some .inbox else none
        noselect := false }

/-- `set_unread`: the counts of a batch replace those of the same folders. -/
def setUnread (t : FolderTree) (account : Nat) (unread : Table String Nat) : FolderTree :=
  ⟨t.accounts.modify account fun entry =>
    { entry with unread := unread.rows.foldl (fun counts r => counts.upsert r.1 r.2) entry.unread }⟩

/-- `children`. -/
def children (t : FolderTree) (parent : Option NodeId) : List Node :=
  match parent with
  | none => t.accounts.zipIdx.map fun x => x.1.accountNode x.2
  | some parent =>
    match t.accounts[(splitId parent).1]? with
    | none => []
    | some entry =>
      match entry.childrenFrom (splitId parent).2 with
      | none => []
      | some (start, depth) => (entry.childRows start depth).map (entry.folderNode (splitId parent).1)

/-- `selection`. -/
def selection (t : FolderTree) (id : NodeId) : Option FolderRef :=
  if (splitId id).2 = 0 then none
  else
    t.accounts[(splitId id).1]?.bind fun entry =>
      (entry.rowOf (splitId id).2).bind fun row => row.fullName.map (FolderRef.mk (splitId id).1)

/-- `rows_with_ids`. -/
def rowsWithIds (t : FolderTree) (account : Nat) : List (NodeId × String × Bool × Nat) :=
  (t.accounts[account]?.map fun entry => entry.rows.map fun row =>
    (makeId account (folderHash row.key), row.key, row.hasChildren, row.depth)).getD []

/-- What is asked of the tree when a node and all below it are shown, `fuel` levels deep. -/
def enumerate (t : FolderTree) : Nat → Option NodeId → List Node
  | 0, _ => []
  | fuel + 1, parent => (t.children parent).flatMap fun node => node :: t.enumerate fuel (some node.id)

/-- Every account, each followed by its rows. -/
def listed (t : FolderTree) : List Node :=
  t.accounts.zipIdx.flatMap fun x => x.1.accountNode x.2 :: x.1.rows.map (x.1.folderNode x.2)

end FolderTree

/-! ## 3. One account -/

namespace AccountFolders

/-- No two rows of an account have the same hash. -/
def HashesDiffer (entry : AccountFolders) : Prop :=
  (entry.rows.map fun row => folderHash row.key).Nodup

variable {entry : AccountFolders} {before after below : List MailboxRow} {row : MailboxRow}

/-- No row before a row has its hash. -/
theorem HashesDiffer.not_before (h : entry.HashesDiffer) (hrows : entry.rows = before ++ row :: after) :
    ∀ other ∈ before, folderHash other.key ≠ folderHash row.key := by
  rw [HashesDiffer, hrows, List.map_append, List.nodup_append] at h
  exact fun other hother =>
    h.2.2 _ (List.mem_map_of_mem hother) _ (List.mem_map_of_mem List.mem_cons_self)

/-- A row is found by its hash. -/
theorem HashesDiffer.rowOf_eq (h : entry.HashesDiffer) (hrow : row ∈ entry.rows) :
    entry.rowOf (folderHash row.key) = some row := by
  obtain ⟨before, after, hrows⟩ := List.append_of_mem hrow
  have hbefore := h.not_before hrows
  rw [rowOf, hrows, List.find?_append, List.find?_eq_none.mpr (by simpa using hbefore)]
  simp

/-- The children of a row begin after it. -/
theorem HashesDiffer.childrenFrom_eq (h : entry.HashesDiffer)
    (hrows : entry.rows = before ++ row :: after) :
    entry.childrenFrom (folderHash row.key) = some (before.length + 1, row.depth + 1) := by
  have hbefore := h.not_before hrows
  have hindex : (entry.rows.findIdx? fun r => folderHash r.key = folderHash row.key) =
      some before.length := by
    rw [hrows, List.findIdx?_append, List.findIdx?_eq_none_iff.mpr (by simpa using hbefore)]
    simp [List.findIdx?_cons]
  rw [childrenFrom, if_neg (folderHash_ne_zero _), hindex, Option.bind_some, hrows,
    List.getElem?_append_right le_rfl, Nat.sub_self]
  rfl

/-- They are the roots of what is below it. -/
theorem childRows_eq (hrows : entry.rows = before ++ row :: (below ++ after))
    (hbelow : Outline MailboxRow.depth (row.depth + 1) below)
    (hafter : Outline.StartsBy MailboxRow.depth row.depth after) :
    entry.childRows (before.length + 1) (row.depth + 1) =
      below.filter fun r => r.depth = row.depth + 1 := by
  have hdrop : entry.rows.drop (before.length + 1) = below ++ after := by
    rw [hrows, List.drop_append, List.drop_eq_nil_of_le (Nat.le_succ _), Nat.add_sub_cancel_left]
    rfl
  rw [childRows, hdrop, hbelow.takeWhile_append hafter]

end AccountFolders

namespace FolderTree

/-- The tree has no two rows of an account with the same hash. -/
def HashesDiffer (t : FolderTree) : Prop := ∀ entry ∈ t.accounts, entry.HashesDiffer

variable {t : FolderTree} {account : Nat} {entry : AccountFolders}

/-- The children of a row are the roots of what is below it. -/
theorem children_folder {before after below : List MailboxRow} {row : MailboxRow}
    (haccount : account < 2 ^ 31) (hentry : t.accounts[account]? = some entry)
    (hhash : entry.HashesDiffer) (hrows : entry.rows = before ++ row :: (below ++ after))
    (hbelow : Outline MailboxRow.depth (row.depth + 1) below)
    (hafter : Outline.StartsBy MailboxRow.depth row.depth after) :
    t.children (some (makeId account (folderHash row.key))) =
      (below.filter fun r => r.depth = row.depth + 1).map (entry.folderNode account) := by
  simp only [children, splitId_makeId haccount, hentry, hhash.childrenFrom_eq hrows,
    AccountFolders.childRows_eq hrows hbelow hafter]

/-- The children of an account are its rows at the top. -/
theorem children_account (haccount : account < 2 ^ 31) (hentry : t.accounts[account]? = some entry) :
    t.children (some (makeId account 0)) =
      (entry.rows.filter fun r => r.depth = 0).map (entry.folderNode account) := by
  have hall : entry.rows.takeWhile (fun r => 0 ≤ r.depth) = entry.rows :=
    List.takeWhile_eq_self_iff.mpr fun r _ => by simp
  simp only [children, splitId_makeId haccount, hentry, AccountFolders.childrenFrom, if_pos,
    AccountFolders.childRows, List.drop_zero, hall]

/-! ## 4. Everything below -/

/-- A part of the rows that is an outline is listed row by row, from its roots down. -/
theorem enumerate_outline (haccount : account < 2 ^ 31) (hentry : t.accounts[account]? = some entry)
    (hhash : entry.HashesDiffer) {depth : Nat} {part : List MailboxRow}
    (hpart : Outline MailboxRow.depth depth part) {before after : List MailboxRow} {fuel : Nat}
    (hrows : entry.rows = before ++ (part ++ after))
    (hafter : Outline.StartsBy MailboxRow.depth depth after) (hfuel : part.length ≤ fuel) :
    ((part.filter fun r => r.depth = depth).map (entry.folderNode account)).flatMap
        (fun node => node :: t.enumerate fuel (some node.id)) =
      part.map (entry.folderNode account) := by
  induction hpart generalizing before after fuel with
  | nil => rfl
  | @node depth row below rest hrow hbelow hrest ihbelow ihrest =>
    subst hrow
    rw [List.length_cons, List.length_append] at hfuel
    rw [List.cons_append, List.append_assoc] at hrows
    have hstarts : Outline.StartsBy MailboxRow.depth row.depth (rest ++ after) :=
      hrest.startsBy.append hafter
    have hbefore : before ++ row :: (below ++ (rest ++ after)) =
        (before ++ [row]) ++ (below ++ (rest ++ after)) := by simp
    have hbefore' : before ++ row :: (below ++ (rest ++ after)) =
        (before ++ row :: below) ++ (rest ++ after) := by simp
    have hhead : t.enumerate fuel (some (entry.folderNode account row).id) =
        below.map (entry.folderNode account) := by
      obtain ⟨fuel, rfl⟩ : ∃ fuel', fuel = fuel' + 1 := ⟨fuel - 1, by omega⟩
      rw [enumerate, AccountFolders.folderNode,
        children_folder haccount hentry hhash hrows hbelow hstarts]
      exact ihbelow (hrows.trans hbefore) (hstarts.mono (Nat.le_succ _)) (by omega)
    have hfuelRest : rest.length ≤ fuel := by omega
    have htail := ihrest (hrows.trans hbefore') hafter hfuelRest
    rw [List.filter_cons_of_pos (by simp), List.filter_append, hbelow.filter_below, List.nil_append,
      List.map_cons, List.flatMap_cons, hhead, htail, List.map_cons, List.map_append, List.cons_append]

/-- An account is listed with all its rows. -/
theorem enumerate_account (haccount : account < 2 ^ 31) (hentry : t.accounts[account]? = some entry)
    (hhash : entry.HashesDiffer) {fuel : Nat} (hfuel : entry.rows.length ≤ fuel) :
    t.enumerate (fuel + 1) (some (makeId account 0)) = entry.rows.map (entry.folderNode account) := by
  obtain ⟨nodes, hnodes⟩ := entry.ofTree
  have houtline : Outline MailboxRow.depth 0 entry.rows := by
    rw [hnodes]
    exact outline_flattenInto nodes 0 ""
  have hrows : entry.rows = [] ++ (entry.rows ++ []) := by simp
  have hnil : Outline.StartsBy MailboxRow.depth 0 ([] : List MailboxRow) :=
    fun _ h => absurd h (by simp)
  rw [enumerate, children_account haccount hentry]
  exact enumerate_outline haccount hentry hhash houtline hrows hnil hfuel

/-- From the root, every account and every row of it is listed once, in order. -/
theorem enumerate_root (haccounts : t.accounts.length ≤ 2 ^ 31) (hhash : t.HashesDiffer) {fuel : Nat}
    (hfuel : ∀ entry ∈ t.accounts, entry.rows.length ≤ fuel) :
    t.enumerate (fuel + 2) none = t.listed := by
  rw [enumerate, children, listed, List.flatMap_map]
  refine List.flatMap_congr fun x hx => ?_
  have hentry : t.accounts[x.2]? = some x.1 := List.mem_zipIdx_iff_getElem?.mp hx
  obtain ⟨hlt, hget⟩ := List.getElem?_eq_some_iff.mp hentry
  have hmem : x.1 ∈ t.accounts := hget ▸ List.getElem_mem hlt
  rw [AccountFolders.accountNode,
    enumerate_account (hlt.trans_le haccounts) hentry (hhash _ hmem) (hfuel _ hmem)]

/-! ## 5. What an id stands for -/

/-- The id of a row is that of its account and its mailbox. -/
theorem selection_folder {row : MailboxRow} (haccount : account < 2 ^ 31)
    (hentry : t.accounts[account]? = some entry) (hhash : entry.HashesDiffer)
    (hrow : row ∈ entry.rows) :
    t.selection (makeId account (folderHash row.key)) = row.fullName.map (FolderRef.mk account) := by
  rw [selection, splitId_makeId haccount, if_neg (folderHash_ne_zero _), hentry, Option.bind_some,
    hhash.rowOf_eq hrow, Option.bind_some]

/-- The id of an account stands for no folder. -/
theorem selection_account (haccount : account < 2 ^ 31) : t.selection (makeId account 0) = none := by
  rw [selection, splitId_makeId haccount, if_pos rfl]

/-- A row is marked as one with children exactly where there are some to list. -/
theorem hasChildren_iff {row : MailboxRow} (haccount : account < 2 ^ 31)
    (hentry : t.accounts[account]? = some entry) (hhash : entry.HashesDiffer)
    (hrow : row ∈ entry.rows) :
    row.hasChildren = true ↔ t.children (some (makeId account (folderHash row.key))) ≠ [] := by
  obtain ⟨nodes, hnodes⟩ := entry.ofTree
  obtain ⟨i, hi⟩ := List.mem_iff_getElem?.mp hrow
  have hplaces : entry.rows = (listing ∅ 0 "" nodes).map Place.row := by
    rw [hnodes, flattenTree, flattenInto_eq]
  rw [hplaces, List.getElem?_map] at hi
  obtain ⟨place, hplace, rfl⟩ := Option.map_eq_some_iff.mp hi
  obtain ⟨-, after, hafter, hdrop⟩ := exists_below nodes 0 "" hplace
  have hlt : i < entry.rows.length := by
    rw [hplaces, List.length_map]
    exact (List.getElem?_eq_some_iff.mp hplace).1
  have hsplit : entry.rows = entry.rows.take i ++ place.row :: (place.below ++ after) := by
    have hget : entry.rows[i] = place.row := by
      simp only [hplaces, List.getElem_map, (List.getElem?_eq_some_iff.mp hplace).2]
    rw [← hdrop, ← flattenTree, ← hnodes, ← hget, List.getElem_cons_drop, List.take_append_drop]
  have hbelow : Outline MailboxRow.depth (place.row.depth + 1) place.below :=
    outline_flattenInto place.node.children (place.depth + 1) place.key
  rw [children_folder haccount hentry hhash hsplit hbelow hafter]
  rcases hchildren : place.node.children with - | ⟨⟨l, f, s, cs⟩, rest⟩
  · simp [Place.row, Place.below, hchildren, flattenInto]
  · have hbelowRows := flattenInto_cons (place.depth + 1) place.key l f s cs rest
    simp [Place.row, Place.below, hchildren, hbelowRows]

/-! ## 6. Refreshes -/

/-- What changes the tree. -/
inductive Update
  | cached (account : Nat) (names : List String)
  | mailboxes (account : Nat) (mailboxes : List MailboxInfo)
  | unread (account : Nat) (unread : Table String Nat)

def update (t : FolderTree) : Update → FolderTree
  | .cached account names => t.setCachedMailboxes account names
  | .mailboxes account mailboxes => t.setMailboxes account mailboxes
  | .unread account unread => t.setUnread account unread

theorem length_update (t : FolderTree) (u : Update) :
    (t.update u).accounts.length = t.accounts.length := by
  cases u with
  | cached account names =>
    rw [update, setCachedMailboxes]
    split
    · rfl
    · exact List.length_modify ..
  | mailboxes account mailboxes => exact List.length_modify ..
  | unread account unread => exact List.length_modify ..

theorem length_updates (updates : List Update) (t : FolderTree) :
    (updates.foldl update t).accounts.length = t.accounts.length := by
  induction updates generalizing t with
  | nil => rfl
  | cons u updates ih => rw [List.foldl_cons, ih, length_update]

/-- The id of a listed row is made of the account's index and the row's key. -/
theorem mem_rowsWithIds {id : NodeId} {key : String} {hasChildren : Bool} {depth : Nat}
    (h : (id, key, hasChildren, depth) ∈ t.rowsWithIds account) :
    id = makeId account (folderHash key) := by
  rw [rowsWithIds] at h
  rcases hentry : t.accounts[account]? with - | entry
  · rw [hentry] at h
    cases h
  · rw [hentry, Option.map_some, Option.getD_some] at h
    obtain ⟨row, -, hrow⟩ := List.mem_map.mp h
    cases hrow
    rfl

theorem ids_accounts (t : FolderTree) :
    (t.children none).map Node.id = (List.range t.accounts.length).map fun i => makeId i 0 := by
  rw [children, List.map_map, List.range_eq_range', ← List.zipIdx_map_snd 0 t.accounts, List.map_map]
  rfl

/-! ## 7. The whole tree -/

/-- Listing the tree from the root yields every account and every row once, in order; a row is marked
as one with children where listing it yields one; ids lead back to account and mailbox, and are not
changed by a refresh. -/
theorem reproduces (t : FolderTree) (haccounts : t.accounts.length ≤ 2 ^ 31) (hhash : t.HashesDiffer) :
    (∃ enough, ∀ fuel, enough ≤ fuel → t.enumerate fuel none = t.listed) ∧
      (∀ account entry, t.accounts[account]? = some entry → ∀ row ∈ entry.rows,
        (row.hasChildren = true ↔ t.children (some (makeId account (folderHash row.key))) ≠ []) ∧
          t.selection (makeId account (folderHash row.key)) =
            row.fullName.map (FolderRef.mk account)) ∧
      (∀ account, account < t.accounts.length → t.selection (makeId account 0) = none ∧
        ∀ folder, splitId (makeId account folder) = (account, folder)) ∧
      ∀ updates : List Update,
        ((updates.foldl update t).children none).map Node.id = (t.children none).map Node.id ∧
          ∀ account id id' key hasChildren hasChildren' depth depth',
            (id, key, hasChildren, depth) ∈ t.rowsWithIds account →
            (id', key, hasChildren', depth') ∈ (updates.foldl update t).rowsWithIds account →
              id' = id := by
  refine ⟨⟨(t.accounts.map fun entry => entry.rows.length).sum + 2, fun fuel hfuel => ?_⟩, ?_, ?_, ?_⟩
  · obtain ⟨fuel, rfl⟩ : ∃ fuel', fuel = fuel' + 2 := ⟨fuel - 2, by omega⟩
    refine enumerate_root haccounts hhash fun entry hentry => ?_
    have hmem : entry.rows.length ∈ t.accounts.map fun entry => entry.rows.length :=
      List.mem_map.mpr ⟨entry, hentry, rfl⟩
    have hle := List.single_le_sum (fun _ _ => Nat.zero_le _) _ hmem
    omega
  · intro account entry hentry row hrow
    obtain ⟨hlt, hget⟩ := List.getElem?_eq_some_iff.mp hentry
    have hdiffer : entry.HashesDiffer := hhash entry (hget ▸ List.getElem_mem hlt)
    exact ⟨hasChildren_iff (hlt.trans_le haccounts) hentry hdiffer hrow,
      selection_folder (hlt.trans_le haccounts) hentry hdiffer hrow⟩
  · intro account hlt
    exact ⟨selection_account (hlt.trans_le haccounts), splitId_makeId (hlt.trans_le haccounts)⟩
  · intro updates
    constructor
    · rw [ids_accounts, ids_accounts, length_updates]
    · intro account id id' key _ _ _ _ h h'
      rw [mem_rowsWithIds h, mem_rowsWithIds h']

/-- A tree of one account with a folder in another. -/
def work : FolderTree :=
  (new ["Work"]).setMailboxes 0 [⟨"Projects/Alpha", some "/", none, false⟩, ⟨"INBOX", some "/", none, false⟩]

theorem reproduces_work :
    ∃ enough, ∀ fuel, enough ≤ fuel → work.enumerate fuel none = work.listed := by
  have hhash : work.HashesDiffer := List.forall_mem_singleton.mpr (by
    unfold AccountFolders.HashesDiffer
    decide +kernel)
  exact (reproduces work (by decide) hhash).1

/-- Two rows of one key have one id, and the 2^31st account is a sign. -/
theorem ids_collide :
    (¬ ∀ t : FolderTree,
      (∀ entry ∈ t.accounts, ∀ row ∈ entry.rows, ∀ row' ∈ entry.rows,
        folderHash row.key = folderHash row'.key → row.key = row'.key) →
      ∀ account entry, t.accounts[account]? = some entry → ∀ row ∈ entry.rows,
        t.selection (makeId account (folderHash row.key)) = row.fullName.map (FolderRef.mk account)) ∧
    ¬ ∀ t : FolderTree,
      (∀ entry ∈ t.accounts, ∀ row ∈ entry.rows, ∀ row' ∈ entry.rows,
        folderHash row.key = folderHash row'.key → row.key = row'.key) →
      ∀ account, account < t.accounts.length → ∀ folder,
        splitId (makeId account folder) = (account, folder) := by
  constructor
  · intro h
    let t := (new [""]).setMailboxes 0 [⟨"a/b", some ".", none, false⟩, ⟨"a.b", some ".", none, false⟩]
    have hkeys : ∀ entry ∈ t.accounts, ∀ row ∈ entry.rows, ∀ row' ∈ entry.rows,
        folderHash row.key = folderHash row'.key → row.key = row'.key :=
      List.forall_mem_singleton.mpr (by decide)
    have hrow := h t hkeys 0 _ rfl ⟨0, "a/b", some "a/b", none, "a/b", false⟩ (by decide)
    revert hrow
    decide
  · intro h
    let t := new (List.replicate (2 ^ 31 + 1) "")
    have hlength : 2 ^ 31 < t.accounts.length := by
      simp only [t, new, List.length_map, List.length_replicate]
      exact Nat.lt_succ_self _
    have hkeys : ∀ entry ∈ t.accounts, ∀ row ∈ entry.rows, ∀ row' ∈ entry.rows,
        folderHash row.key = folderHash row'.key → row.key = row'.key := by
      intro entry hentry row hrow
      obtain ⟨label, -, rfl⟩ := List.mem_map.mp hentry
      cases hrow
    have hid := h t hkeys (2 ^ 31) hlength 0
    revert hid
    decide

end FolderTree

end Esmail.App.Folders
