/-
# A refresh, replayed

`merge_newest` of `core_glue/mailbox.rs` changes the list and says how: a script of edits that the
list widget replays on its row count and on its selection (`selection.rs`, `state.rs`).  The widget
knows rows by their index alone, so an edit one row off would make the next bulk action act on the
message beside the one the user picked.

`refresh_replays` is the whole of it, for any list and any page that descend:

* the list is then the page, and what is older than it (`mergeNewest_eq`);
* the script, replayed on the old list, makes the new one;
* the rows that are selected are those of the same messages as before, as far as these are still there.

`follow` is what one edit makes of a row; a script takes every row to where its message is now, and drops
those whose message is gone (`follow_mergeNewest`).  It is proved in two parts, as the script has two: the
removals, the last row first (`replay_removed`), and the insertions, by induction on what is left of the
page with the part already merged as the invariant (`foldl_mergeOne_eq`).

The scroll offset is left out.
-/
import Esmail.Browsing.Rows

namespace Esmail.Browsing

variable {zone : LocalDateTime}

/-! ## 1. The selection, and the view that has it -/

/-- Where rows at and after `row` go when `count` rows are inserted there. -/
def shiftInserted (row count r : Nat) : Nat := if row ≤ r then r + count else r

/-- Where rows go when `count` rows at `row` are removed. -/
def shiftRemoved (row count r : Nat) : Option Nat :=
  if row + count ≤ r then some (r - count) else if r < row then some r else none

/-- `Selection`: the selected rows ascend, and none is there twice. -/
structure Selection where
  selected : List Nat := []
  anchor : Option Nat := none
  focus : Option Nat := none
  ascending : selected.Pairwise (· < ·) := by simp

namespace Selection

/-- `Selection::insert`. -/
def insert (s : Selection) (row count : Nat) : Selection where
  selected := s.selected.map (shiftInserted row count)
  anchor := s.anchor.map (shiftInserted row count)
  focus := s.focus.map (shiftInserted row count)
  ascending := by
    refine List.pairwise_map.mpr (s.ascending.imp fun {a b} hab => ?_)
    simp only [shiftInserted]
    split <;> split <;> omega

/-- `Selection::remove`. -/
def remove (s : Selection) (row count : Nat) : Selection where
  selected := s.selected.filterMap (shiftRemoved row count)
  anchor := s.anchor.bind (shiftRemoved row count)
  focus := s.focus.bind (shiftRemoved row count)
  ascending := by
    refine List.Pairwise.filterMap _ (fun a b hab a' ha' b' hb' => ?_) s.ascending
    simp only [shiftRemoved] at ha' hb'
    split at ha' <;> split at hb' <;> simp at ha' hb' <;> omega

end Selection

/-- `ViewState`, without the scroll offset. -/
structure ViewState where
  len : Nat := 0
  selection : Selection := {}

namespace ViewState

/-- `ViewState::insert`. -/
def insert (v : ViewState) (row count : Nat) : ViewState :=
  ⟨v.len + count, v.selection.insert row count⟩

/-- `ViewState::remove`. -/
def remove (v : ViewState) (row count : Nat) : ViewState :=
  ⟨v.len - count, v.selection.remove row count⟩

/-- One edit of a refresh, as `show_applied` hands it to the list. -/
def applyEdit (v : ViewState) : Edit → ViewState
  | .removed row => v.remove row 1
  | .inserted row => v.insert row 1

end ViewState

/-! ## 2. One row, through a script of edits -/

/-- Where a row is after an edit, if it still is. -/
def follow (r : Nat) : Edit → Option Nat
  | .removed row => shiftRemoved row 1 r
  | .inserted row => some (shiftInserted row 1 r)

/-- A script acts on the selection row by row. -/
theorem foldl_applyEdit (edits : List Edit) (v : ViewState) :
    (edits.foldl ViewState.applyEdit v).selection.selected =
        v.selection.selected.filterMap (edits.foldlM follow) ∧
      (edits.foldl ViewState.applyEdit v).selection.anchor =
        v.selection.anchor.bind (edits.foldlM follow) ∧
      (edits.foldl ViewState.applyEdit v).selection.focus =
        v.selection.focus.bind (edits.foldlM follow) ∧
      (edits.foldl ViewState.applyEdit v).len = edits.foldl counted v.len := by
  induction edits generalizing v with
  | nil => simp [List.foldlM]
  | cons edit edits ih =>
    obtain ⟨hselected, hanchor, hfocus, hlen⟩ := ih (v.applyEdit edit)
    have hone : (v.applyEdit edit).selection.selected =
          v.selection.selected.filterMap (follow · edit) ∧
        (v.applyEdit edit).selection.anchor = v.selection.anchor.bind (follow · edit) ∧
        (v.applyEdit edit).selection.focus = v.selection.focus.bind (follow · edit) ∧
        (v.applyEdit edit).len = counted v.len edit := by
      cases edit with
      | removed row => exact ⟨rfl, rfl, rfl, rfl⟩
      | inserted row =>
        refine ⟨?_, ?_, ?_, rfl⟩
        · exact (List.filterMap_eq_map ▸ rfl)
        · cases h : v.selection.anchor <;> simp [ViewState.applyEdit, ViewState.insert,
            Selection.insert, follow, h]
        · cases h : v.selection.focus <;> simp [ViewState.applyEdit, ViewState.insert,
            Selection.insert, follow, h]
    rw [List.foldl_cons, hselected, hanchor, hfocus, hlen, hone.1, hone.2.1, hone.2.2.1, hone.2.2.2]
    simp only [List.filterMap_filterMap, Option.bind_assoc]
    exact ⟨rfl, rfl, rfl, rfl⟩

/-! ## 3. A script, replayed on a list -/

/-- An edit replayed on a list, with what it inserts taken from where it comes to be in the end. -/
def replay (final l : List Nat) : Edit → List Nat
  | .removed row => l.eraseIdx row
  | .inserted row => l.insertIdx row (final[row]?.getD 0)

theorem getElem?_follow_removed {l : List Nat} {row r r' : Nat}
    (h : follow r (.removed row) = some r') : (l.eraseIdx row)[r']? = l[r]? := by
  rw [List.getElem?_eraseIdx]
  simp only [follow, shiftRemoved] at h
  split at h
  · obtain rfl := Option.some.inj h
    rw [if_neg (by omega), Nat.sub_add_cancel (by omega)]
  · split at h
    · obtain rfl := Option.some.inj h
      rw [if_pos (by assumption)]
    · cases h

theorem getElem?_shiftInserted (l : List Nat) (row x r : Nat) :
    (l.insertIdx row x)[shiftInserted row 1 r]? = l[r]? := by
  rw [shiftInserted]
  split
  · rw [List.getElem?_insertIdx, if_neg (by omega), if_neg (by omega), Nat.add_sub_cancel]
  · rw [List.getElem?_insertIdx, if_pos (by omega)]

/-- Past its last index, `retain` keeps everything. -/
theorem retainAt_of_lt {gone : List Nat} : ∀ (l : List Nat) {i : Nat}, (∀ x ∈ gone, x < i) →
    retainAt gone i l = l
  | [], _, _ => rfl
  | x :: xs, i, h => by
    have hi : i ∉ gone := fun hmem => Nat.lt_irrefl i (h i hmem)
    rw [retainAt, if_neg hi, retainAt_of_lt xs fun y hy => Nat.lt_succ_of_lt (h y hy)]

/-- Dropping the rows of an index list, the last of them first. -/
theorem retainAt_concat {gone : List Nat} {last : Nat} (hgone : ∀ x ∈ gone, x < last) :
    ∀ (l : List Nat) (i : Nat), i ≤ last →
      retainAt (gone ++ [last]) i l = retainAt gone i (l.eraseIdx (last - i))
  | [], _, _ => rfl
  | x :: xs, i, hi => by
    rcases Nat.eq_or_lt_of_le hi with rfl | hlt
    · rw [retainAt, if_pos (by simp), Nat.sub_self, List.eraseIdx_cons_zero,
        retainAt_of_lt xs hgone, retainAt_of_lt xs]
      intro y hy
      rcases List.mem_append.mp hy with hy | hy
      · exact Nat.lt_succ_of_lt (hgone y hy)
      · rw [List.mem_singleton.mp hy]
        exact Nat.lt_succ_self _
    · have hmem : i ∈ gone ++ [last] ↔ i ∈ gone := by
        simp [Nat.ne_of_lt hlt]
      obtain ⟨k, hk⟩ : ∃ k, last - i = k + 1 := ⟨last - i - 1, by omega⟩
      rw [hk, List.eraseIdx_cons_succ, retainAt, retainAt,
        retainAt_concat hgone xs (i + 1) hlt, show last - (i + 1) = k by omega]
      simp only [hmem]

/-- The removals of a script: what they leave of a list, and of a row. -/
theorem replay_removed (final : List Nat) : ∀ {gone : List Nat}, gone.Pairwise (· < ·) →
    ∀ l : List Nat,
      (gone.reverse.map Edit.removed).foldl (replay final) l = retainAt gone 0 l ∧
      ∀ r, match (gone.reverse.map Edit.removed).foldlM follow r with
        | some r' => r ∉ gone ∧ (retainAt gone 0 l)[r']? = l[r]?
        | none => r ∈ gone := by
  intro gone
  induction gone using List.reverseRecOn with
  | nil => intro _ l; exact ⟨(retainAt_of_lt l (by simp)).symm, fun r => by simp [retainAt_of_lt]⟩
  | append_singleton gone last ih =>
    intro hgone l
    obtain ⟨hbefore, -, hlast⟩ := List.pairwise_append.mp hgone
    have hlt : ∀ x ∈ gone, x < last := fun x hx => hlast x hx last (by simp)
    obtain ⟨hlist, hrows⟩ := ih hbefore (l.eraseIdx last)
    have hretain := retainAt_concat hlt l 0 (Nat.zero_le _)
    rw [Nat.sub_zero] at hretain
    rw [List.reverse_append, List.reverse_singleton, List.singleton_append, List.map_cons,
      List.foldl_cons, hretain]
    refine ⟨hlist, fun r => ?_⟩
    rw [List.foldlM_cons]
    cases hfollow : follow r (.removed last) with
    | none =>
      have hr : r = last := by
        simp only [follow, shiftRemoved] at hfollow
        split at hfollow
        · cases hfollow
        · split at hfollow
          · cases hfollow
          · omega
      simp [hr]
    | some r' =>
      have hr : r < last ∧ r' = r ∨ last < r ∧ r' = r - 1 := by
        simp only [follow, shiftRemoved] at hfollow
        split at hfollow
        · exact .inr ⟨by omega, (Option.some.inj hfollow).symm⟩
        · split at hfollow
          · exact .inl ⟨by assumption, (Option.some.inj hfollow).symm⟩
          · cases hfollow
      have hmem : r ∈ gone ++ [last] ↔ r' ∈ gone := by
        rcases hr with ⟨hlt', rfl⟩ | ⟨hlt', rfl⟩
        · simp [Nat.ne_of_lt hlt']
        · have hr : r ∉ gone := fun h => by have := hlt r h; omega
          have hr' : r - 1 ∉ gone := fun h => by have := hlt (r - 1) h; omega
          simp [hr, hr', Nat.ne_of_gt hlt']
      have hrest := hrows r'
      simp only [Option.bind_eq_bind, Option.bind_some]
      rw [hmem]
      rw [getElem?_follow_removed hfollow] at hrest
      exact hrest

/-- Insertions lose no row. -/
theorem replay_inserted (final : List Nat) : ∀ (rows : List Nat) (l : List Nat) (r : Nat),
    ∃ r', (rows.map Edit.inserted).foldlM follow r = some r' ∧
      ((rows.map Edit.inserted).foldl (replay final) l)[r']? = l[r]?
  | [], _, r => ⟨r, rfl, rfl⟩
  | row :: rows, l, r => by
    obtain ⟨r', hfollow, hget⟩ := replay_inserted final rows
      (l.insertIdx row (final[row]?.getD 0)) (shiftInserted row 1 r)
    exact ⟨r', hfollow, hget.trans (getElem?_shiftInserted ..)⟩

/-! ## 4. The page, merged in -/

theorem insertIdx_append {α : Type} (p rest : List α) (x : α) :
    (p ++ rest).insertIdx p.length x = p ++ x :: rest := by
  induction p with
  | nil => rfl
  | cons y p ih => simp [ih]

/-- A message of the page that is loaded takes its row. -/
theorem mergeOne_loaded {p rest : List MailHeader} {rows : List RowModel} {edits : List Edit}
    {h x : MailHeader} (hx : x.uid = h.uid) (hp : h.uid ∉ uids p) :
    ∃ rows', OpenFolder.mergeOne zone (p ++ x :: rest, rows, edits) h =
      (p ++ h :: rest, rows', edits) := by
  have hnone : p.findIdx? (fun y => y.uid == h.uid) = none := OpenFolder.rowOf_eq_none.mpr hp
  have hrow : OpenFolder.rowOf (p ++ x :: rest) h.uid = some p.length := by
    simp [OpenFolder.rowOf, List.findIdx?_append, hnone, List.findIdx?_cons, hx]
  simp [OpenFolder.mergeOne, hrow]

/-- One that is not is inserted where the page has come to. -/
theorem mergeOne_new {p rest : List MailHeader} {rows : List RowModel} {edits : List Edit}
    {h : MailHeader} (hp : ∀ y ∈ p, h.uid < y.uid) (hrest : ∀ x ∈ rest, x.uid < h.uid) :
    ∃ rows', OpenFolder.mergeOne zone (p ++ rest, rows, edits) h =
      (p ++ h :: rest, rows', edits ++ [.inserted p.length]) := by
  have hrow : OpenFolder.rowOf (p ++ rest) h.uid = none := by
    refine OpenFolder.rowOf_eq_none.mpr fun hmem => ?_
    obtain ⟨x, hx, hu⟩ := mem_uids.mp hmem
    rcases List.mem_append.mp hx with hx | hx
    · have := hp x hx
      omega
    · have := hrest x hx
      omega
  have hnone : p.findIdx? (fun old => decide (old.uid < h.uid)) = none := by
    rw [List.findIdx?_eq_none_iff]
    intro y hy
    have := hp y hy
    simp
    omega
  have hfind : ((p ++ rest).findIdx? (fun old => decide (old.uid < h.uid))).getD
      (p ++ rest).length = p.length := by
    rw [List.findIdx?_append, hnone]
    rcases rest with - | ⟨x, rest⟩
    · simp
    · simp [List.findIdx?_cons, hrest x List.mem_cons_self]
  simp only [OpenFolder.mergeOne, hrow, hfind, insertIdx_append]
  exact ⟨_, rfl⟩

/-- What is older than the page's first message is left out for the rest of the page alone. -/
theorem filter_uids_cons {h : MailHeader} {q rest : List MailHeader}
    (hne : ∀ x ∈ rest, x.uid < h.uid) :
    rest.filter (fun x => !(uids (h :: q)).contains x.uid) =
      rest.filter (fun x => !(uids q).contains x.uid) := by
  refine List.filter_congr fun x hx => ?_
  have := hne x hx
  simp [Nat.ne_of_lt this]

/-- The rest of a page `q`, merged into a list whose first part `p` is the page so far.  What is
left of the old rows is below `p`, and is in `q` or below it. -/
theorem foldl_mergeOne_eq (zone : LocalDateTime) : ∀ (q p rest : List MailHeader) (rows : List RowModel)
    (edits : List Edit), OpenFolder.Descending (p ++ q) → OpenFolder.Descending rest →
    (∀ x ∈ rest, ∀ y ∈ p, x.uid < y.uid) →
    (∀ x ∈ rest, x.uid ∈ uids q ∨ ∀ y ∈ q, x.uid < y.uid) →
    ∃ inserted : List Nat,
      (q.foldl (OpenFolder.mergeOne zone) (p ++ rest, rows, edits)).1 =
        p ++ q ++ rest.filter (fun x => !(uids q).contains x.uid) ∧
      (q.foldl (OpenFolder.mergeOne zone) (p ++ rest, rows, edits)).2.2 =
        edits ++ inserted.map Edit.inserted ∧
      ∀ final : List Nat, uids (p ++ q) <+: final →
        (inserted.map Edit.inserted).foldl (replay final) (uids (p ++ rest)) =
          uids (p ++ q ++ rest.filter (fun x => !(uids q).contains x.uid))
  | [], p, rest, rows, edits, _, _, _, _ =>
    ⟨[], by simp, by simp, fun _ _ => by simp⟩
  | h :: q, p, rest, rows, edits, hpage, hdesc, hbelow, hin => by
    have hpair := hpage
    rw [OpenFolder.Descending, uids_append] at hpair
    obtain ⟨-, htail, hhead⟩ := List.pairwise_append.mp hpair
    have hp : ∀ y ∈ p, h.uid < y.uid := fun y hy =>
      hhead y.uid (mem_uids_of_mem hy) h.uid (by simp)
    have hq : ∀ y ∈ q, y.uid < h.uid := fun y hy =>
      List.rel_of_pairwise_cons htail (mem_uids_of_mem hy)
    have hpage' : OpenFolder.Descending ((p ++ [h]) ++ q) := by simpa using hpage
    -- what is left of the old rows is at or below the page's message
    have hle : ∀ x ∈ rest, x.uid ≤ h.uid := by
      intro x hx
      rcases hin x hx with hmem | hlt
      · rcases List.mem_cons.mp hmem with heq | hmem
        · exact Nat.le_of_eq heq
        · obtain ⟨y, hy, hu⟩ := mem_uids.mp hmem
          have := hq y hy
          omega
      · exact Nat.le_of_lt (hlt h List.mem_cons_self)
    have hin' : ∀ x ∈ rest, x.uid < h.uid → x.uid ∈ uids q ∨ ∀ y ∈ q, x.uid < y.uid := by
      intro x hx hlt
      rcases hin x hx with hmem | hlt'
      · exact .inl ((List.mem_cons.mp hmem).resolve_left (Nat.ne_of_lt hlt))
      · exact .inr fun y hy => hlt' y (List.mem_cons_of_mem h hy)
    have hbelow' : ∀ x ∈ rest, x.uid < h.uid → ∀ y ∈ p ++ [h], x.uid < y.uid := by
      intro x hx hlt y hy
      rcases List.mem_append.mp hy with hy | hy
      · exact hbelow x hx y hy
      · rw [List.mem_singleton.mp hy]
        exact hlt
    by_cases hmem : h.uid ∈ uids rest
    · obtain ⟨x, rest, rfl⟩ : ∃ x rest', rest = x :: rest' := by
        rcases rest with - | ⟨x, rest⟩
        · simp at hmem
        · exact ⟨x, rest, rfl⟩
      have hlt : ∀ y ∈ rest, y.uid < x.uid := fun y hy =>
        List.rel_of_pairwise_cons hdesc (mem_uids_of_mem hy)
      have hx : x.uid = h.uid := by
        rcases List.mem_cons.mp hmem with heq | hmem
        · exact heq.symm
        · obtain ⟨y, hy, hu⟩ := mem_uids.mp hmem
          have := hlt y hy
          have := hle x List.mem_cons_self
          omega
      have hrest : ∀ y ∈ rest, y.uid < h.uid := fun y hy => hx ▸ hlt y hy
      have hnot : h.uid ∉ uids p := fun hmem => by
        obtain ⟨y, hy, hu⟩ := mem_uids.mp hmem
        have := hp y hy
        omega
      obtain ⟨rows', hone⟩ : ∃ rows', OpenFolder.mergeOne zone (p ++ x :: rest, rows, edits) h =
          (p ++ h :: rest, rows', edits) := mergeOne_loaded hx hnot
      obtain ⟨inserted, hlist, hscript, hreplay⟩ := foldl_mergeOne_eq zone q (p ++ [h]) rest rows' edits
        hpage' hdesc.of_cons (fun y hy => hbelow' y (List.mem_cons_of_mem x hy) (hrest y hy))
        (fun y hy => hin' y (List.mem_cons_of_mem x hy) (hrest y hy))
      have hfilter : (x :: rest).filter (fun x => !(uids (h :: q)).contains x.uid) =
          rest.filter (fun x => !(uids q).contains x.uid) := by
        rw [List.filter_cons_of_neg (by simp [hx]), filter_uids_cons hrest]
      rw [List.append_assoc, List.singleton_append] at hlist hscript
      refine ⟨inserted, ?_, ?_, fun final hfinal => ?_⟩
      · rw [List.foldl_cons, hone, hlist, hfilter]
        simp
      · rw [List.foldl_cons, hone, hscript]
      · have := hreplay final (by simpa using hfinal)
        rw [hfilter, show uids (p ++ x :: rest) = uids (p ++ [h] ++ rest) by simp [hx], this]
        simp
    · have hrest : ∀ x ∈ rest, x.uid < h.uid := fun x hx =>
        Nat.lt_of_le_of_ne (hle x hx) fun heq => hmem (heq ▸ mem_uids_of_mem hx)
      obtain ⟨rows', hone⟩ : ∃ rows', OpenFolder.mergeOne zone (p ++ rest, rows, edits) h =
          (p ++ h :: rest, rows', edits ++ [.inserted p.length]) := mergeOne_new hp hrest
      obtain ⟨inserted, hlist, hscript, hreplay⟩ := foldl_mergeOne_eq zone q (p ++ [h]) rest rows'
        (edits ++ [.inserted p.length]) hpage' hdesc (fun x hx => hbelow' x hx (hrest x hx))
        (fun x hx => hin' x hx (hrest x hx))
      rw [List.append_assoc, List.singleton_append] at hlist hscript
      refine ⟨p.length :: inserted, ?_, ?_, fun final hfinal => ?_⟩
      · rw [List.foldl_cons, hone, hlist, filter_uids_cons hrest]
        simp
      · rw [List.foldl_cons, hone, hscript, List.append_assoc]
        rfl
      · have hget : final[p.length]? = some h.uid := by
          obtain ⟨rest', rfl⟩ := hfinal
          have hlen : p.length = (uids p).length := by simp [uids]
          rw [uids_append, List.append_assoc, hlen, List.getElem?_append_right (Nat.le_refl _)]
          simp
        have hfirst : (uids (p ++ rest)).insertIdx p.length h.uid = uids (p ++ [h] ++ rest) := by
          have hlen : p.length = (uids p).length := by simp [uids]
          rw [uids_append, hlen, insertIdx_append]
          simp
        have := hreplay final (by simpa using hfinal)
        rw [List.map_cons, List.foldl_cons, replay, hget, Option.getD_some, hfirst, this,
          filter_uids_cons hrest]
        simp

/-! ## 5. A refresh -/

/-- What `merge_newest` leaves, and the script it returns: the rows that are gone, last first, and
then the rows the new messages are inserted at. -/
theorem mergeNewest_script (zone : LocalDateTime) {f : OpenFolder} {fresh : List MailHeader}
    (hold : OpenFolder.Descending f.headers) (hfresh : OpenFolder.Descending fresh) :
    ∃ inserted : List Nat,
      (f.mergeNewest zone fresh).1.headers =
        fresh ++ f.headers.filter (fun h => h.uid < OpenFolder.floorOf fresh) ∧
      (f.mergeNewest zone fresh).2 = (OpenFolder.goneAt f.headers fresh).reverse.map Edit.removed ++
        inserted.map Edit.inserted ∧
      (inserted.map Edit.inserted).foldl (replay (uids (f.mergeNewest zone fresh).1.headers))
          (uids (retainAt (OpenFolder.goneAt f.headers fresh) 0 f.headers)) =
        uids (f.mergeNewest zone fresh).1.headers := by
  have hkept := OpenFolder.retainAt_goneAt f.headers fresh
  set kept := retainAt (OpenFolder.goneAt f.headers fresh) 0 f.headers with hkeptDef
  have hmem : ∀ x ∈ kept, x.uid ∈ uids fresh ∨ x.uid < OpenFolder.floorOf fresh := by
    intro x hx
    rw [hkept] at hx
    have hgone := (List.mem_filter.mp hx).2
    simp only [OpenFolder.isGone, Bool.not_and, Bool.not_not, Bool.or_eq_true, Bool.not_eq_true',
      decide_eq_false_iff_not, Nat.not_le, List.contains_iff_mem] at hgone
    exact hgone.symm
  have hfloor : ∀ y ∈ fresh, OpenFolder.floorOf fresh ≤ y.uid := by
    intro y hy
    cases hlast : fresh.getLast? with
    | none =>
      rw [List.getLast?_eq_none_iff.mp hlast] at hy
      cases hy
    | some last =>
      simp only [OpenFolder.floorOf, hlast, Option.map_some, Option.getD_some]
      exact hfresh.last_le hlast hy
  obtain ⟨inserted, hlist, hscript, hreplay⟩ := foldl_mergeOne_eq zone fresh [] kept
    (retainAt (OpenFolder.goneAt f.headers fresh) 0 f.rows)
    ((OpenFolder.goneAt f.headers fresh).reverse.map Edit.removed) hfresh
    (hkept ▸ hold.filter _) (by simp) (fun x hx => (hmem x hx).imp_right fun hlt y hy =>
      Nat.lt_of_lt_of_le hlt (hfloor y hy))
  have hbelow : kept.filter (fun x => !(uids fresh).contains x.uid) =
      f.headers.filter (fun h => h.uid < OpenFolder.floorOf fresh) := by
    rw [hkept, List.filter_filter]
    refine List.filter_congr fun x hx => ?_
    by_cases hin : x.uid ∈ uids fresh
    · obtain ⟨y, hy, hu⟩ := mem_uids.mp hin
      have hle := hfloor y hy
      rw [hu] at hle
      simp [hin, Nat.not_lt.mpr hle]
    · rcases Nat.lt_or_ge x.uid (OpenFolder.floorOf fresh) with hlt | hge
      · simp [OpenFolder.isGone, hin, hlt]
      · simp [OpenFolder.isGone, hin, hge, Nat.not_lt.mpr hge]
  have hmerged : (f.mergeNewest zone fresh).1.headers =
      fresh ++ f.headers.filter (fun h => h.uid < OpenFolder.floorOf fresh) := by
    rw [← hbelow]
    exact hlist
  refine ⟨inserted, hmerged, hscript, ?_⟩
  rw [hmerged, ← hbelow]
  exact hreplay _ (by simp)

/-- Where the message in a row is after the rows changed, if it still is. -/
def rowAfter (before after : List Nat) (r : Nat) : Option Nat :=
  before[r]?.bind fun u => after.idxOf? u

theorem nodup_of_descending {l : List MailHeader} (h : OpenFolder.Descending l) : (uids l).Nodup :=
  h.imp Nat.ne_of_gt

theorem idxOf?_eq_some_of_nodup {l : List Nat} (h : l.Nodup) {u r : Nat} :
    l.idxOf? u = some r ↔ l[r]? = some u := by
  rw [List.idxOf?_eq_some_iff, List.getElem?_eq_some_iff]
  refine ⟨fun ⟨hlt, heq, _⟩ => ⟨hlt, heq⟩, fun ⟨hlt, heq⟩ => ⟨hlt, heq, fun j hj hj' => ?_⟩⟩
  exact Nat.ne_of_lt hj ((List.Nodup.getElem_inj_iff h).mp (hj'.trans heq.symm))

/-- The script takes each row to its message. -/
theorem follow_mergeNewest {f : OpenFolder} {fresh : List MailHeader}
    (hold : OpenFolder.Descending f.headers) (hfresh : OpenFolder.Descending fresh) {r : Nat}
    (hr : r < f.headers.length) :
    (f.mergeNewest zone fresh).2.foldlM follow r =
      rowAfter (uids f.headers) (uids (f.mergeNewest zone fresh).1.headers) r := by
  obtain ⟨inserted, hmerged, hscript, hreplay⟩ := mergeNewest_script zone hold hfresh
  have hnodup : (uids (f.mergeNewest zone fresh).1.headers).Nodup :=
    nodup_of_descending (OpenFolder.descending_mergeNewest zone hold)
  have hgone : (OpenFolder.goneAt f.headers fresh).Pairwise (· < ·) :=
    List.pairwise_lt_range.filter _
  have hremoved := (replay_removed (uids (f.mergeNewest zone fresh).1.headers) hgone
    (uids f.headers)).2 r
  have hget : (uids f.headers)[r]? = some f.headers[r].uid := by simp [uids, hr]
  rw [rowAfter, hget, Option.bind_some, hscript, List.foldlM_append]
  cases hfollow : ((OpenFolder.goneAt f.headers fresh).reverse.map Edit.removed).foldlM follow r with
  | none =>
    rw [hfollow] at hremoved
    have hisGone : OpenFolder.isGone fresh f.headers[r] = true := by
      have := (List.mem_filter.mp hremoved).2
      simpa [hr] using this
    obtain ⟨hge, hnot⟩ : OpenFolder.floorOf fresh ≤ f.headers[r].uid ∧
        f.headers[r].uid ∉ uids fresh := by
      simpa [OpenFolder.isGone] using hisGone
    symm
    refine List.idxOf?_eq_none_iff.mpr fun hmem => ?_
    rcases OpenFolder.mem_uids_mergeNewest zone |>.mp hmem with hin | ⟨-, hlt⟩
    · exact hnot hin
    · exact Nat.not_le.mpr hlt hge
  | some r' =>
    rw [hfollow] at hremoved
    obtain ⟨r'', hto, hsame⟩ := replay_inserted (uids (f.mergeNewest zone fresh).1.headers) inserted
      (uids (retainAt (OpenFolder.goneAt f.headers fresh) 0 f.headers)) r'
    rw [hreplay] at hsame
    have huids : uids (retainAt (OpenFolder.goneAt f.headers fresh) 0 f.headers) =
        retainAt (OpenFolder.goneAt f.headers fresh) 0 (uids f.headers) :=
      (retainAt_map MailHeader.uid _ _ _).symm
    rw [huids, hremoved.2, hget] at hsame
    simp only [Option.bind_eq_bind, Option.bind_some, hto]
    exact ((idxOf?_eq_some_of_nodup hnodup).mpr hsame).symm

/-- The anchor and the focus follow their messages too. -/
theorem refresh_keeps_focus (zone : LocalDateTime) (f : OpenFolder) (fresh : List MailHeader) (v : ViewState)
    (hold : OpenFolder.Descending f.headers) (hfresh : OpenFolder.Descending fresh)
    (hanchor : ∀ r ∈ v.selection.anchor, r < f.headers.length)
    (hfocus : ∀ r ∈ v.selection.focus, r < f.headers.length) :
    let merged := (f.mergeNewest zone fresh).1.headers
    let v' := (f.mergeNewest zone fresh).2.foldl ViewState.applyEdit v
    v'.selection.anchor = v.selection.anchor.bind (rowAfter (uids f.headers) (uids merged)) ∧
      v'.selection.focus = v.selection.focus.bind (rowAfter (uids f.headers) (uids merged)) := by
  intro merged v'
  obtain ⟨-, hanchor', hfocus', -⟩ := foldl_applyEdit (f.mergeNewest zone fresh).2 v
  refine ⟨hanchor'.trans (Option.bind_congr fun r hr => ?_),
    hfocus'.trans (Option.bind_congr fun r hr => ?_)⟩
  · exact follow_mergeNewest hold hfresh (hanchor r hr)
  · exact follow_mergeNewest hold hfresh (hfocus r hr)

/-- The list a refresh leaves is the page and what is older than it; its script replays on the old
list, and takes the selection from the rows it was at to the rows where its messages are.

The three parts are about one script, and come from `mergeNewest_eq`, `replay_removed` and
`foldl_mergeOne_eq`, and `follow_mergeNewest`. -/
theorem refresh_replays (zone : LocalDateTime) (f : OpenFolder) (fresh : List MailHeader) (v : ViewState)
    (hold : OpenFolder.Descending f.headers) (hfresh : OpenFolder.Descending fresh)
    (hselected : ∀ r ∈ v.selection.selected, r < f.headers.length) :
    let merged := (f.mergeNewest zone fresh).1.headers
    let edits := (f.mergeNewest zone fresh).2
    let v' := edits.foldl ViewState.applyEdit v
    merged = fresh ++ f.headers.filter (fun h => h.uid < OpenFolder.floorOf fresh) ∧
      (fresh = [] → merged = []) ∧
      (∃ removed inserted, edits = List.map Edit.removed removed ++ List.map Edit.inserted inserted) ∧
      edits.foldl (replay (uids merged)) (uids f.headers) = uids merged ∧
      v'.selection.selected =
        v.selection.selected.filterMap (rowAfter (uids f.headers) (uids merged)) ∧
      ∀ r, r ∈ v'.selection.selected ↔ ∃ r₀ ∈ v.selection.selected, ∃ u,
        (uids f.headers)[r₀]? = some u ∧ (uids merged)[r]? = some u := by
  intro merged edits v'
  obtain ⟨inserted, hmerged, hscript, hreplay⟩ := mergeNewest_script zone hold hfresh
  have hgone : (OpenFolder.goneAt f.headers fresh).Pairwise (· < ·) :=
    List.pairwise_lt_range.filter _
  have hrows : v'.selection.selected =
      v.selection.selected.filterMap (rowAfter (uids f.headers) (uids merged)) := by
    rw [(foldl_applyEdit edits v).1]
    exact List.filterMap_congr fun r hr => follow_mergeNewest hold hfresh (hselected r hr)
  refine ⟨hmerged, ?_, ⟨_, inserted, hscript⟩, ?_, hrows, fun r => ?_⟩
  · rintro rfl
    simp only [merged, hmerged, OpenFolder.floorOf]
    simp
  · rw [show edits = _ from hscript, List.foldl_append,
      (replay_removed (uids merged) hgone (uids f.headers)).1]
    exact (retainAt_map MailHeader.uid _ _ _).symm ▸ hreplay
  · have hnodup : (uids merged).Nodup :=
      nodup_of_descending (OpenFolder.descending_mergeNewest zone hold)
    simp only [hrows, List.mem_filterMap, rowAfter, Option.bind_eq_some_iff,
      idxOf?_eq_some_of_nodup hnodup]

/-- A message of which only the UID matters. -/
def messageOf (uid : Nat) : MailHeader := ⟨uid, "", "", "", "", "", []⟩

/-- The first and the last of messages 9, 7 and 5 are selected; a refresh brings 10 and no longer
has 7. -/
theorem refresh_replays_selected :
    let f : OpenFolder := { headers := [messageOf 9, messageOf 7, messageOf 5] }
    let r := f.mergeNewest (fun _ => none) [messageOf 10, messageOf 9, messageOf 5]
    let v : ViewState := ⟨3, { selected := [0, 2], ascending := by decide }⟩
    r.1.headers = [messageOf 10, messageOf 9, messageOf 5] ∧
      1 ∈ (r.2.foldl ViewState.applyEdit v).selection.selected := by
  intro f r v
  have h := refresh_replays (fun _ => none) f [messageOf 10, messageOf 9, messageOf 5] v
    (by decide) (by decide) (by decide)
  refine ⟨h.1.trans (by decide), (h.2.2.2.2.2 1).mpr ⟨0, by simp [v], 9, by decide, ?_⟩⟩
  rw [h.1]
  decide

end Esmail.Browsing
