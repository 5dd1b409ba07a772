/-
# The folder on screen: how its pages accumulate

The model of `core_glue/mailbox.rs` (with the request counter of `core_glue/loads.rs`).  IMAP
hands out headers 50 at a time, newest first.  A page reply is APPENDED (`append` keeps the
messages older than the oldest loaded row); a refresh, and the first reply into rows that came
from the cache, is MERGED (`mergeNewest` replaces everything from the page's oldest UID up).

The operations are translated one by one; `retainAt` is the `Vec::retain` with a running index
that the source runs over headers and rows.  Each operation then gets one lemma that says which
UIDs it leaves (`mem_uids_append`, `mem_uids_mergeNewest`) and one that says the rows stay
sorted, newest first (`Descending`); nothing after this module unfolds an operation again.
-/
import Esmail.Mailbox.Header
import Mathlib.Algebra.Group.Nat.Defs
import Mathlib.Data.List.Sort

namespace Esmail

/-! ## 1. The operations, as the source has them -/

/-- `PAGE_SIZE`: how many headers the IMAP actor returns per page. -/
def pageSize : Nat := 50

/-- `u32::MAX`. -/
def u32Max : Nat := 2 ^ 32 - 1

/-- `Latest`: a counter of requests. -/
structure Latest where
  current : Nat := 0
  deriving DecidableEq, Repr

/-- `Latest::begin`: starts a request and returns its id. -/
def Latest.begin (l : Latest) : Latest × Nat := (⟨l.current + 1⟩, l.current + 1)

/-- `PageRequest`. -/
structure PageRequest where
  page : Nat
  id : Nat
  deriving DecidableEq, Repr

/-- `Edit`. -/
inductive Edit
  | removed (row : Nat)
  | inserted (row : Nat)
  deriving DecidableEq, Repr

/-- `Applied`. -/
inductive Applied
  | page (added : Nat)
  | refreshed (edits : List Edit)
  deriving DecidableEq, Repr

/-- `OpenFolder`: the messages loaded so far for one folder. -/
structure OpenFolder where
  headers : List MailHeader := []
  rows : List RowModel := []
  nextPage : Nat := 1
  firstPageArrived : Bool := false
  totalPages : Option Nat := none
  ids : Latest := {}
  pageRequest : Option Nat := none
  refreshRequest : Option Nat := none
  deriving DecidableEq, Repr

/-- `Vec::retain` with a running index: drops the elements whose index is in `gone`. -/
def retainAt {α : Type} (gone : List Nat) : Nat → List α → List α
  | _, [] => []
  | i, x :: xs => if i ∈ gone then retainAt gone (i + 1) xs else x :: retainAt gone (i + 1) xs

namespace OpenFolder

variable (zone : LocalDateTime)

/-- `OpenFolder::is_complete`: every page has been loaded. -/
def isComplete (f : OpenFolder) : Bool :=
  match f.totalPages with
  | some total => total < f.nextPage
  | none => false

/-- `OpenFolder::is_cached_only`: every row so far came from the cache. -/
def isCachedOnly (f : OpenFolder) : Bool := !f.firstPageArrived && !f.headers.isEmpty

/-- `OpenFolder::row_of`. -/
def rowOf (headers : List MailHeader) (uid : Nat) : Option Nat :=
  headers.findIdx? (fun h => h.uid == uid)

/-- `OpenFolder::next_request`. -/
def nextRequest (f : OpenFolder) : OpenFolder × Option PageRequest :=
  if f.pageRequest.isSome || f.isComplete then (f, none)
  else
    ({ f with ids := f.ids.begin.1, pageRequest := some f.ids.begin.2 },
      some ⟨f.nextPage, f.ids.begin.2⟩)

/-- `OpenFolder::refresh_request`. -/
def refreshRequestOf (f : OpenFolder) : OpenFolder × Option Nat :=
  if !f.firstPageArrived then (f, none)
  else ({ f with ids := f.ids.begin.1, refreshRequest := some f.ids.begin.2 }, some f.ids.begin.2)

/-- What `append` keeps of a page: the messages older than the oldest loaded one. -/
def appended (headers page : List MailHeader) : List MailHeader :=
  page.filter (fun h => h.uid < (headers.getLast?.map MailHeader.uid).getD u32Max)

/-- `OpenFolder::append`. -/
def append (f : OpenFolder) (page : List MailHeader) : OpenFolder × Nat :=
  let fresh := appended f.headers page
  ({ f with
      rows := f.rows ++ fresh.map (RowModel.fromHeader zone)
      headers := f.headers ++ fresh },
    fresh.length)

/-- The oldest UID of a page, `0` for an empty one: `fresh.last().map_or(0, ..)`. -/
def floorOf (fresh : List MailHeader) : Nat := (fresh.getLast?.map MailHeader.uid).getD 0

/-- Whether a refresh drops a loaded message: it is in the page's range and not in the page. -/
def isGone (fresh : List MailHeader) (h : MailHeader) : Bool :=
  floorOf fresh ≤ h.uid && !(uids fresh).contains h.uid

/-- The indices of the messages a refresh drops. -/
def goneAt (headers fresh : List MailHeader) : List Nat :=
  (List.range headers.length).filter (fun i => (headers[i]?).any (isGone fresh))

/-- The loop body of `merge_newest`: one message of the page goes to its row. -/
def mergeOne (acc : List MailHeader × List RowModel × List Edit) (h : MailHeader) :
    List MailHeader × List RowModel × List Edit :=
  match rowOf acc.1 h.uid with
  | some row => (acc.1.set row h, acc.2.1.set row (RowModel.fromHeader zone h), acc.2.2)
  | none =>
    let row := (acc.1.findIdx? (fun old => old.uid < h.uid)).getD acc.1.length
    (acc.1.insertIdx row h, acc.2.1.insertIdx row (RowModel.fromHeader zone h),
      acc.2.2 ++ [.inserted row])

/-- `OpenFolder::merge_newest`. -/
def mergeNewest (f : OpenFolder) (fresh : List MailHeader) : OpenFolder × List Edit :=
  let gone := goneAt f.headers fresh
  let kept := (retainAt gone 0 f.headers, retainAt gone 0 f.rows, gone.reverse.map Edit.removed)
  let merged := fresh.foldl (mergeOne zone) kept
  ({ f with headers := merged.1, rows := merged.2.1 }, merged.2.2)

/-- `OpenFolder::apply_reply`. -/
def applyReply (f : OpenFolder) (id page totalPages : Nat) (headers : List MailHeader) :
    OpenFolder × Option Applied :=
  if f.pageRequest = some id then
    let seeded := f.isCachedOnly
    let f := { f with pageRequest := none, totalPages := some totalPages, firstPageArrived := true }
    if seeded then
      let r := { f with nextPage := max f.nextPage (page + 1) }.mergeNewest zone headers
      (r.1, some (.refreshed r.2))
    else
      let r := { f with nextPage := page + 1 }.append zone headers
      (r.1, some (.page r.2))
  else if f.refreshRequest = some id then
    let r := { f with refreshRequest := none, totalPages := some totalPages }.mergeNewest zone headers
    (r.1, some (.refreshed r.2))
  else (f, none)

/-- `OpenFolder::seed`. -/
def seed (f : OpenFolder) (headers : List MailHeader) : OpenFolder × Bool :=
  if f.firstPageArrived || !f.headers.isEmpty || headers.isEmpty then (f, false)
  else
    ({ f with
        nextPage := max (headers.length / pageSize) 1
        rows := headers.map (RowModel.fromHeader zone)
        headers := headers },
      true)

/-- `OpenFolder::page_failed`. -/
def pageFailed (f : OpenFolder) : OpenFolder := { f with pageRequest := none }

/-- `OpenFolder::set_flags`. -/
def setFlags (f : OpenFolder) (uid : Nat) (flags : List String) : OpenFolder × Option Nat :=
  match rowOf f.headers uid with
  | none => (f, none)
  | some row =>
    match f.headers[row]? with
    | none => (f, none)
    | some h =>
      ({ f with
          headers := f.headers.set row { h with flags := flags }
          rows := f.rows.set row (RowModel.fromHeader zone { h with flags := flags }) },
        some row)

/-- `OpenFolder::remove`. -/
def remove (f : OpenFolder) (uid : Nat) : OpenFolder × Option Nat :=
  match rowOf f.headers uid with
  | none => (f, none)
  | some row =>
    ({ f with headers := f.headers.eraseIdx row, rows := f.rows.eraseIdx row }, some row)

/-! ## 2. What `merge_newest` leaves loaded -/

theorem retainAt_eq_filter {p : MailHeader → Bool} {gone : List Nat} :
    ∀ (l : List MailHeader) (i : Nat),
      (∀ j h, l[j]? = some h → (i + j ∈ gone ↔ p h = true)) →
      retainAt gone i l = l.filter (fun h => !p h)
  | [], _, _ => rfl
  | x :: xs, i, hg => by
    have hx : i ∈ gone ↔ p x = true := by simpa using hg 0 x rfl
    have ih := retainAt_eq_filter xs (i + 1) (fun j h hj => by
      have := hg (j + 1) h (by simpa using hj)
      rwa [show i + 1 + j = i + (j + 1) by omega])
    by_cases h : i ∈ gone
    · simp [retainAt, h, hx.mp h, ih]
    · have hp : p x = false := by simpa using fun hp => h (hx.mpr hp)
      simp [retainAt, h, hp, ih]

/-- The rows a refresh keeps before it inserts the page. -/
theorem retainAt_goneAt (headers fresh : List MailHeader) :
    retainAt (goneAt headers fresh) 0 headers = headers.filter (fun h => !isGone fresh h) := by
  refine retainAt_eq_filter headers 0 (fun j h hj => ?_)
  obtain ⟨hlt, hget⟩ := List.getElem?_eq_some_iff.mp hj
  simp [goneAt, hlt, hget]

/-- Newest first, no UID twice. -/
def Descending (l : List MailHeader) : Prop := (uids l).Pairwise (· > ·)

theorem Descending.filter {l : List MailHeader} (h : Descending l) (p : MailHeader → Bool) :
    Descending (l.filter p) :=
  List.Pairwise.sublist (List.Sublist.map _ List.filter_sublist) h

/-- In a list that is newest first the last UID is the least. -/
theorem Descending.last_le {l : List MailHeader} (hd : Descending l) {h x : MailHeader}
    (hl : l.getLast? = some x) (hm : h ∈ l) : x.uid ≤ h.uid := by
  obtain ⟨ys, rfl⟩ := List.getLast?_eq_some_iff.mp hl
  rcases List.mem_append.mp hm with hy | hy
  · simp only [Descending, uids_append] at hd
    have := (List.pairwise_append.mp hd).2.2 h.uid (mem_uids_of_mem hy) x.uid (by simp)
    omega
  · rw [List.mem_singleton.mp hy]

theorem rowOf_eq_none {headers : List MailHeader} {uid : Nat} :
    rowOf headers uid = none ↔ uid ∉ uids headers := by
  simp [rowOf, List.findIdx?_eq_none_iff, mem_uids]

theorem rowOf_eq_some {headers : List MailHeader} {uid row : Nat}
    (h : rowOf headers uid = some row) :
    ∃ old, headers[row]? = some old ∧ old.uid = uid := by
  obtain ⟨hlt, hp, -⟩ := List.findIdx?_eq_some_iff_getElem.mp h
  exact ⟨headers[row], List.getElem?_eq_getElem hlt, by simpa using hp⟩

/-- Replacing a row by a header of the same UID changes no UID. -/
theorem uids_set {l : List MailHeader} {row : Nat} {old h : MailHeader}
    (hold : l[row]? = some old) (hu : old.uid = h.uid) : uids (l.set row h) = uids l := by
  have hlt : row < l.length := (List.getElem?_eq_some_iff.mp hold).1
  have hget : l[row] = old := (List.getElem?_eq_some_iff.mp hold).2
  refine List.ext_getElem (by simp [uids]) (fun j h1 h2 => ?_)
  simp only [uids, List.getElem_map, List.getElem_set]
  split
  · rename_i hj
    subst hj
    rw [hget, hu]
  · rfl

/-- Where a message of the page is put in is inside the list, or at its end. -/
theorem slot_le (l : List MailHeader) (h : MailHeader) :
    (l.findIdx? (fun old => decide (old.uid < h.uid))).getD l.length ≤ l.length := by
  cases hf : l.findIdx? (fun old => decide (old.uid < h.uid)) with
  | none => exact Nat.le_refl _
  | some i => exact Nat.le_of_lt (List.findIdx?_eq_some_iff_getElem.mp hf).1

/-- What one message of the page does to the UIDs. -/
theorem mem_uids_mergeOne {acc : List MailHeader × List RowModel × List Edit} {h : MailHeader}
    {u : Nat} : u ∈ uids (mergeOne zone acc h).1 ↔ u = h.uid ∨ u ∈ uids acc.1 := by
  unfold mergeOne
  cases hr : rowOf acc.1 h.uid with
  | some row =>
    obtain ⟨old, hold, hu⟩ := rowOf_eq_some hr
    simp only [uids_set hold hu]
    refine ⟨Or.inr, ?_⟩
    rintro (rfl | hm)
    · exact hu ▸ mem_uids_of_mem (List.mem_of_getElem? hold)
    · exact hm
  | none =>
    simp only [uids, List.mem_map, List.mem_insertIdx (slot_le acc.1 h)]
    constructor
    · rintro ⟨x, rfl | hx, rfl⟩
      · exact Or.inl rfl
      · exact Or.inr ⟨x, hx, rfl⟩
    · rintro (rfl | ⟨x, hx, rfl⟩)
      · exact ⟨h, Or.inl rfl, rfl⟩
      · exact ⟨x, Or.inr hx, rfl⟩

theorem mem_uids_foldl_mergeOne {u : Nat} :
    ∀ (fresh : List MailHeader) (acc : List MailHeader × List RowModel × List Edit),
      u ∈ uids (fresh.foldl (mergeOne zone) acc).1 ↔ u ∈ uids fresh ∨ u ∈ uids acc.1
  | [], acc => by simp
  | h :: t, acc => by
    rw [List.foldl_cons, mem_uids_foldl_mergeOne t, mem_uids_mergeOne]
    simp only [uids_cons, List.mem_cons]
    tauto

/-- The UIDs loaded after a refresh: those of the page, and the loaded ones older than it. -/
theorem mem_uids_mergeNewest {f : OpenFolder} {fresh : List MailHeader} {u : Nat} :
    u ∈ uids (f.mergeNewest zone fresh).1.headers ↔
      u ∈ uids fresh ∨ (u ∈ uids f.headers ∧ u < floorOf fresh) := by
  simp only [mergeNewest, mem_uids_foldl_mergeOne, retainAt_goneAt]
  constructor
  · rintro (h | h)
    · exact Or.inl h
    · obtain ⟨x, hx, rfl⟩ := mem_uids.mp h
      obtain ⟨hxl, hg⟩ := List.mem_filter.mp hx
      by_cases hf : x.uid ∈ uids fresh
      · exact Or.inl hf
      · refine Or.inr ⟨mem_uids_of_mem hxl, ?_⟩
        simp only [isGone, Bool.not_eq_true', Bool.and_eq_false_iff, decide_eq_false_iff_not,
          Bool.not_eq_false', List.contains_eq_mem, decide_eq_true_eq] at hg
        rcases hg with hg | hg
        · omega
        · exact absurd hg hf
  · rintro (h | ⟨h, hlt⟩)
    · exact Or.inl h
    · obtain ⟨x, hx, rfl⟩ := mem_uids.mp h
      refine Or.inr (mem_uids_of_mem (List.mem_filter.mpr ⟨hx, ?_⟩))
      simp only [isGone, Bool.not_eq_true', Bool.and_eq_false_iff, decide_eq_false_iff_not]
      exact Or.inl (by omega)

/-! ## 3. The rows stay sorted -/

/-- Inserting in front of the first smaller UID keeps the order. -/
theorem pairwise_insertIdx_findIdx {l : List MailHeader} {h : MailHeader} (hd : Descending l)
    (hn : h.uid ∉ uids l) :
    Descending (l.insertIdx ((l.findIdx? (fun old => decide (old.uid < h.uid))).getD l.length) h) := by
  induction l with
  | nil => simp [Descending]
  | cons x xs ih =>
    simp only [uids_cons, List.mem_cons, not_or] at hn
    have hd' : (∀ u ∈ uids xs, x.uid > u) ∧ Descending xs := by
      simpa [Descending] using hd
    by_cases hx : x.uid < h.uid
    · have h0 : ((x :: xs).findIdx? (fun old => decide (old.uid < h.uid))).getD
          (x :: xs).length = 0 := by simp [List.findIdx?_cons, hx]
      rw [h0]
      simp only [List.insertIdx_zero, Descending, uids_cons, List.pairwise_cons]
      refine ⟨?_, hd'.1, hd'.2⟩
      intro u hu
      rcases List.mem_cons.mp hu with rfl | hu
      · exact hx
      · exact Nat.lt_trans (hd'.1 u hu) hx
    · have h1 : ((x :: xs).findIdx? (fun old => decide (old.uid < h.uid))).getD (x :: xs).length
          = ((xs.findIdx? (fun old => decide (old.uid < h.uid))).getD xs.length) + 1 := by
        cases hf : xs.findIdx? (fun old => decide (old.uid < h.uid)) <;>
          simp [List.findIdx?_cons, hx, hf]
      rw [h1]
      simp only [List.insertIdx_succ_cons, Descending, uids_cons, List.pairwise_cons]
      refine ⟨?_, ih hd'.2 hn.2⟩
      intro u hu
      obtain ⟨y, hy, rfl⟩ := mem_uids.mp hu
      rcases (List.mem_insertIdx (slot_le xs h)).mp hy with rfl | hy
      · omega
      · exact hd'.1 y.uid (mem_uids_of_mem hy)

theorem descending_mergeOne {acc : List MailHeader × List RowModel × List Edit} {h : MailHeader}
    (hd : Descending acc.1) : Descending (mergeOne zone acc h).1 := by
  unfold mergeOne
  cases hr : rowOf acc.1 h.uid with
  | some row =>
    obtain ⟨old, hold, hu⟩ := rowOf_eq_some hr
    simpa only [Descending, uids_set hold hu] using hd
  | none => exact pairwise_insertIdx_findIdx hd (rowOf_eq_none.mp hr)

theorem descending_foldl_mergeOne :
    ∀ (fresh : List MailHeader) (acc : List MailHeader × List RowModel × List Edit),
      Descending acc.1 → Descending (fresh.foldl (mergeOne zone) acc).1
  | [], _, hd => hd
  | _ :: t, _, hd => descending_foldl_mergeOne t _ (descending_mergeOne zone hd)

theorem descending_mergeNewest {f : OpenFolder} {fresh : List MailHeader}
    (hd : Descending f.headers) : Descending (f.mergeNewest zone fresh).1.headers := by
  simp only [mergeNewest]
  refine descending_foldl_mergeOne zone fresh _ ?_
  simpa only [retainAt_goneAt] using hd.filter _

/-- What an append adds is older than every loaded row. -/
theorem Descending.lt_of_appended {headers page : List MailHeader} (hd : Descending headers)
    {x h : MailHeader} (hx : x ∈ appended headers page) (hh : h ∈ headers) : x.uid < h.uid := by
  have hlt := (List.mem_filter.mp hx).2
  cases hl : headers.getLast? with
  | none =>
    rw [List.getLast?_eq_none_iff] at hl
    rw [hl] at hh
    exact absurd hh (by simp)
  | some z =>
    have hle := hd.last_le hl hh
    simp only [hl, Option.map_some, Option.getD_some, decide_eq_true_eq] at hlt
    omega

/-- An append keeps the order. -/
theorem Descending.append {headers page : List MailHeader} (hd : Descending headers)
    (hp : Descending page) : Descending (headers ++ appended headers page) := by
  simp only [Descending, uids_append]
  refine List.pairwise_append.mpr ⟨hd, hp.filter _, ?_⟩
  intro a ha b hb
  obtain ⟨x, hx, rfl⟩ := mem_uids.mp ha
  obtain ⟨y, hy, rfl⟩ := mem_uids.mp hb
  exact hd.lt_of_appended hy hx

/-- An append adds every message of the page that is older than all the loaded ones. -/
theorem mem_appended_of_lt {headers page : List MailHeader} {x : MailHeader} (hx : x ∈ page)
    (hmax : x.uid < u32Max) (hlt : ∀ h ∈ headers, x.uid < h.uid) : x ∈ appended headers page := by
  refine List.mem_filter.mpr ⟨hx, ?_⟩
  cases hl : headers.getLast? with
  | none => simpa using hmax
  | some z => simpa using hlt z (List.mem_of_getLast? hl)

/-! ## 4. What a reply does, by the branch it takes -/

/-- What `applyReply` makes of a folder, one constructor for each of its branches.  Only the
UIDs of the new rows are recorded, which is all that the properties of the list speak of. -/
inductive ReplyEffect (f : OpenFolder) (id page totalPages : Nat) (reply : List MailHeader) :
    OpenFolder → Prop
  | stale : f.pageRequest ≠ some id → f.refreshRequest ≠ some id →
      ReplyEffect f id page totalPages reply f
  | appended {headers : List MailHeader} {rows : List RowModel} : f.pageRequest = some id →
      f.isCachedOnly = false → headers = f.headers ++ appended f.headers reply →
      ReplyEffect f id page totalPages reply
        { f with
          pageRequest := none
          totalPages := some totalPages
          firstPageArrived := true
          nextPage := page + 1
          headers := headers
          rows := rows }
  | merged {headers : List MailHeader} {rows : List RowModel} : f.pageRequest = some id →
      f.isCachedOnly = true → (Descending f.headers → Descending headers) →
      (∀ u, u ∈ uids headers ↔ u ∈ uids reply ∨ (u ∈ uids f.headers ∧ u < floorOf reply)) →
      ReplyEffect f id page totalPages reply
        { f with
          pageRequest := none
          totalPages := some totalPages
          firstPageArrived := true
          nextPage := max f.nextPage (page + 1)
          headers := headers
          rows := rows }
  | refreshed {headers : List MailHeader} {rows : List RowModel} : f.pageRequest ≠ some id →
      f.refreshRequest = some id → (Descending f.headers → Descending headers) →
      (∀ u, u ∈ uids headers ↔ u ∈ uids reply ∨ (u ∈ uids f.headers ∧ u < floorOf reply)) →
      ReplyEffect f id page totalPages reply
        { f with
          refreshRequest := none
          totalPages := some totalPages
          headers := headers
          rows := rows }

theorem applyReply_effect (f : OpenFolder) (id page totalPages : Nat) (reply : List MailHeader) :
    ReplyEffect f id page totalPages reply (f.applyReply zone id page totalPages reply).1 := by
  unfold applyReply
  split
  · rename_i hreq
    cases hc : f.isCachedOnly with
    | true =>
      exact ReplyEffect.merged hreq hc (fun hd => descending_mergeNewest zone hd)
        (fun _ => mem_uids_mergeNewest zone)
    | false => exact ReplyEffect.appended hreq hc rfl
  · rename_i hpage
    split
    · rename_i hreq
      exact ReplyEffect.refreshed hpage hreq (fun hd => descending_mergeNewest zone hd)
        (fun _ => mem_uids_mergeNewest zone)
    · rename_i hrefresh
      exact ReplyEffect.stale hpage hrefresh

/-! ## 5. The other operations -/

theorem nextRequest_cases (f : OpenFolder) :
    f.nextRequest = (f, none) ∨
      (f.pageRequest = none ∧ f.isComplete = false ∧
        f.nextRequest = ({ f with
            ids := ⟨f.ids.current + 1⟩
            pageRequest := some (f.ids.current + 1) },
          some ⟨f.nextPage, f.ids.current + 1⟩)) := by
  unfold nextRequest
  split
  · exact Or.inl rfl
  · rename_i h
    simp only [Bool.or_eq_true, not_or, Bool.not_eq_true, Option.isSome_eq_false_iff,
      Option.isNone_iff_eq_none] at h
    exact Or.inr ⟨h.1, h.2, rfl⟩

theorem refreshRequestOf_cases (f : OpenFolder) :
    f.refreshRequestOf = (f, none) ∨
      (f.firstPageArrived = true ∧
        f.refreshRequestOf = ({ f with
            ids := ⟨f.ids.current + 1⟩
            refreshRequest := some (f.ids.current + 1) },
          some (f.ids.current + 1))) := by
  unfold refreshRequestOf
  split
  · exact Or.inl rfl
  · rename_i h
    exact Or.inr ⟨by simpa using h, rfl⟩

theorem seed_cases (f : OpenFolder) (headers : List MailHeader) :
    f.seed zone headers = (f, false) ∨
      (f.firstPageArrived = false ∧ f.headers = [] ∧
        f.seed zone headers = ({ f with
            nextPage := max (headers.length / pageSize) 1
            rows := headers.map (RowModel.fromHeader zone)
            headers := headers }, true)) := by
  unfold seed
  split
  · exact Or.inl rfl
  · rename_i h
    simp only [Bool.or_eq_true, not_or, Bool.not_eq_true, Bool.not_eq_false',
      List.isEmpty_iff] at h
    exact Or.inr ⟨h.1.1, h.1.2, rfl⟩

/-- `setFlags` changes no UID. -/
theorem setFlags_effect (f : OpenFolder) (uid : Nat) (flags : List String) :
    ∃ headers rows, (f.setFlags zone uid flags).1 = { f with headers := headers, rows := rows } ∧
      uids headers = uids f.headers := by
  unfold setFlags
  split
  · exact ⟨f.headers, f.rows, rfl, rfl⟩
  · split
    · exact ⟨f.headers, f.rows, rfl, rfl⟩
    · rename_i h hget
      exact ⟨_, _, rfl, uids_set hget rfl⟩

/-- `remove` drops at most the row of its message. -/
theorem remove_effect (f : OpenFolder) (uid : Nat) :
    ∃ headers rows, (f.remove uid).1 = { f with headers := headers, rows := rows } ∧
      List.Sublist headers f.headers ∧ ∀ u ∈ uids f.headers, u ≠ uid → u ∈ uids headers := by
  unfold remove
  split
  · exact ⟨f.headers, f.rows, rfl, List.Sublist.refl _, fun u hu _ => hu⟩
  · rename_i row hrow
    refine ⟨_, _, rfl, List.eraseIdx_sublist _ _, ?_⟩
    intro u hu hne
    obtain ⟨old, hold, hou⟩ := rowOf_eq_some hrow
    obtain ⟨x, hx, rfl⟩ := mem_uids.mp hu
    refine mem_uids_of_mem (List.mem_eraseIdx_iff_getElem?.mpr ?_)
    obtain ⟨j, hj⟩ := List.mem_iff_getElem?.mp hx
    refine ⟨j, ?_, hj⟩
    rintro rfl
    rw [hold, Option.some.injEq] at hj
    exact hne (hj ▸ hou)

end OpenFolder

end Esmail
