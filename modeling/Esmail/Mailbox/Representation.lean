/-
# The representation of an open folder

`OpenFolder` keeps two parallel vectors, the headers and the rows drawn for them, and the ids of
the requests that are under way.  `Represents` is what ties these together: the headers are
newest first, the rows are `RowModel.fromHeader` of the headers one by one, and an id that is
under way has not been used up by a reply.

`representation` has it of every run: the machine is the folder alone, its operations in ANY order, and
replies with any id, page and headers, since nothing here depends on what the server holds.  Only the
pages and the seeds are asked to be newest first themselves (`descendingPages`).

`Represents` is two invariants that have nothing to do with each other.  `Shown` is about the vectors, and
every operation on the one is matched by one on the other (`InStep`); `Awaits` is about the ids, and most
operations do not touch them (`of_same`).  `applied` records the ids whose reply `applyReply` has
accepted; the folder does not read it.
-/
import Esmail.Library.Machine
import Esmail.Mailbox.OpenFolder
import Mathlib.Data.List.InsertIdx

namespace Esmail

open Transition

/-! ## 1. The rows follow the headers -/

theorem retainAt_map {α β : Type} (g : α → β) (gone : List Nat) :
    ∀ (l : List α) (i : Nat), retainAt gone i (l.map g) = (retainAt gone i l).map g := by
  intro l
  induction l with
  | nil => exact fun _ => rfl
  | cons x xs ih =>
    intro i
    simp only [List.map_cons, retainAt]
    split
    · exact ih (i + 1)
    · rw [List.map_cons, ih (i + 1)]

namespace OpenFolder

variable (zone : LocalDateTime)

/-- The two vectors agree row by row. -/
def InStep (headers : List MailHeader) (rows : List RowModel) : Prop :=
  rows = headers.map (RowModel.fromHeader zone)

variable {zone}

theorem InStep.mergeOne {acc : List MailHeader × List RowModel × List Edit} {h : MailHeader}
    (hacc : InStep zone acc.1 acc.2.1) :
    InStep zone (mergeOne zone acc h).1 (mergeOne zone acc h).2.1 := by
  unfold OpenFolder.mergeOne
  cases rowOf acc.1 h.uid with
  | some row => simp only [InStep, List.map_set, hacc.symm]
  | none => simp only [InStep, List.map_insertIdx, hacc.symm]

theorem InStep.foldl_mergeOne (fresh : List MailHeader) :
    ∀ acc : List MailHeader × List RowModel × List Edit, InStep zone acc.1 acc.2.1 →
      InStep zone (fresh.foldl (OpenFolder.mergeOne zone) acc).1
        (fresh.foldl (OpenFolder.mergeOne zone) acc).2.1 := by
  induction fresh with
  | nil => exact fun _ hacc => hacc
  | cons h t ih => exact fun _ hacc => ih _ hacc.mergeOne

theorem InStep.append {f : OpenFolder} {page : List MailHeader}
    (hf : InStep zone f.headers f.rows) :
    InStep zone (f.append zone page).1.headers (f.append zone page).1.rows := by
  have hrows : f.rows = f.headers.map (RowModel.fromHeader zone) := hf
  simp only [OpenFolder.append, InStep, List.map_append, hrows]

theorem InStep.mergeNewest {f : OpenFolder} {fresh : List MailHeader}
    (hf : InStep zone f.headers f.rows) :
    InStep zone (f.mergeNewest zone fresh).1.headers (f.mergeNewest zone fresh).1.rows := by
  refine InStep.foldl_mergeOne fresh _ ?_
  have hrows : f.rows = f.headers.map (RowModel.fromHeader zone) := hf
  simp only [InStep, hrows, retainAt_map]

/-- A reply accepted for a page, or for a refresh, or not at all. -/
theorem InStep.applyReply {f : OpenFolder} (hf : InStep zone f.headers f.rows)
    (id page totalPages : Nat) (reply : List MailHeader) :
    InStep zone (f.applyReply zone id page totalPages reply).1.headers
      (f.applyReply zone id page totalPages reply).1.rows := by
  unfold OpenFolder.applyReply
  split
  · cases f.isCachedOnly with
    | true => exact InStep.mergeNewest (f := { f with
        pageRequest := none, totalPages := some totalPages, firstPageArrived := true
        nextPage := max f.nextPage (page + 1) }) hf
    | false => exact InStep.append (f := { f with
        pageRequest := none, totalPages := some totalPages, firstPageArrived := true
        nextPage := page + 1 }) hf
  · split
    · exact InStep.mergeNewest (f := { f with
        refreshRequest := none, totalPages := some totalPages }) hf
    · exact hf

theorem InStep.seed {f : OpenFolder} (hf : InStep zone f.headers f.rows)
    (headers : List MailHeader) :
    InStep zone (f.seed zone headers).1.headers (f.seed zone headers).1.rows := by
  rcases f.seed_cases zone headers with he | ⟨-, -, he⟩
  · rw [he]
    exact hf
  · rw [he]
    exact rfl

theorem InStep.setFlags {f : OpenFolder} (hf : InStep zone f.headers f.rows) (uid : Nat)
    (flags : List String) :
    InStep zone (f.setFlags zone uid flags).1.headers (f.setFlags zone uid flags).1.rows := by
  have hrows : f.rows = f.headers.map (RowModel.fromHeader zone) := hf
  unfold OpenFolder.setFlags
  split
  · exact hf
  · split
    · exact hf
    · simp only [InStep, List.map_set, hrows]

theorem InStep.remove {f : OpenFolder} {uid : Nat} (hf : InStep zone f.headers f.rows) :
    InStep zone (f.remove uid).1.headers (f.remove uid).1.rows := by
  have hrows : f.rows = f.headers.map (RowModel.fromHeader zone) := hf
  unfold OpenFolder.remove
  split
  · exact hf
  · simp only [InStep, hrows, List.eraseIdx_map]

theorem length_setFlags (f : OpenFolder) (uid : Nat) (flags : List String) :
    (f.setFlags zone uid flags).1.rows.length = f.rows.length := by
  unfold OpenFolder.setFlags
  split
  · rfl
  · split
    · rfl
    · exact List.length_set

theorem remove_none {f : OpenFolder} {uid : Nat} (hrow : (f.remove uid).2 = none) :
    (f.remove uid).1 = f := by
  unfold OpenFolder.remove at hrow ⊢
  split at hrow
  · rfl
  · cases hrow

theorem length_remove {f : OpenFolder} {uid row : Nat} (hf : InStep zone f.headers f.rows)
    (hrow : (f.remove uid).2 = some row) :
    (f.remove uid).1.rows.length = f.rows.length - 1 := by
  have hlength : f.rows.length = f.headers.length := by
    rw [show f.rows = _ from hf, List.length_map]
  unfold OpenFolder.remove at hrow ⊢
  split
  · next hnone =>
    rw [hnone] at hrow
    cases hrow
  · next row' hsome =>
    have hlt : row' < f.rows.length := hlength ▸ (List.findIdx?_eq_some_iff_getElem.mp hsome).1
    exact List.length_eraseIdx_of_lt hlt

/-- What a folder keeps of its representation: the order, and the rows of the headers. -/
structure Shown (zone : LocalDateTime) (f : OpenFolder) : Prop where
  sorted : Descending f.headers
  inStep : InStep zone f.headers f.rows

theorem Shown.append {f : OpenFolder} {page : List MailHeader} (hf : Shown zone f)
    (hpage : Descending page) : Shown zone (f.append zone page).1 :=
  ⟨hf.sorted.append hpage, hf.inStep.append⟩

theorem Shown.mergeNewest {f : OpenFolder} {fresh : List MailHeader} (hf : Shown zone f) :
    Shown zone (f.mergeNewest zone fresh).1 :=
  ⟨descending_mergeNewest zone hf.sorted, hf.inStep.mergeNewest⟩

/-- A reply accepted for a page, or for a refresh, or not at all. -/
theorem Shown.applyReply {f : OpenFolder} {id page totalPages : Nat} {reply : List MailHeader}
    (hf : Shown zone f) (hreply : Descending reply) :
    Shown zone (f.applyReply zone id page totalPages reply).1 := by
  unfold OpenFolder.applyReply
  split
  · cases f.isCachedOnly with
    | true => exact Shown.mergeNewest ⟨hf.sorted, hf.inStep⟩
    | false => exact Shown.append ⟨hf.sorted, hf.inStep⟩ hreply
  · split
    · exact Shown.mergeNewest ⟨hf.sorted, hf.inStep⟩
    · exact hf

theorem Shown.seed {f : OpenFolder} {headers : List MailHeader} (hf : Shown zone f)
    (hheaders : Descending headers) : Shown zone (f.seed zone headers).1 := by
  refine ⟨?_, hf.inStep.seed headers⟩
  rcases f.seed_cases zone headers with he | ⟨-, -, he⟩
  · rw [he]
    exact hf.sorted
  · rw [he]
    exact hheaders

theorem Shown.setFlags {f : OpenFolder} {uid : Nat} {flags : List String} (hf : Shown zone f) :
    Shown zone (f.setFlags zone uid flags).1 := by
  refine ⟨?_, hf.inStep.setFlags uid flags⟩
  obtain ⟨headers, rows, he, hsame⟩ := f.setFlags_effect zone uid flags
  rw [he]
  simpa only [Descending, hsame] using hf.sorted

theorem Shown.remove {f : OpenFolder} {uid : Nat} (hf : Shown zone f) :
    Shown zone (f.remove uid).1 := by
  refine ⟨?_, hf.inStep.remove⟩
  obtain ⟨headers, rows, he, hsub, -⟩ := f.remove_effect uid
  rw [he]
  exact List.Pairwise.sublist (hsub.map _) hf.sorted

/-! ## 2. The requests under way -/

/-- A reply whose id is not under way changes nothing. -/
theorem applyReply_foreign {f : OpenFolder} {id page totalPages : Nat} {reply : List MailHeader}
    (hpage : f.pageRequest ≠ some id) (hrefresh : f.refreshRequest ≠ some id) :
    f.applyReply zone id page totalPages reply = (f, none) := by
  simp only [OpenFolder.applyReply, if_neg hpage, if_neg hrefresh]

/-- Each id under way was handed out, is under way once, and was not used up. -/
structure Awaits (f : OpenFolder) (applied : List Nat) : Prop where
  page : ∀ id, f.pageRequest = some id → id ≤ f.ids.current ∧ id ∉ applied
  refresh : ∀ id, f.refreshRequest = some id → id ≤ f.ids.current ∧ id ∉ applied
  apart : ∀ id, f.pageRequest = some id → f.refreshRequest ≠ some id
  used : ∀ id ∈ applied, id ≤ f.ids.current
  once : applied.Nodup

/-- The fields of a folder that say which requests are under way. -/
def SameRequests (f f' : OpenFolder) : Prop :=
  f'.ids = f.ids ∧ f'.pageRequest = f.pageRequest ∧ f'.refreshRequest = f.refreshRequest

theorem Awaits.of_same {f f' : OpenFolder} {applied : List Nat} (hf : f.Awaits applied)
    (hsame : SameRequests f f') : f'.Awaits applied := by
  obtain ⟨hids, hpage, hrefresh⟩ := hsame
  constructor
  · rw [hids, hpage]
    exact hf.page
  · rw [hids, hrefresh]
    exact hf.refresh
  · rw [hpage, hrefresh]
    exact hf.apart
  · rw [hids]
    exact hf.used
  · exact hf.once

theorem Awaits.pageFailed {f : OpenFolder} {applied : List Nat} (hf : f.Awaits applied) :
    f.pageFailed.Awaits applied :=
  ⟨fun _ h => absurd h (by simp [OpenFolder.pageFailed]), hf.refresh,
    fun _ h => absurd h (by simp [OpenFolder.pageFailed]), hf.used, hf.once⟩

theorem Awaits.nextRequest {f : OpenFolder} {applied : List Nat} (hf : f.Awaits applied) :
    f.nextRequest.1.Awaits applied := by
  rcases f.nextRequest_cases with he | ⟨-, -, he⟩
  · rw [he]
    exact hf
  · rw [he]
    constructor
    · rintro id h
      obtain rfl := Option.some.inj h
      exact ⟨Nat.le_refl _, fun hu => absurd (hf.used _ hu) (by simp)⟩
    · exact fun id h => ⟨Nat.le_succ_of_le (hf.refresh id h).1, (hf.refresh id h).2⟩
    · rintro id h hr
      obtain rfl := Option.some.inj h
      exact absurd (hf.refresh _ hr).1 (by simp)
    · exact fun id hu => Nat.le_succ_of_le (hf.used id hu)
    · exact hf.once

theorem Awaits.refreshRequestOf {f : OpenFolder} {applied : List Nat} (hf : f.Awaits applied) :
    f.refreshRequestOf.1.Awaits applied := by
  rcases f.refreshRequestOf_cases with he | ⟨-, he⟩
  · rw [he]
    exact hf
  · rw [he]
    constructor
    · exact fun id h => ⟨Nat.le_succ_of_le (hf.page id h).1, (hf.page id h).2⟩
    · rintro id h
      obtain rfl := Option.some.inj h
      exact ⟨Nat.le_refl _, fun hu => absurd (hf.used _ hu) (by simp)⟩
    · rintro id h hr
      obtain rfl := Option.some.inj hr
      exact absurd (hf.page _ h).1 (by simp)
    · exact fun id hu => Nat.le_succ_of_le (hf.used id hu)
    · exact hf.once

/-- The ids used up after a reply: its own joins them when it was accepted. -/
def usedUp (applied : List Nat) (id : Nat) : Option Applied → List Nat
  | some _ => id :: applied
  | none => applied

theorem Awaits.applyReply {f : OpenFolder} {applied : List Nat} {id page totalPages : Nat}
    {reply : List MailHeader} (hf : f.Awaits applied) :
    (f.applyReply zone id page totalPages reply).1.Awaits
      (usedUp applied id (f.applyReply zone id page totalPages reply).2) := by
  -- An accepted id was under way, so it is new to `applied`; it is under way no longer.
  unfold OpenFolder.applyReply
  split
  · rename_i hreq
    have hused : f.Awaits applied → (id :: applied).Nodup ∧ ∀ i ∈ id :: applied, i ≤ f.ids.current := by
      intro hf
      refine ⟨List.nodup_cons.mpr ⟨(hf.page id hreq).2, hf.once⟩, fun i hi => ?_⟩
      rcases List.mem_cons.mp hi with rfl | hi
      · exact (hf.page i hreq).1
      · exact hf.used i hi
    have hrefresh : ∀ i, f.refreshRequest = some i → i ≤ f.ids.current ∧ i ∉ id :: applied := by
      intro i hi
      refine ⟨(hf.refresh i hi).1, fun hmem => ?_⟩
      rcases List.mem_cons.mp hmem with rfl | hmem
      · exact hf.apart i hreq hi
      · exact (hf.refresh i hi).2 hmem
    cases f.isCachedOnly with
    | true =>
      exact ⟨fun _ h => absurd h (by simp [OpenFolder.mergeNewest]), hrefresh,
        fun _ h => absurd h (by simp [OpenFolder.mergeNewest]), (hused hf).2, (hused hf).1⟩
    | false =>
      exact ⟨fun _ h => absurd h (by simp [OpenFolder.append]), hrefresh,
        fun _ h => absurd h (by simp [OpenFolder.append]), (hused hf).2, (hused hf).1⟩
  · rename_i hpage
    split
    · rename_i hreq
      constructor
      · intro i hi
        refine ⟨(hf.page i hi).1, fun hmem => ?_⟩
        rcases List.mem_cons.mp hmem with rfl | hmem
        · exact hpage hi
        · exact (hf.page i hi).2 hmem
      · exact fun _ h => absurd h (by simp [OpenFolder.mergeNewest])
      · exact fun _ _ h => absurd h (by simp [OpenFolder.mergeNewest])
      · intro i hi
        rcases List.mem_cons.mp hi with rfl | hi
        · exact (hf.refresh i hreq).1
        · exact hf.used i hi
      · exact List.nodup_cons.mpr ⟨(hf.refresh id hreq).2, hf.once⟩
    · exact hf

end OpenFolder

/-! ## 3. Runs of operations -/

/-- An open folder, with the ids whose reply it has accepted. -/
structure Viewed where
  folder : OpenFolder := {}
  applied : List Nat := []
  deriving DecidableEq

namespace Viewed

inductive Action
  | seed (headers : List MailHeader)
  | nextRequest
  | refreshRequest
  | applyReply (id page totalPages : Nat) (headers : List MailHeader)
  | setFlags (uid : Nat) (flags : List String)
  | remove (uid : Nat)
  | pageFailed

variable (zone : LocalDateTime)

def step (v : Viewed) : Action → Option Viewed
  | .seed headers => some { v with folder := (v.folder.seed zone headers).1 }
  | .nextRequest => some { v with folder := v.folder.nextRequest.1 }
  | .refreshRequest => some { v with folder := v.folder.refreshRequestOf.1 }
  | .applyReply id page totalPages headers =>
    let r := v.folder.applyReply zone id page totalPages headers
    some { folder := r.1, applied := OpenFolder.usedUp v.applied id r.2 }
  | .setFlags uid flags => some { v with folder := (v.folder.setFlags zone uid flags).1 }
  | .remove uid => some { v with folder := (v.folder.remove uid).1 }
  | .pageFailed => some { v with folder := v.folder.pageFailed }

/-- A fresh folder, and its operations. -/
def machine : Machine Viewed Action := ⟨fun v => v = {}, step zone⟩

/-- The pages and the seeds are newest first. -/
def descendingPages (_ : Viewed) : Action → Prop
  | .seed headers => OpenFolder.Descending headers
  | .applyReply _ _ _ headers => OpenFolder.Descending headers
  | _ => True

structure Represents (v : Viewed) : Prop where
  shown : OpenFolder.Shown zone v.folder
  awaits : v.folder.Awaits v.applied

variable {zone}

theorem Represents.step {v v' : Viewed} {a : Action} (hv : Represents zone v)
    (hok : descendingPages v a) (h : v.step zone a = some v') : Represents zone v' := by
  cases a with
  | seed headers =>
    obtain rfl := Option.some.inj h
    refine ⟨hv.shown.seed hok, hv.awaits.of_same ?_⟩
    rcases v.folder.seed_cases zone headers with he | ⟨-, -, he⟩ <;> rw [he] <;> exact ⟨rfl, rfl, rfl⟩
  | nextRequest =>
    obtain rfl := Option.some.inj h
    refine ⟨?_, hv.awaits.nextRequest⟩
    rcases v.folder.nextRequest_cases with he | ⟨-, -, he⟩ <;> rw [he] <;>
      exact ⟨hv.shown.sorted, hv.shown.inStep⟩
  | refreshRequest =>
    obtain rfl := Option.some.inj h
    refine ⟨?_, hv.awaits.refreshRequestOf⟩
    rcases v.folder.refreshRequestOf_cases with he | ⟨-, he⟩ <;> rw [he] <;>
      exact ⟨hv.shown.sorted, hv.shown.inStep⟩
  | applyReply id page totalPages headers =>
    obtain rfl := Option.some.inj h
    exact ⟨hv.shown.applyReply hok, hv.awaits.applyReply⟩
  | setFlags uid flags =>
    obtain rfl := Option.some.inj h
    refine ⟨hv.shown.setFlags, hv.awaits.of_same ?_⟩
    obtain ⟨headers, rows, he, -⟩ := v.folder.setFlags_effect zone uid flags
    rw [he]
    exact ⟨rfl, rfl, rfl⟩
  | remove uid =>
    obtain rfl := Option.some.inj h
    refine ⟨hv.shown.remove, hv.awaits.of_same ?_⟩
    obtain ⟨headers, rows, he, -⟩ := v.folder.remove_effect uid
    rw [he]
    exact ⟨rfl, rfl, rfl⟩
  | pageFailed =>
    obtain rfl := Option.some.inj h
    exact ⟨⟨hv.shown.sorted, hv.shown.inStep⟩, hv.awaits.pageFailed⟩

theorem represents_of_reach {v : Viewed} (h : (machine zone).Reach descendingPages v) :
    Represents zone v := by
  refine h.invariant ?_ fun _ _ _ _ hv hok hst => hv.step hok hst
  rintro v rfl
  constructor
  · exact ⟨List.Pairwise.nil, rfl⟩
  · constructor <;> simp

/-- Whatever the operations and their order: the headers are newest first, the rows are those of
the headers, no reply was accepted twice, and the reply to a request that is not under way is
not looked at. -/
theorem representation {v : Viewed} (h : (machine zone).Reach descendingPages v) :
    (uids v.folder.headers).Pairwise (· > ·) ∧
      (uids v.folder.headers).Nodup ∧
      v.folder.rows = v.folder.headers.map (RowModel.fromHeader zone) ∧
      v.applied.Nodup ∧
      ∀ id page totalPages reply, v.folder.pageRequest ≠ some id →
        v.folder.refreshRequest ≠ some id →
        v.step zone (.applyReply id page totalPages reply) = some v := by
  have hv := represents_of_reach h
  refine ⟨hv.shown.sorted, hv.shown.sorted.imp fun hlt => Nat.ne_of_gt hlt, hv.shown.inStep,
    hv.awaits.once, fun id page totalPages reply hpage hrefresh => ?_⟩
  simp only [step, OpenFolder.applyReply_foreign hpage hrefresh, OpenFolder.usedUp]

instance (l : List MailHeader) : Decidable (OpenFolder.Descending l) :=
  inferInstanceAs (Decidable ((uids l).Pairwise (· > ·)))

instance (v : Viewed) : (a : Action) → Decidable (descendingPages v a)
  | .seed headers => inferInstanceAs (Decidable (OpenFolder.Descending headers))
  | .applyReply _ _ _ headers => inferInstanceAs (Decidable (OpenFolder.Descending headers))
  | .nextRequest | .refreshRequest | .setFlags _ _ | .remove _ | .pageFailed => isTrue trivial

/-- A header that has nothing but its UID. -/
def bareHeader (uid : Nat) : MailHeader := ⟨uid, "", "", "", "", "", []⟩

/-- Such a run: a cached folder of two messages, then the reply to its first page, which lacks
one of them and has a new one, and that reply a second time. -/
theorem representation_of_two_replies : ∃ v : Viewed, uids v.folder.headers = [7, 5] ∧
    v.applied = [1] ∧ (uids v.folder.headers).Nodup := by
  obtain ⟨v, hr, hp⟩ := Machine.exists_reach_of_trace (machine fun _ => none) descendingPages
    [.seed [bareHeader 6, bareHeader 5], .nextRequest,
      .applyReply 1 1 1 [bareHeader 7, bareHeader 5], .applyReply 1 1 1 [bareHeader 9]]
    (fun v => decide (uids v.folder.headers = [7, 5] ∧ v.applied = [1])) rfl (by decide)
  obtain ⟨huids, happlied⟩ := of_decide_eq_true hp
  exact ⟨v, huids, happlied, (representation hr).2.1⟩

end Viewed

end Esmail
