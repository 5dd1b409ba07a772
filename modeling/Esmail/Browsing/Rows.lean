/-
# The list on screen is the model behind it

The list widget has a copy of the rows, which a dozen handlers bring up to date: they replace it,
extend it, or say which rows came and went.  `Mirrors` is what ties it to the search results, or to
the open folder where there are none.

`list_is_model` has it of every run in which a search is closed only over a folder (`closesOverFolder`):
the rows are those behind the list, the view counts as many, and under each row is the message that
`message_at` returns for it.  Closed over no folder, a search leaves its rows (`result_row_stays`).

`screen` is the part of the window that this is about, and most handlers leave it alone (section 4); the
others each have a lemma that they keep `Mirrors` (section 5).  A refresh is the one that has to be counted:
the list is not given the rows, but edits, and these lead from the number of rows there were to the number
there are (`counted_applyReply`).

What is in a row beside its message, and the selection, are in `Selection.lean`.
-/
import Esmail.Browsing.Window

namespace Esmail.Browsing

open Transition

variable {zone : LocalDateTime}

/-! ## 1. How many rows a refresh leaves -/

/-- The number of rows after an edit. -/
def counted (n : Nat) : Edit → Nat
  | .removed _ => n - 1
  | .inserted _ => n + 1

theorem counted_mergeOne {acc : List MailHeader × List RowModel × List Edit} {h : MailHeader}
    {n : Nat} (hacc : acc.2.2.foldl counted n = acc.1.length) :
    (OpenFolder.mergeOne zone acc h).2.2.foldl counted n =
      (OpenFolder.mergeOne zone acc h).1.length := by
  unfold OpenFolder.mergeOne
  cases OpenFolder.rowOf acc.1 h.uid with
  | some row => simpa using hacc
  | none =>
    simp only [List.foldl_append, List.foldl_cons, List.foldl_nil, hacc, counted,
      List.length_insertIdx_of_le_length (OpenFolder.slot_le acc.1 h)]

theorem counted_foldl_mergeOne {n : Nat} (fresh : List MailHeader) :
    ∀ acc : List MailHeader × List RowModel × List Edit, acc.2.2.foldl counted n = acc.1.length →
      (fresh.foldl (OpenFolder.mergeOne zone) acc).2.2.foldl counted n =
        (fresh.foldl (OpenFolder.mergeOne zone) acc).1.length := by
  induction fresh with
  | nil => exact fun _ hacc => hacc
  | cons h t ih => exact fun _ hacc => ih _ (counted_mergeOne hacc)

theorem counted_removed (l : List Nat) (n : Nat) :
    (l.map Edit.removed).foldl counted n = n - l.length := by
  induction l generalizing n with
  | nil => rfl
  | cons row l ih =>
    rw [List.map_cons, List.foldl_cons, ih, List.length_cons]
    simp only [counted]
    omega

/-- As many rows go as there are messages to drop. -/
theorem length_goneAt (headers fresh : List MailHeader) :
    (OpenFolder.goneAt headers fresh).length = headers.countP (OpenFolder.isGone fresh) := by
  have hrows : (List.range headers.length).map (fun i => headers[i]?) = headers.map some :=
    List.ext_getElem (by simp) (by simp)
  have hcount : (List.range headers.length).countP
      (Option.any (OpenFolder.isGone fresh) ∘ fun i => headers[i]?) =
        headers.countP (Option.any (OpenFolder.isGone fresh) ∘ some) := by
    rw [← List.countP_map, hrows, List.countP_map]
  rw [OpenFolder.goneAt, ← List.countP_eq_length_filter]
  exact hcount

theorem counted_mergeNewest (f : OpenFolder) (fresh : List MailHeader) :
    (f.mergeNewest zone fresh).2.foldl counted f.headers.length =
      (f.mergeNewest zone fresh).1.headers.length := by
  refine counted_foldl_mergeOne fresh _ ?_
  rw [counted_removed, List.length_reverse, OpenFolder.retainAt_goneAt, length_goneAt,
    ← List.countP_eq_length_filter]
  have htotal := List.length_eq_countP_add_countP (OpenFolder.isGone fresh) (l := f.headers)
  simp only [Bool.decide_eq_true, decide_not] at htotal ⊢
  omega

theorem counted_applyReply {f : OpenFolder} {id page totalPages : Nat} {reply : List MailHeader}
    {edits : List Edit}
    (h : (f.applyReply zone id page totalPages reply).2 = some (.refreshed edits)) :
    edits.foldl counted f.headers.length =
      (f.applyReply zone id page totalPages reply).1.headers.length := by
  unfold OpenFolder.applyReply at h ⊢
  split at h
  · next hreq =>
    rw [if_pos hreq]
    cases hcached : f.isCachedOnly with
    | true =>
      simp only [hcached, if_true] at h ⊢
      obtain rfl := Applied.refreshed.inj (Option.some.inj h)
      exact counted_mergeNewest _ reply
    | false =>
      simp only [hcached] at h
      cases Option.some.inj h
  · next hpage =>
    rw [if_neg hpage]
    split at h
    · next hreq =>
      rw [if_pos hreq]
      obtain rfl := Applied.refreshed.inj (Option.some.inj h)
      exact counted_mergeNewest _ reply
    · cases h

/-! ## 2. The list after a reply -/

namespace MessageList

theorem foldl_applyEdit (rows : List RowModel) (edits : List Edit) (l : MessageList) :
    (edits.foldl (applyEdit rows) l).len = edits.foldl counted l.len ∧
      (edits ≠ [] → (edits.foldl (applyEdit rows) l).rows = rows) := by
  induction edits generalizing l with
  | nil => exact ⟨rfl, fun h => absurd rfl h⟩
  | cons edit edits ih =>
    have hone : (applyEdit rows l edit).len = counted l.len edit ∧
        (applyEdit rows l edit).rows = rows := by
      cases edit <;> exact ⟨rfl, rfl⟩
    obtain ⟨hlen, hrows⟩ := ih (applyEdit rows l edit)
    refine ⟨by rw [List.foldl_cons, hlen, hone.1, List.foldl_cons], fun _ => ?_⟩
    by_cases hlast : edits = []
    · rw [hlast]
      exact hone.2
    · exact hrows hlast

/-- Whatever a reply did to the folder, the list that had the folder's rows has them again. -/
theorem showApplied_applyReply {f : OpenFolder} {id page totalPages : Nat} {reply : List MailHeader}
    {applied : Applied} {l : MessageList} (hf : OpenFolder.InStep zone f.headers f.rows)
    (h : (f.applyReply zone id page totalPages reply).2 = some applied)
    (hlen : l.len = f.rows.length) :
    l.showApplied applied (f.applyReply zone id page totalPages reply).1.rows page =
      ⟨(f.applyReply zone id page totalPages reply).1.rows,
        (f.applyReply zone id page totalPages reply).1.rows.length⟩ := by
  cases applied with
  | page added =>
    simp only [showApplied]
    split <;> rfl
  | refreshed edits =>
    have hbefore : l.len = f.headers.length := by
      rw [hlen, show f.rows = _ from hf, List.length_map]
    have hafter : edits.foldl counted l.len =
        (f.applyReply zone id page totalPages reply).1.rows.length := by
      rw [hbefore, counted_applyReply h,
        show (f.applyReply zone id page totalPages reply).1.rows = _ from
          hf.applyReply id page totalPages reply, List.length_map]
    generalize (f.applyReply zone id page totalPages reply).1.rows = rows at hafter ⊢
    simp only [showApplied]
    split
    · next hnone =>
      rw [List.isEmpty_iff.mp hnone] at hafter
      rw [updateRows, ← hafter]
      rfl
    · next hsome =>
      obtain ⟨hfold, hrows⟩ := foldl_applyEdit rows edits l
      have hne : edits ≠ [] := fun he => hsome (List.isEmpty_iff.mpr he)
      calc edits.foldl (applyEdit rows) l
          = ⟨(edits.foldl (applyEdit rows) l).rows, (edits.foldl (applyEdit rows) l).len⟩ := rfl
        _ = ⟨rows, rows.length⟩ := by rw [hrows hne, hfold, hafter]

end MessageList

/-! ## 3. What the list ought to show -/

namespace SearchResults

/-- The rows are those of the hits. -/
def InStep (zone : LocalDateTime) (r : SearchResults) : Prop :=
  r.rows = r.hits.map fun hit => RowModel.fromHeader zone hit.2

theorem InStep.remove {r : SearchResults} (h : r.InStep zone) (account : Nat) (mailbox : String)
    (uid : Nat) : (r.remove account mailbox uid).1.InStep zone := by
  have hrows : r.rows = r.hits.map fun hit => RowModel.fromHeader zone hit.2 := h
  unfold SearchResults.remove
  split
  · exact h
  · simp only [InStep, hrows, List.eraseIdx_map]

theorem InStep.setFlags {r : SearchResults} (h : r.InStep zone) (account : Nat) (mailbox : String)
    (uid : Nat) (flags : List String) :
    (r.setFlags zone account mailbox uid flags).1.InStep zone := by
  have hrows : r.rows = r.hits.map fun hit => RowModel.fromHeader zone hit.2 := h
  unfold SearchResults.setFlags
  split
  · exact h
  · split
    · exact h
    · simp only [InStep, hrows, List.map_set]

theorem length_setFlags (r : SearchResults) (account : Nat) (mailbox : String) (uid : Nat)
    (flags : List String) :
    (r.setFlags zone account mailbox uid flags).1.rows.length = r.rows.length := by
  unfold SearchResults.setFlags
  split
  · rfl
  · split
    · rfl
    · exact List.length_set

theorem remove_none {r : SearchResults} {account : Nat} {mailbox : String} {uid : Nat}
    (hrow : (r.remove account mailbox uid).2 = none) : (r.remove account mailbox uid).1 = r := by
  unfold SearchResults.remove at hrow ⊢
  split at hrow
  · rfl
  · cases hrow

theorem InStep.length_remove {r : SearchResults} {account : Nat} {mailbox : String} {uid row : Nat}
    (h : r.InStep zone) (hrow : (r.remove account mailbox uid).2 = some row) :
    (r.remove account mailbox uid).1.rows.length = r.rows.length - 1 := by
  have hlength : r.rows.length = r.hits.length := by
    rw [show r.rows = _ from h, List.length_map]
  unfold SearchResults.remove at hrow ⊢
  split
  · next hnone =>
    rw [hnone] at hrow
    cases hrow
  · next row' hsome =>
    have hlt : row' < r.rows.length := hlength ▸ (List.findIdx?_eq_some_iff_getElem.mp hsome).1
    exact List.length_eraseIdx_of_lt hlt

end SearchResults

namespace Window

/-- The rows behind the list: the search results' while there are some, else the open folder's. -/
def shownRows (w : Window) : List RowModel :=
  match w.search.results with
  | some results => results.rows
  | none => (w.opened.map fun o => o.2.rows).getD []

/-- What the list has to do with: the open folder's messages, the search results and the list. -/
def screen (w : Window) :
    Option (List MailHeader × List RowModel) × Option SearchResults × MessageList :=
  (w.opened.map fun o => (o.2.headers, o.2.rows), w.search.results, w.list)

/-- The list shows the rows behind it, and these are the rows of their messages. -/
structure Mirrors (zone : LocalDateTime) (w : Window) : Prop where
  list : w.list = ⟨w.shownRows, w.shownRows.length⟩
  opened : ∀ o ∈ w.opened, OpenFolder.InStep zone o.2.headers o.2.rows
  results : ∀ r ∈ w.search.results, r.InStep zone

theorem Mirrors.of_screen {w w' : Window} (h : Mirrors zone w) (hsame : w'.screen = w.screen) :
    Mirrors zone w' := by
  obtain ⟨hopened, hresults, hlist⟩ :
      (w'.opened.map fun o => (o.2.headers, o.2.rows)) =
          (w.opened.map fun o => (o.2.headers, o.2.rows)) ∧
        w'.search.results = w.search.results ∧ w'.list = w.list := by
    simpa only [screen, Prod.mk.injEq] using hsame
  have hrows : w'.opened.map (fun o => o.2.rows) = w.opened.map fun o => o.2.rows := by
    have hsecond := congrArg (Option.map Prod.snd) hopened
    rw [Option.map_map, Option.map_map] at hsecond
    exact hsecond
  have hshown : w'.shownRows = w.shownRows := by
    rw [shownRows, shownRows, hresults, hrows]
  refine ⟨by rw [hlist, hshown]; exact h.list, fun o ho => ?_, fun r hr => h.results r (hresults ▸ hr)⟩
  obtain ⟨o', ho', hsame'⟩ : ∃ o' ∈ w.opened, (o'.2.headers, o'.2.rows) = (o.2.headers, o.2.rows) := by
    have hmem : (o.2.headers, o.2.rows) ∈ w'.opened.map fun o => (o.2.headers, o.2.rows) :=
      Option.mem_map_of_mem _ ho
    rw [hopened] at hmem
    exact Option.mem_map.mp hmem
  obtain ⟨hheaders, hrows'⟩ := Prod.mk.inj hsame'
  rw [← hheaders, ← hrows']
  exact h.opened o' ho'

/-! ## 4. The handlers that leave the screen alone -/

@[simp] theorem screen_notice (w : Window) : w.notice.screen = w.screen := by
  unfold notice
  split <;> rfl

@[simp] theorem screen_accountUnavailable (w : Window) :
    w.accountUnavailable.screen = w.screen := screen_notice w

@[simp] theorem screen_fetchBody (w : Window) (request : Option (BodyKey × Nat)) :
    (w.fetchBody request).screen = w.screen := by
  unfold fetchBody
  split
  · rfl
  · simp only
    split
    · rfl
    · exact screen_accountUnavailable w

@[simp] theorem screen_select (w : Window) (rows : List Nat) : (w.select rows).screen = w.screen := by
  unfold select
  split
  · split
    · rfl
    · rw [screen_fetchBody]
      rfl
  · rfl

@[simp] theorem screen_bodyArrived (w : Window) (account uid reqId : Nat) :
    (w.bodyArrived account uid reqId).screen = w.screen := by
  unfold bodyArrived
  split
  · rfl
  · simp only [screen_fetchBody]
    split <;> rfl

/-- A folder whose messages and rows are those of the open one, in its place. -/
theorem screen_reopen {w : Window} {folder folder' : FolderRef} {f f' : OpenFolder} (core : Core)
    (h : w.opened = some (folder, f)) (hheaders : f'.headers = f.headers)
    (hrows : f'.rows = f.rows) :
    ({ w with core := core, opened := some (folder', f') } : Window).screen = w.screen := by
  simp only [screen, h, Option.map_some, hheaders, hrows]

@[simp] theorem screen_requestPage (w : Window) : w.requestPage.screen = w.screen := by
  unfold requestPage
  split
  · rfl
  · next folder opened hopened =>
    rcases opened.nextRequest_cases with he | ⟨-, -, he⟩
    · rw [he]
    · rw [he]
      simp only
      split
      · exact screen_reopen _ hopened rfl rfl
      · rw [screen_accountUnavailable]
        exact screen_reopen w.core hopened rfl rfl

@[simp] theorem screen_requestRefresh (w : Window) : w.requestRefresh.1.screen = w.screen := by
  unfold requestRefresh
  split
  · rfl
  · next folder opened hopened =>
    rcases opened.refreshRequestOf_cases with he | ⟨-, he⟩
    · rw [he]
    · rw [he]
      simp only
      split
      · exact screen_reopen _ hopened rfl rfl
      · rw [screen_accountUnavailable]
        exact screen_reopen _ hopened rfl rfl

@[simp] theorem screen_pageFailed (w : Window) : w.pageFailed.screen = w.screen := by
  unfold pageFailed screen
  cases w.opened <;> rfl

/-! ## 5. The handlers that change it -/

theorem opened_of_openedAt {w : Window} {account : Nat} {mailbox : String}
    {o : FolderRef × OpenFolder} (h : w.openedAt account mailbox = some o) : w.opened = some o :=
  (Option.filter_eq_some_iff.mp h).1

/-- Without results, the list shows the open folder. -/
theorem Mirrors.list_opened {w : Window} {folder : FolderRef} {f : OpenFolder} (h : Mirrors zone w)
    (hopened : w.opened = some (folder, f)) (hresults : w.search.results = none) :
    w.list = ⟨f.rows, f.rows.length⟩ := by
  have hlist := h.list
  rwa [shownRows, hresults, hopened] at hlist

/-- With results, the list shows them. -/
theorem Mirrors.list_results {w : Window} {r : SearchResults} (h : Mirrors zone w)
    (hresults : w.search.results = some r) : w.list = ⟨r.rows, r.rows.length⟩ := by
  have hlist := h.list
  rwa [shownRows, hresults] at hlist

/-- The open folder is replaced; the list follows unless results are shown. -/
theorem Mirrors.putOpened {w : Window} {f : OpenFolder} (h : Mirrors zone w) (folder : FolderRef)
    (hf : OpenFolder.InStep zone f.headers f.rows) {list : MessageList}
    (hlist : w.search.results = none → list = ⟨f.rows, f.rows.length⟩) :
    Mirrors zone
      { w with opened := some (folder, f), list := if w.search.active then w.list else list } := by
  refine ⟨?_, fun o ho => Option.some.inj ho ▸ hf, h.results⟩
  cases hresults : w.search.results with
  | none => simp [shownRows, SearchState.active, hresults, hlist hresults]
  | some r => simp [shownRows, SearchState.active, hresults, h.list_results hresults]

/-- The results are replaced, and the list shows them. -/
theorem Mirrors.putResults {w : Window} {r : SearchResults} (h : Mirrors zone w)
    (hr : r.InStep zone) (text : String) {list : MessageList}
    (hlist : list = ⟨r.rows, r.rows.length⟩) :
    Mirrors zone { w with search := ⟨text, some r⟩, list := list } :=
  ⟨hlist, h.opened, fun _ hr' => Option.some.inj hr' ▸ hr⟩

theorem Mirrors.openFolder (w : Window) (folder : FolderRef) :
    Mirrors zone (w.openFolder folder) := by
  refine Mirrors.of_screen ?_ (screen_requestPage _)
  exact ⟨rfl, fun o ho => Option.some.inj ho ▸ rfl, fun r hr => absurd hr (by simp)⟩

theorem Mirrors.refresh {w : Window} (h : Mirrors zone w) : Mirrors zone w.refresh := by
  unfold Window.refresh
  split
  · exact h
  · next folder _ _ =>
    simp only
    split
    · exact h.of_screen (screen_requestRefresh w)
    · exact Mirrors.openFolder _ folder

theorem Mirrors.seedFromCache {w : Window} (h : Mirrors zone w) (account : Nat) (mailbox : String)
    (headers : List MailHeader) : Mirrors zone (w.seedFromCache zone account mailbox headers) := by
  unfold Window.seedFromCache
  split
  · exact h
  · next folder f hat =>
    have hf := (h.opened _ (opened_of_openedAt hat)).seed headers
    cases hseed : f.seed zone headers with
    | mk f' seeded =>
      rw [hseed] at hf
      cases seeded with
      | false => exact h
      | true => exact h.putOpened folder hf fun _ => rfl

theorem Mirrors.applyHeaders {w : Window} (h : Mirrors zone w) (account : Nat) (mailbox : String)
    (reqId page totalPages : Nat) (headers : List MailHeader) :
    Mirrors zone (w.applyHeaders zone account mailbox reqId page totalPages headers) := by
  unfold Window.applyHeaders
  split
  · exact h
  · next folder f hat =>
    have hopened := opened_of_openedAt hat
    have hf := h.opened _ hopened
    have hf' := hf.applyReply reqId page totalPages headers
    split
    · exact h
    · next f' applied happlied =>
      rw [happlied] at hf'
      have hput : Mirrors zone
          { w with
            opened := some (folder, f')
            list :=
              if w.search.active then w.list else w.list.showApplied applied f'.rows page } := by
        refine h.putOpened folder hf' fun hresults => ?_
        have hsome : (f.applyReply zone reqId page totalPages headers).2 = some applied := by
          rw [happlied]
        have hlen : w.list.len = f.rows.length := by rw [h.list_opened hopened hresults]
        have hshow := MessageList.showApplied_applyReply hf hsome hlen
        rwa [happlied] at hshow
      extract_lets w1 w2
      have hgone : Mirrors zone w2 := by
        refine hput.of_screen ?_
        simp only [w2]
        split <;> rfl
      split
      · exact hgone.of_screen (screen_requestPage w2)
      · exact hgone

theorem Mirrors.searchArrived {w : Window} (h : Mirrors zone w) (hits : List SearchHit) :
    Mirrors zone (w.searchArrived zone hits) := by
  unfold Window.searchArrived
  split
  · exact h
  · refine (h.putResults (r := SearchResults.new zone hits w.core.accounts) rfl w.search.text
      rfl).of_screen ?_
    rfl

/-- A search can be closed: a folder is open, or nothing was found. -/
def canClose (w : Window) : Prop := w.opened.isSome ∨ ∀ r ∈ w.search.results, r.rows = []

theorem Mirrors.showFolderAgain {w : Window} (h : Mirrors zone w) (hclose : w.canClose) :
    Mirrors zone w.showFolderAgain := by
  unfold Window.showFolderAgain
  split
  · exact h
  · next r hresults =>
    refine ⟨?_, h.opened, fun r hr => absurd hr (by simp [Window.resetReadingPane])⟩
    cases hopened : w.opened with
    | some o => rfl
    | none =>
      have hempty : r.rows = [] := by
        rcases hclose with hsome | hempty
        · rw [hopened] at hsome
          cases hsome
        · exact hempty r hresults
      have hlist := h.list_results hresults
      rw [hempty] at hlist
      exact hlist

theorem Mirrors.searchChanged {w : Window} (h : Mirrors zone w) (text : String)
    (hclose : text ≠ w.search.text → blank text = true → w.canClose) :
    Mirrors zone (w.searchChanged text) := by
  unfold Window.searchChanged
  split
  · exact h
  · next hnew =>
    have hsame : Mirrors zone { w with search := { w.search with text := text } } :=
      h.of_screen rfl
    simp only
    split
    · next hblank => exact hsame.showFolderAgain (hclose hnew hblank)
    · exact hsame

theorem Mirrors.clearSearch {w : Window} (h : Mirrors zone w) (hclose : w.canClose) :
    Mirrors zone w.clearSearch := by
  unfold Window.clearSearch
  split
  · exact h
  · have hsame : Mirrors zone { w with search := { w.search with text := "" } } := h.of_screen rfl
    exact hsame.showFolderAgain hclose

theorem Mirrors.flagOpened {w : Window} (h : Mirrors zone w) (account : Nat) (mailbox : String)
    (uid : Nat) (flags : List String) :
    Mirrors zone (w.flagOpened zone account mailbox uid flags) := by
  unfold Window.flagOpened
  split
  · exact h
  · next folder f hat =>
    have hopened := opened_of_openedAt hat
    have hf := (h.opened _ hopened).setFlags uid flags
    have hlength : (f.setFlags zone uid flags).1.rows.length = f.rows.length :=
      f.length_setFlags uid flags
    split
    · exact h
    · next f' row hset =>
      rw [hset] at hf hlength
      refine h.putOpened folder hf fun hresults => ?_
      rw [h.list_opened hopened hresults, MessageList.updateRows, ← hlength]

theorem Mirrors.flagResults {w : Window} (h : Mirrors zone w) (account : Nat) (mailbox : String)
    (uid : Nat) (flags : List String) :
    Mirrors zone (w.flagResults zone account mailbox uid flags) := by
  unfold Window.flagResults
  split
  · exact h
  · next r hresults =>
    have hr := (h.results r hresults).setFlags account mailbox uid flags
    have hlength : (r.setFlags zone account mailbox uid flags).1.rows.length = r.rows.length :=
      r.length_setFlags account mailbox uid flags
    split
    · exact h
    · next r' hset =>
      rw [hset] at hr hlength
      refine h.putResults hr w.search.text ?_
      rw [h.list_results hresults, MessageList.updateRows, ← hlength]

theorem Mirrors.setFlagsEverywhere {w : Window} (h : Mirrors zone w) (account : Nat)
    (mailbox : String) (uid : Nat) (flags : List String) :
    Mirrors zone (w.setFlagsEverywhere zone account mailbox uid flags) := by
  have hboth := (h.flagOpened account mailbox uid flags).flagResults account mailbox uid flags
  unfold Window.setFlagsEverywhere
  simp only
  split
  · exact hboth.of_screen rfl
  · exact hboth

theorem Mirrors.dropRow {w : Window} {rows : List RowModel}
    (h : Mirrors zone { w with list := w.list.removeRows rows 1 }) (len : Nat)
    (wasSelected : Bool) : Mirrors zone (w.dropRow rows len wasSelected) := by
  unfold Window.dropRow
  simp only
  split
  · exact h.of_screen rfl
  · exact h

/-- The rows lose one, and the list one of its rows. -/
theorem Mirrors.rowLeft {w : Window} {rows : List RowModel} (before : List RowModel)
    (hlist : w.list = ⟨before, before.length⟩) (hshown : w.shownRows = rows)
    (hlength : rows.length = before.length - 1)
    (hopened : ∀ o ∈ w.opened, OpenFolder.InStep zone o.2.headers o.2.rows)
    (hresults : ∀ r ∈ w.search.results, r.InStep zone) (len : Nat) (wasSelected : Bool) :
    Mirrors zone (w.dropRow rows len wasSelected) := by
  refine Mirrors.dropRow ⟨?_, hopened, hresults⟩ _ _
  rw [show ({ w with list := w.list.removeRows rows 1 } : Window).shownRows = rows from hshown,
    hlength]
  simp only [MessageList.removeRows, hlist]

/-- The open folder, of which a message may have left. -/
def openedWithout (w : Window) (account : Nat) (mailbox : String) (uid : Nat) :
    Option (FolderRef × OpenFolder) :=
  (((w.openedAt account mailbox).map fun o => (o.1, o.2.remove uid)).map fun p => (p.1, p.2.1)).or
    w.opened

theorem Mirrors.openedWithout {w : Window} (h : Mirrors zone w) (account : Nat) (mailbox : String)
    (uid : Nat) : ∀ o ∈ w.openedWithout account mailbox uid,
      OpenFolder.InStep zone o.2.headers o.2.rows := by
  intro o ho
  cases hat : w.openedAt account mailbox with
  | none =>
    rw [Window.openedWithout, hat] at ho
    exact h.opened o ho
  | some o' =>
    rw [Window.openedWithout, hat] at ho
    obtain rfl := Option.some.inj ho
    exact (h.opened _ (opened_of_openedAt hat)).remove

/-- While results are shown, a row leaves them, or none does. -/
theorem Mirrors.moved_results {w : Window} (h : Mirrors zone w) {r : SearchResults}
    (hresults : w.search.results = some r) (account : Nat) (mailbox : String) (uid : Nat) :
    Mirrors zone (w.moved account mailbox uid) := by
  have hlist := h.list_results hresults
  have hopened := h.openedWithout account mailbox uid
  have hr := h.results r hresults
  have hremoved := hr.remove account mailbox uid
  simp only [Window.moved, hresults, Option.map_some]
  cases hrow : r.remove account mailbox uid with
  | mk r' row =>
    rw [hrow] at hremoved
    have hinstep : ∀ r'' ∈ some r', r''.InStep zone := fun r'' hr'' =>
      Option.some.inj hr'' ▸ hremoved
    cases row with
    | none =>
      have hsame : r' = r := by
        have hkept := SearchResults.remove_none (r := r) (by rw [hrow])
        rwa [hrow] at hkept
      exact ⟨hsame ▸ hlist, hopened, hinstep⟩
    | some row =>
      have hlength := hr.length_remove (by rw [hrow])
      rw [hrow] at hlength
      refine Mirrors.rowLeft r.rows ?_ ?_ ?_ hopened hinstep _ _
      · exact hlist
      · rfl
      · exact hlength

/-- While the open folder is shown, a row leaves it, or none does. -/
theorem Mirrors.moved_opened {w : Window} (h : Mirrors zone w) (hresults : w.search.results = none)
    {account : Nat} {mailbox : String} {o : FolderRef × OpenFolder}
    (hat : w.openedAt account mailbox = some o) (uid : Nat) :
    Mirrors zone (w.moved account mailbox uid) := by
  have hat' := opened_of_openedAt hat
  have hf := h.opened _ hat'
  have hlist := h.list_opened hat' hresults
  have hinstep : ∀ r ∈ (none : Option SearchResults), r.InStep zone := fun r hr => by cases hr
  simp only [Window.moved, hresults, hat, Option.map_none, Option.map_some, Option.some_or]
  have hremoved : OpenFolder.InStep zone (o.2.remove uid).1.headers (o.2.remove uid).1.rows := hf.remove
  cases hremove : o.2.remove uid with
  | mk f' row =>
    rw [hremove] at hremoved
    have hopened : ∀ o' ∈ some (o.1, f'), OpenFolder.InStep zone o'.2.headers o'.2.rows :=
      fun o' ho' => Option.some.inj ho' ▸ hremoved
    cases row with
    | none =>
      have hsame : f' = o.2 := by
        have hkept := OpenFolder.remove_none (f := o.2) (by rw [hremove])
        rwa [hremove] at hkept
      exact ⟨hsame ▸ hlist, hopened, hinstep⟩
    | some row =>
      have hlength := OpenFolder.length_remove hf (by rw [hremove])
      rw [hremove] at hlength
      refine Mirrors.rowLeft o.2.rows ?_ ?_ ?_ hopened hinstep _ _
      · exact hlist
      · rfl
      · exact hlength

/-- A row leaves the folder, or the results, or both; and the list, if it was in what is shown. -/
theorem Mirrors.moved {w : Window} (h : Mirrors zone w) (account : Nat) (mailbox : String)
    (uid : Nat) : Mirrors zone (w.moved account mailbox uid) := by
  cases hresults : w.search.results with
  | some r => exact h.moved_results hresults account mailbox uid
  | none =>
    cases hat : w.openedAt account mailbox with
    | some o => exact h.moved_opened hresults hat uid
    | none =>
      refine h.of_screen ?_
      simp [Window.moved, screen, hat, hresults]

theorem Mirrors.reloadAccounts {w : Window} (h : Mirrors zone w) (config : List AccountId)
    (started : Option Core) : Mirrors zone (w.reloadAccounts config started) := by
  cases started with
  | none => exact h.of_screen (screen_notice _)
  | some core => exact ⟨rfl, fun o ho => absurd ho (by simp [Window.reloadAccounts, clearView]),
      fun r hr => absurd hr (by simp [Window.reloadAccounts, clearView])⟩

theorem Mirrors.accountSaved {w : Window} (h : Mirrors zone w) (config : List AccountId)
    (id : AccountId) (started : Option Core) :
    Mirrors zone (w.accountSaved config id started) := by
  unfold Window.accountSaved
  simp only
  split
  · exact h.reloadAccounts config started
  · unfold openFromCache
    split
    · exact h.reloadAccounts config started
    · exact Mirrors.openFolder _ _

theorem Mirrors.handle {w : Window} (h : Mirrors zone w) (account : Nat) (event : App.ImapEvent) :
    Mirrors zone (w.handle zone account event) := by
  cases event with
  | connected =>
    simp only [Window.handle]
    have hsent : Mirrors zone { w with core := (w.core.send account .fetchMailboxes).1 } :=
      h.of_screen rfl
    split
    · exact hsent.of_screen (screen_requestRefresh _)
    · exact hsent
  | error error => exact h.of_screen (by simp only [Window.handle, screen_notice, screen_pageFailed])
  | newHeaders mailbox headers =>
    simp only [Window.handle]
    split
    · exact h.of_screen (screen_requestRefresh w)
    · exact h
  | headers mailbox headers page totalPages reqId state =>
    exact h.applyHeaders account mailbox reqId page totalPages headers
  | body uid html attachments reqId => exact h.of_screen (screen_bodyArrived w account uid reqId)
  | bodyFailed uid reqId error => exact h.of_screen (screen_bodyArrived w account uid reqId)
  | flagsUpdated mailbox uid flags reqId => exact h.setFlagsEverywhere account mailbox uid flags
  | moved mailbox uid dest reqId => exact h.moved account mailbox uid
  | flagsUpdateFailed mailbox uid error reqId => exact h.of_screen (screen_notice w)
  | moveFailed mailbox uid error reqId => exact h.of_screen (screen_notice w)
  | exportFailed error => exact h.of_screen (screen_notice w)
  | _ => exact h

theorem screen_take {w w' : Window} {session : Nat} (h : w.take session = some w') :
    w'.screen = w.screen := by
  unfold take at h
  split at h
  · exact Option.some.inj h ▸ rfl
  · cases h

/-! ## 6. The runs -/

/-- A search is closed only while a folder is open, or nothing was found. -/
def closesOverFolder (w : Window) : Action → Prop
  | .searchChanged text => text ≠ w.search.text → blank text = true → w.canClose
  | .clearSearch => w.canClose
  | _ => True

theorem Mirrors.step {w w' : Window} {a : Action} (h : Mirrors zone w)
    (hok : closesOverFolder w a) (hst : w.step zone a = some w') : Mirrors zone w' := by
  cases a with
  | openFolder folder => exact Option.some.inj hst ▸ Mirrors.openFolder w folder
  | select rows => exact Option.some.inj hst ▸ h.of_screen (screen_select w rows)
  | nearEnd =>
    obtain rfl := Option.some.inj hst
    split
    · exact h
    · exact h.of_screen (screen_requestPage w)
  | refresh => exact Option.some.inj hst ▸ h.refresh
  | searchChanged text => exact Option.some.inj hst ▸ h.searchChanged text hok
  | clearSearch => exact Option.some.inj hst ▸ h.clearSearch hok
  | searchArrived hits => exact Option.some.inj hst ▸ h.searchArrived hits
  | seedFromCache account mailbox headers =>
    exact Option.some.inj hst ▸ h.seedFromCache account mailbox headers
  | hear session event =>
    simp only [Window.step] at hst
    split at hst
    · cases hst
    · obtain ⟨account, -, rfl⟩ := Option.map_eq_some_iff.mp hst
      exact h.handle account event
  | answer request outcome =>
    obtain ⟨⟨session, mailbox, uid⟩, reqId⟩ := request
    simp only [Window.step] at hst
    split at hst
    · obtain ⟨account, -, rfl⟩ := Option.map_eq_some_iff.mp hst
      have hanswered : Mirrors zone
          { w with awaiting := w.awaiting.erase ((session, mailbox, uid), reqId) } :=
        h.of_screen rfl
      exact hanswered.handle account (reportOf uid reqId outcome)
    · cases hst
  | notice => exact Option.some.inj hst ▸ h.of_screen (screen_notice w)
  | order account command =>
    simp only [Window.step] at hst
    split at hst
    · cases hst
    · exact Option.some.inj hst ▸ h.of_screen rfl
  | take session => exact h.of_screen (screen_take hst)
  | accountSaved config id started => exact Option.some.inj hst ▸ h.accountSaved config id started
  | accountRemoved config started => exact Option.some.inj hst ▸ h.reloadAccounts config started

theorem Mirrors.of_reach {w : Window} (h : (machine zone).Reach closesOverFolder w) :
    Mirrors zone w := by
  refine h.invariant (P := Mirrors zone) ?_ fun w a w' _ hmirrors hok hst => hmirrors.step hok hst
  rintro w ⟨accounts, credentials, rfl⟩
  exact ⟨rfl, fun o ho => absurd ho (by simp [built]), fun r hr => absurd hr (by simp [built])⟩

/-- The message that `message_at` finds is the one whose row is shown. -/
theorem Mirrors.messageAt {w : Window} (h : Mirrors zone w) (row : Nat) :
    w.list.rows[row]? = (w.messageAt row).map fun m => RowModel.fromHeader zone m.2 := by
  cases hresults : w.search.results with
  | some r =>
    have hrows : r.rows = r.hits.map fun hit => RowModel.fromHeader zone hit.2 :=
      h.results r hresults
    rw [h.list_results hresults, Window.messageAt, hresults, hrows]
    exact List.getElem?_map
  | none =>
    cases hopened : w.opened with
    | some o =>
      have hrows : o.2.rows = o.2.headers.map (RowModel.fromHeader zone) := h.opened o hopened
      rw [h.list_opened hopened hresults, Window.messageAt, hresults, hopened, hrows,
        List.getElem?_map, Option.bind_some, Option.map_map]
      rfl
    | none =>
      rw [h.list, Window.messageAt, shownRows, hresults, hopened]
      rfl

/-- In a run that closes a search only over a folder, the list's rows are those behind it, the view has
as many, and the message under each row is the one `message_at` returns for it.

So what is opened or deleted by its row is the message that is shown there. -/
theorem list_is_model {w : Window} (h : (machine zone).Reach closesOverFolder w) :
    w.list.rows = w.shownRows ∧ w.list.len = w.list.rows.length ∧
      ∀ row, w.list.rows[row]? = (w.messageAt row).map fun m => RowModel.fromHeader zone m.2 := by
  have hmirrors := Mirrors.of_reach h
  refine ⟨?_, ?_, hmirrors.messageAt⟩
  · rw [hmirrors.list]
  · rw [hmirrors.list]

instance (w : Window) : Decidable w.canClose :=
  inferInstanceAs (Decidable (_ ∨ ∀ r ∈ w.search.results, r.rows = []))

instance (w : Window) : (a : Action) → Decidable (closesOverFolder w a)
  | .searchChanged text =>
    inferInstanceAs (Decidable (text ≠ w.search.text → blank text = true → w.canClose))
  | .clearSearch => inferInstanceAs (Decidable w.canClose)
  | .openFolder _ | .select _ | .nearEnd | .refresh | .searchArrived _ | .seedFromCache _ _ _
  | .hear _ _ | .answer _ _ | .notice | .order _ _ | .take _ | .accountSaved _ _ _
  | .accountRemoved _ _ => isTrue trivial

/-- Such a run: a folder's page has arrived, a search has found one of its messages and another one,
and then the first is moved away. -/
theorem list_is_model_of_move : ∃ w : Window,
    w.messageAt 0 = some (⟨0, "Sent"⟩, Viewed.bareHeader 9) ∧
      w.opened.map (fun o => uids o.2.headers) = some [7] ∧
      w.list.rows = w.shownRows ∧ w.list.len = w.list.rows.length ∧
      ∀ row, w.list.rows[row]? =
        (w.messageAt row).map fun m => RowModel.fromHeader (fun _ => none) m.2 := by
  obtain ⟨w, hr, hp⟩ := Machine.exists_reach_of_trace (machine fun _ => none) closesOverFolder
    (s := built ["a"] fun _ => true)
    [.openFolder ⟨0, "INBOX"⟩,
      .hear 0 (.headers "INBOX" [Viewed.bareHeader 7, Viewed.bareHeader 5] 1 1 1 ⟨1, 8⟩),
      .searchChanged "x",
      .searchArrived [⟨"a", "INBOX", Viewed.bareHeader 5⟩, ⟨"a", "Sent", Viewed.bareHeader 9⟩],
      .hear 0 (.moved "INBOX" 5 "Trash" 1)]
    (fun w => decide (w.messageAt 0 = some (⟨0, "Sent"⟩, Viewed.bareHeader 9) ∧
      w.opened.map (fun o => uids o.2.headers) = some [7]))
    ⟨["a"], fun _ => true, rfl⟩ (by decide)
  obtain ⟨hmessage, hopened⟩ := of_decide_eq_true hp
  exact ⟨w, hmessage, hopened, list_is_model hr⟩

/-- Two accounts; one is removed, so that no folder is open, and a search finds a message of the other.
When the search is closed, its row stays, and no message is found under it. -/
theorem result_row_stays : ¬ ∀ w : Window, (machine fun _ => none).Reach Machine.any w →
    w.list.rows = w.shownRows ∧ w.list.len = w.list.rows.length ∧
      ∀ row, w.list.rows[row]? =
        (w.messageAt row).map fun m => RowModel.fromHeader (fun _ => none) m.2 := by
  intro hall
  obtain ⟨w, hr, hp⟩ := Machine.exists_reach_of_trace (machine fun _ => none) Machine.any
    (s := built ["a", "b"] fun _ => true)
    [.openFolder ⟨1, "INBOX"⟩, .accountRemoved ["a"] (some (Core.start ["a"] fun _ => true)),
      .searchChanged "x", .searchArrived [⟨"a", "INBOX", Viewed.bareHeader 7⟩], .clearSearch]
    (fun w => decide (w.list.rows.length = 1 ∧ w.messageAt 0 = none))
    ⟨["a", "b"], fun _ => true, rfl⟩ (by decide)
  obtain ⟨hlength, hnone⟩ := of_decide_eq_true hp
  have hrow := (hall w hr).2.2 0
  rw [hnone, Option.map_none, List.getElem?_eq_none_iff, hlength] at hrow
  omega

end Window

end Esmail.Browsing
