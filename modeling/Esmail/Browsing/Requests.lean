/-
# The page that is asked for, and errors of others

`page_failed` lets go of the request for a page, and `App::handle` calls it for EVERY error: of whatever
account, and of whatever command.  The reply that still comes is then taken for an old one.

`error_drops_page` says so of every window that can be reached, every page that is asked for and every
error: after it the page is not waited for, and its reply changes nothing, whatever it holds.

That the reply is not taken for the refresh's instead is an invariant: the two requests have different ids
(`OpenFolder.Numbered`).  It is one of the things that last in a folder: a new folder has them, and whatever
is done to a folder keeps them (`Lasting`).  Sections 1 and 2 prove once, for any such thing, that the
folder that is open has it in every run (`Has.of_reach`), with a lemma for each function of the window.
-/
import Esmail.Browsing.Rows

namespace Esmail

/-! ## 1. What lasts in a folder -/

/-- A new folder has it, and whatever is done to a folder keeps it. -/
structure OpenFolder.Lasting (zone : LocalDateTime) (P : OpenFolder → Prop) : Prop where
  new : P {}
  nextRequest : ∀ {f}, P f → P f.nextRequest.1
  refreshRequestOf : ∀ {f}, P f → P f.refreshRequestOf.1
  seed : ∀ {f}, P f → ∀ headers, P (f.seed zone headers).1
  applyReply : ∀ {f}, P f → ∀ id page totalPages headers,
    P (f.applyReply zone id page totalPages headers).1
  pageFailed : ∀ {f}, P f → P f.pageFailed
  setFlags : ∀ {f}, P f → ∀ uid flags, P (f.setFlags zone uid flags).1
  remove : ∀ {f}, P f → ∀ uid, P (f.remove uid).1

namespace Browsing

open Transition

namespace Window

variable {zone : LocalDateTime} {P : OpenFolder → Prop}

/-- The open folder has it, if there is one. -/
def Has (P : OpenFolder → Prop) (w : Window) : Prop := ∀ o ∈ w.opened, P o.2

theorem Has.of_opened {w w' : Window} (h : w.Has P) (hsame : w'.opened = w.opened) : w'.Has P := by
  rw [Has, hsame]
  exact h

theorem Has.of_none {w : Window} (hnone : w.opened = none) : w.Has P := by
  rw [Has, hnone]
  exact fun o ho => absurd ho (Option.not_mem_none o)

theorem Has.put {w : Window} {folder : FolderRef} {f : OpenFolder}
    (hopened : w.opened = some (folder, f)) (h : P f) : w.Has P := by
  rw [Has, hopened]
  rintro o' ho'
  exact Option.mem_some.mp ho' ▸ h

@[simp] theorem opened_notice (w : Window) : w.notice.opened = w.opened := by
  unfold notice
  split <;> rfl

@[simp] theorem opened_accountUnavailable (w : Window) :
    w.accountUnavailable.opened = w.opened := opened_notice w

@[simp] theorem opened_fetchBody (w : Window) (request : Option (BodyKey × Nat)) :
    (w.fetchBody request).opened = w.opened := by
  unfold fetchBody
  split
  · rfl
  · simp only
    split
    · rfl
    · exact opened_accountUnavailable w

@[simp] theorem opened_select (w : Window) (rows : List Nat) :
    (w.select rows).opened = w.opened := by
  unfold select
  split
  · split
    · rfl
    · rw [opened_fetchBody]
  · rfl

@[simp] theorem opened_bodyArrived (w : Window) (account uid reqId : Nat) :
    (w.bodyArrived account uid reqId).opened = w.opened := by
  unfold bodyArrived
  split
  · rfl
  · simp only [opened_fetchBody]
    split <;> rfl

@[simp] theorem opened_showFolderAgain (w : Window) : w.showFolderAgain.opened = w.opened := by
  unfold showFolderAgain
  split <;> rfl

@[simp] theorem opened_searchArrived (w : Window) (hits : List SearchHit) :
    (w.searchArrived zone hits).opened = w.opened := by
  unfold searchArrived
  split <;> rfl

@[simp] theorem opened_searchChanged (w : Window) (text : String) :
    (w.searchChanged text).opened = w.opened := by
  unfold searchChanged
  split
  · rfl
  · simp only
    split
    · rw [opened_showFolderAgain]
    · rfl

@[simp] theorem opened_clearSearch (w : Window) : w.clearSearch.opened = w.opened := by
  unfold clearSearch
  split
  · rfl
  · rw [opened_showFolderAgain]

@[simp] theorem opened_flagResults (w : Window) (account : Nat) (mailbox : String) (uid : Nat)
    (flags : List String) :
    (w.flagResults zone account mailbox uid flags).opened = w.opened := by
  unfold flagResults
  split
  · rfl
  · split <;> rfl

@[simp] theorem opened_dropRow (w : Window) (rows : List RowModel) (len : Nat)
    (wasSelected : Bool) : (w.dropRow rows len wasSelected).opened = w.opened := by
  unfold dropRow
  cases wasSelected <;> rfl

theorem opened_take {w w' : Window} {session : Nat} (h : w.take session = some w') :
    w'.opened = w.opened := by
  unfold take at h
  split at h
  · exact Option.some.inj h ▸ rfl
  · cases h

/-! ## 2. What lasts in a folder holds of the open one -/

variable {w : Window}

theorem Has.requestPage (hlast : OpenFolder.Lasting zone P) (h : w.Has P) : w.requestPage.Has P := by
  unfold Window.requestPage
  split
  · exact h
  · next folder opened hopened =>
    have hnext : P opened.nextRequest.1 := hlast.nextRequest (h _ hopened)
    split
    · exact h
    · next opened' request heq =>
      rw [heq] at hnext
      simp only
      split
      · exact .put rfl hnext
      · exact Has.of_opened (.put rfl (hlast.pageFailed hnext)) (opened_accountUnavailable _)

theorem Has.requestRefresh (hlast : OpenFolder.Lasting zone P) (h : w.Has P) :
    w.requestRefresh.1.Has P := by
  unfold Window.requestRefresh
  split
  · exact h
  · next folder opened hopened =>
    have hrefresh : P opened.refreshRequestOf.1 := hlast.refreshRequestOf (h _ hopened)
    split
    · exact h
    · next opened' id heq =>
      rw [heq] at hrefresh
      simp only
      split
      · exact .put rfl hrefresh
      · exact Has.of_opened (.put rfl hrefresh) (opened_accountUnavailable _)

theorem Has.openFolder (hlast : OpenFolder.Lasting zone P) (w : Window) (folder : FolderRef) :
    (w.openFolder folder).Has P :=
  Has.requestPage hlast (.put rfl hlast.new)

theorem Has.refresh (hlast : OpenFolder.Lasting zone P) (h : w.Has P) : w.refresh.Has P := by
  unfold Window.refresh
  split
  · exact h
  · simp only
    split
    · exact Has.requestRefresh hlast h
    · exact Has.openFolder hlast _ _

theorem Has.seedFromCache (hlast : OpenFolder.Lasting zone P) (h : w.Has P) (account : Nat)
    (mailbox : String) (headers : List MailHeader) :
    (w.seedFromCache zone account mailbox headers).Has P := by
  unfold Window.seedFromCache
  split
  · exact h
  · next folder opened hat =>
    have hseed : P (opened.seed zone headers).1 := hlast.seed (h _ (opened_of_openedAt hat)) headers
    split
    · exact h
    · next opened' heq =>
      rw [heq] at hseed
      exact .put rfl hseed

theorem Has.applyHeaders (hlast : OpenFolder.Lasting zone P) (h : w.Has P) (account : Nat)
    (mailbox : String) (reqId page totalPages : Nat) (headers : List MailHeader) :
    (w.applyHeaders zone account mailbox reqId page totalPages headers).Has P := by
  unfold Window.applyHeaders
  split
  · exact h
  · next folder opened hat =>
    have hreply : P (opened.applyReply zone reqId page totalPages headers).1 :=
      hlast.applyReply (h _ (opened_of_openedAt hat)) reqId page totalPages headers
    split
    · exact h
    · next opened' applied heq =>
      rw [heq] at hreply
      have hgone : ∀ w' : Window, w'.opened = some (folder, opened') →
          (if w'.gone folder opened' then
            { w' with selected := none, bodies := w'.bodies.cancel, reader := none }
          else w').opened = some (folder, opened') := by
        intro w' hw'
        split <;> exact hw'
      exact iteInduction (motive := Has P) (fun _ => Has.requestPage hlast (.put (hgone _ rfl) hreply))
        fun _ => .put (hgone _ rfl) hreply

theorem Has.setFlagsEverywhere (hlast : OpenFolder.Lasting zone P) (h : w.Has P) (account : Nat)
    (mailbox : String) (uid : Nat) (flags : List String) :
    (w.setFlagsEverywhere zone account mailbox uid flags).Has P := by
  have hflag : (w.flagOpened zone account mailbox uid flags).Has P := by
    unfold Window.flagOpened
    split
    · exact h
    · next folder opened hat =>
      have hset : P (opened.setFlags zone uid flags).1 :=
        hlast.setFlags (h _ (opened_of_openedAt hat)) uid flags
      split
      · exact h
      · next opened' row heq =>
        rw [heq] at hset
        exact .put rfl hset
  have hboth : ((w.flagOpened zone account mailbox uid flags).flagResults zone account mailbox uid
      flags).Has P :=
    hflag.of_opened (opened_flagResults _ account mailbox uid flags)
  unfold Window.setFlagsEverywhere
  simp only
  split
  · exact hboth.of_opened rfl
  · exact hboth

theorem Has.moved (hlast : OpenFolder.Lasting zone P) (h : w.Has P) (account : Nat) (mailbox : String)
    (uid : Nat) : (w.moved account mailbox uid).Has P := by
  have hleft : ({ w with opened := w.openedWithout account mailbox uid } : Window).Has P := by
    unfold Window.openedWithout
    cases hat : w.openedAt account mailbox with
    | none => exact h
    | some o => exact .put rfl (hlast.remove (h _ (opened_of_openedAt hat)) uid)
  unfold Window.moved
  simp only
  split
  · exact hleft.of_opened (opened_dropRow ..)
  · exact hleft.of_opened (opened_dropRow ..)
  · exact hleft.of_opened rfl

theorem Has.reloadAccounts (h : w.Has P) (config : List AccountId) (started : Option Core) :
    (w.reloadAccounts config started).Has P := by
  cases started with
  | none => exact h.of_opened (opened_notice _)
  | some core => exact .of_none rfl

theorem Has.accountSaved (hlast : OpenFolder.Lasting zone P) (h : w.Has P) (config : List AccountId)
    (id : AccountId) (started : Option Core) : (w.accountSaved config id started).Has P := by
  unfold Window.accountSaved
  simp only
  split
  · exact Has.reloadAccounts h config started
  · unfold Window.openFromCache
    split
    · exact Has.reloadAccounts h config started
    · exact Has.openFolder hlast _ _

theorem Has.handle (hlast : OpenFolder.Lasting zone P) (h : w.Has P) (account : Nat)
    (event : App.ImapEvent) : (w.handle zone account event).Has P := by
  cases event with
  | connected =>
    simp only [Window.handle]
    split
    · exact Has.requestRefresh hlast (h.of_opened rfl)
    · exact h.of_opened rfl
  | error error =>
    refine Has.of_opened (w := w.pageFailed) ?_ (opened_notice _)
    rintro o ho
    obtain ⟨o', ho', rfl⟩ := Option.mem_map.mp ho
    exact hlast.pageFailed (h o' ho')
  | newHeaders mailbox headers =>
    simp only [Window.handle]
    split
    · exact Has.requestRefresh hlast h
    · exact h
  | headers mailbox headers page totalPages reqId state =>
    exact Has.applyHeaders hlast h account mailbox reqId page totalPages headers
  | body uid html attachments reqId => exact h.of_opened (opened_bodyArrived w account uid reqId)
  | bodyFailed uid reqId error => exact h.of_opened (opened_bodyArrived w account uid reqId)
  | flagsUpdated mailbox uid flags reqId => exact Has.setFlagsEverywhere hlast h account mailbox uid flags
  | moved mailbox uid dest reqId => exact Has.moved hlast h account mailbox uid
  | flagsUpdateFailed mailbox uid error reqId => exact h.of_opened (opened_notice w)
  | moveFailed mailbox uid error reqId => exact h.of_opened (opened_notice w)
  | exportFailed error => exact h.of_opened (opened_notice w)
  | _ => exact h

theorem Has.step (hlast : OpenFolder.Lasting zone P) {w' : Window} {a : Action} (h : w.Has P)
    (hst : w.step zone a = some w') : w'.Has P := by
  cases a with
  | openFolder folder => exact Option.some.inj hst ▸ Has.openFolder hlast w folder
  | select rows => exact Option.some.inj hst ▸ h.of_opened (opened_select w rows)
  | nearEnd =>
    obtain rfl := Option.some.inj hst
    split
    · exact h
    · exact Has.requestPage hlast h
  | refresh => exact Option.some.inj hst ▸ Has.refresh hlast h
  | searchChanged text => exact Option.some.inj hst ▸ h.of_opened (opened_searchChanged w text)
  | clearSearch => exact Option.some.inj hst ▸ h.of_opened (opened_clearSearch w)
  | searchArrived hits => exact Option.some.inj hst ▸ h.of_opened (opened_searchArrived w hits)
  | seedFromCache account mailbox headers =>
    exact Option.some.inj hst ▸ Has.seedFromCache hlast h account mailbox headers
  | hear session event =>
    simp only [Window.step] at hst
    split at hst
    · cases hst
    · obtain ⟨account, -, rfl⟩ := Option.map_eq_some_iff.mp hst
      exact Has.handle hlast h account event
  | answer request outcome =>
    obtain ⟨⟨session, mailbox, uid⟩, reqId⟩ := request
    simp only [Window.step] at hst
    split at hst
    · obtain ⟨account, -, rfl⟩ := Option.map_eq_some_iff.mp hst
      have hanswered : Has P
          { w with awaiting := w.awaiting.erase ((session, mailbox, uid), reqId) } :=
        h.of_opened rfl
      exact Has.handle hlast hanswered account (reportOf uid reqId outcome)
    · cases hst
  | notice => exact Option.some.inj hst ▸ h.of_opened (opened_notice w)
  | order account command =>
    simp only [Window.step] at hst
    split at hst
    · cases hst
    · exact Option.some.inj hst ▸ h.of_opened rfl
  | take session => exact h.of_opened (opened_take hst)
  | accountSaved config id started => exact Option.some.inj hst ▸ Has.accountSaved hlast h config id started
  | accountRemoved config started => exact Option.some.inj hst ▸ Has.reloadAccounts h config started

/-- What lasts in a folder holds of the open folder in every run. -/
theorem Has.of_reach (hlast : OpenFolder.Lasting zone P) (h : (machine zone).Reach Machine.any w) :
    w.Has P := by
  refine h.invariant (P := Has P) ?_ fun w a w' _ hhas _ hst => Has.step hlast hhas hst
  rintro w ⟨accounts, credentials, rfl⟩
  exact .of_none rfl

end Window

end Browsing

/-! ## 3. The ids of the two requests -/

namespace OpenFolder

variable {zone : LocalDateTime} {f f' : OpenFolder}

/-- The requests that are out have ids that were given, and not the same one. -/
structure Numbered (f : OpenFolder) : Prop where
  page : ∀ id ∈ f.pageRequest, id ≤ f.ids.current
  refresh : ∀ id ∈ f.refreshRequest, id ≤ f.ids.current
  distinct : ∀ id ∈ f.pageRequest, f.refreshRequest ≠ some id

/-- Requests that are let go of leave the others as they are. -/
theorem Numbered.fewer (h : f.Numbered) (hids : f'.ids = f.ids)
    (hpage : f'.pageRequest = f.pageRequest ∨ f'.pageRequest = none)
    (hrefresh : f'.refreshRequest = f.refreshRequest ∨ f'.refreshRequest = none) :
    f'.Numbered := by
  have hpageMem : ∀ id ∈ f'.pageRequest, id ∈ f.pageRequest := by
    rintro id hid
    rcases hpage with hsame | hnone
    · exact hsame ▸ hid
    · rw [hnone] at hid
      cases hid
  have hrefreshMem : ∀ id ∈ f'.refreshRequest, id ∈ f.refreshRequest := by
    rintro id hid
    rcases hrefresh with hsame | hnone
    · exact hsame ▸ hid
    · rw [hnone] at hid
      cases hid
  refine ⟨fun id hid => ?_, fun id hid => ?_, fun id hid heq => ?_⟩
  · rw [hids]
    exact h.page id (hpageMem id hid)
  · rw [hids]
    exact h.refresh id (hrefreshMem id hid)
  · exact h.distinct id (hpageMem id hid) (hrefreshMem id heq)

theorem Numbered.lasting (zone : LocalDateTime) : Lasting zone Numbered where
  new := ⟨fun _ hid => (Option.not_mem_none _ hid).elim, fun _ hid => (Option.not_mem_none _ hid).elim,
    fun _ hid => (Option.not_mem_none _ hid).elim⟩
  nextRequest {f} h := by
    rcases f.nextRequest_cases with he | ⟨-, -, he⟩
    · rw [he]
      exact h
    · rw [he]
      refine ⟨fun id hid => (Option.mem_some.mp hid).ge, fun id hid => (h.refresh id hid).trans
        (Nat.le_succ _), fun id hid heq => ?_⟩
      have hle := h.refresh id heq
      have hid' := Option.mem_some.mp hid
      omega
  refreshRequestOf {f} h := by
    rcases f.refreshRequestOf_cases with he | ⟨-, he⟩
    · rw [he]
      exact h
    · rw [he]
      refine ⟨fun id hid => (h.page id hid).trans (Nat.le_succ _),
        fun id hid => (Option.mem_some.mp hid).ge, fun id hid heq => ?_⟩
      have hle := h.page id hid
      have hid' := Option.some.inj heq
      omega
  seed {f} h headers := by
    unfold seed
    split
    · exact h
    · exact h.fewer rfl (.inl rfl) (.inl rfl)
  applyReply {f} h id page totalPages headers := by
    unfold applyReply
    split
    · simp only
      split
      · exact h.fewer rfl (.inr rfl) (.inl rfl)
      · exact h.fewer rfl (.inr rfl) (.inl rfl)
    · split
      · exact h.fewer rfl (.inl rfl) (.inr rfl)
      · exact h
  pageFailed h := h.fewer rfl (.inr rfl) (.inl rfl)
  setFlags {f} h uid flags := by
    unfold setFlags
    split
    · exact h
    · split
      · exact h
      · exact h.fewer rfl (.inl rfl) (.inl rfl)
  remove {f} h uid := by
    unfold remove
    split
    · exact h
    · exact h.fewer rfl (.inl rfl) (.inl rfl)

/-- A reply that neither request is for changes nothing. -/
theorem applyReply_stale {id : Nat} (hpage : f.pageRequest ≠ some id)
    (hrefresh : f.refreshRequest ≠ some id) (page totalPages : Nat) (headers : List MailHeader) :
    f.applyReply zone id page totalPages headers = (f, none) := by
  unfold applyReply
  rw [if_neg hpage, if_neg hrefresh]

end OpenFolder

/-! ## 4. An error lets go of the page -/

namespace Browsing.Window

open Transition

variable {zone : LocalDateTime}

/-- The page of the open folder is asked for, and its reply would be taken. -/
def pageWaits (w : Window) (id : Nat) : Prop := ∃ o ∈ w.opened, o.2.pageRequest = some id

instance (w : Window) (id : Nat) : Decidable (w.pageWaits id) :=
  inferInstanceAs (Decidable (∃ o ∈ w.opened, _))

/-- Whoever's error it is, the page is no longer asked for, and its reply is not applied: it is neither the
page's, which waits for nothing, nor the refresh's, which has another id. -/
theorem error_drops_page {w : Window} (hr : (machine zone).Reach Machine.any w) {folder : FolderRef}
    {f : OpenFolder} {id : Nat} (hopen : w.opened = some (folder, f))
    (hpage : f.pageRequest = some id) (account : Nat) (error : String) :
    ¬ (w.handle zone account (.error error)).pageWaits id ∧
      ∀ page totalPages headers,
        (w.handle zone account (.error error)).applyHeaders zone folder.account folder.mailbox id page
          totalPages headers = w.handle zone account (.error error) := by
  have hnumbered : f.Numbered := Has.of_reach (OpenFolder.Numbered.lasting zone) hr _ hopen
  have hopened : (w.handle zone account (.error error)).opened = some (folder, f.pageFailed) := by
    simp only [handle, opened_notice, pageFailed, hopen, Option.map_some]
  constructor
  · rintro ⟨o, ho, hwaits⟩
    rw [hopened] at ho
    obtain rfl := Option.some.inj ho
    cases hwaits
  · intro page totalPages headers
    have hat : (w.handle zone account (.error error)).openedAt folder.account folder.mailbox =
        some (folder, f.pageFailed) := by
      rw [openedAt, hopened]
      simp
    unfold applyHeaders
    rw [hat]
    simp only
    rw [OpenFolder.applyReply_stale (f := f.pageFailed) (by simp [OpenFolder.pageFailed])
      (hnumbered.distinct id hpage)]

/-- Two accounts, and the first page of a folder is asked for. -/
theorem exists_page_waits : ∃ w : Window, (machine fun _ => none).Reach Machine.any w ∧
    ∃ f, w.opened = some (⟨0, "INBOX"⟩, f) ∧ f.pageRequest = some 1 := by
  obtain ⟨w, hr, hp⟩ := Machine.exists_reach_of_trace (machine fun _ => none) Machine.any
    (s := built ["me", "work"] fun _ => true) [.openFolder ⟨0, "INBOX"⟩]
    (fun w => decide (w.opened.map (fun o => (o.1, o.2.pageRequest)) = some (⟨0, "INBOX"⟩, some 1)))
    ⟨["me", "work"], fun _ => true, rfl⟩ (by decide)
  obtain ⟨⟨folder, f⟩, hopen, heq⟩ := Option.map_eq_some_iff.mp (of_decide_eq_true hp)
  obtain ⟨rfl, hpage⟩ := Prod.mk.inj heq
  exact ⟨w, hr, f, hopen, hpage⟩

/-- The session of the other account fails, and the page is no longer asked for. -/
theorem error_drops_page_of_other : ∃ w : Window, w.pageWaits 1 ∧
    ¬ (w.handle (fun _ => none) 1 (.error "no route to host")).pageWaits 1 := by
  obtain ⟨w, hr, f, hopen, hpage⟩ := exists_page_waits
  exact ⟨w, ⟨_, hopen, hpage⟩, (error_drops_page hr hopen hpage 1 "no route to host").1⟩

/-- So it does not wait for its reply, although the error was another account's. -/
theorem others_error_drops_page : ¬ ∀ (w : Window) (folder : FolderRef) (f : OpenFolder) (id account : Nat)
    (error : String), (machine fun _ => none).Reach Machine.any w → w.opened = some (folder, f) →
    f.pageRequest = some id → account ≠ folder.account →
    (w.handle (fun _ => none) account (.error error)).pageWaits id := by
  intro hall
  obtain ⟨w, hr, f, hopen, hpage⟩ := exists_page_waits
  obtain ⟨o, ho, hwaits⟩ := hall w _ f 1 1 "no route to host" hr hopen hpage (by decide)
  simp only [handle, opened_notice, pageFailed, hopen, Option.map_some] at ho
  obtain rfl := Option.some.inj ho
  cases hwaits

end Browsing.Window

end Esmail
