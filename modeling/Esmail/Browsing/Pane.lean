/-
# The reading pane does not stick

`BodyLoads` keeps its promise for the calls it is given (`Loading.selection_kept`).  Whether the window
makes the right calls is another question: it builds the key of a reply from the folder that is
selected WHEN THE REPLY ARRIVES, it calls `want` whether or not the session accepts the command, and it
keeps the register when the core is replaced.

`deliverable` excludes these three.  `pane_unstuck` is about the runs it allows: every reply to a fetch
releases the register, and the message that is selected (`current`) is shown, or a fetch is under way whose
reply will still arrive.

`Unstuck` is the invariant.  Most of what the window does is not about the pane (`SamePane`, and section
2), or drops the selection (section 4); what is left are the selections and the replies (section 3), which
go by the cases of the register: what is wanted is what has arrived (`bodyArrived_wanted`), or another
message, whose fetch starts then (`bodyArrived_unwanted`).

That the reply comes at all is up to the session, and is not said here.
-/
import Esmail.Browsing.Window

namespace Esmail.Browsing

open Transition

variable {zone : LocalDateTime}

namespace Window

/-! ## 1. The pane -/

/-- The key of the selected message, if the last selection was of one. -/
def current (w : Window) : Option BodyKey :=
  if w.single then
    w.selectedIn.bind fun folder =>
      w.selected.map fun header => (folder.account, folder.mailbox, header.uid)
  else none

theorem current_of_selected_none {w : Window} (h : w.selected = none) : w.current = none := by
  unfold current
  split
  · rw [h]
    cases w.selectedIn <;> rfl
  · rfl

theorem selected_of_current {w : Window} (h : w.current.isSome) : w.selected.isSome := by
  cases hselected : w.selected with
  | some header => rfl
  | none =>
    rw [current_of_selected_none hselected] at h
    cases h

/-- What is in flight has its reply to come; what is wanted is what is selected; and it is shown, unless
something is in flight. -/
structure Unstuck (w : Window) : Prop where
  awaiting : w.awaiting = w.bodies.inFlight.toList
  wanted : w.bodies.wanted = w.current
  shown : ∀ key, w.current = some key → w.bodies.inFlight = none → w.reader = some key

/-- A step that is not about the pane; a notice may come where nothing is selected. -/
structure SamePane (w w' : Window) : Prop where
  awaiting : w'.awaiting = w.awaiting
  bodies : w'.bodies = w.bodies
  current : w'.current = w.current
  reader : w.current.isSome → w'.reader = w.reader

theorem SamePane.rfl {w : Window} : SamePane w w := ⟨Eq.refl _, Eq.refl _, Eq.refl _, fun _ => Eq.refl _⟩

/-- The sessions, the accounts, the open folder, the search and the list are not about the pane. -/
theorem SamePane.touch (w : Window) (core : Core) (config : List AccountId)
    (opened : Option (FolderRef × OpenFolder)) (search : SearchState) (list : MessageList) :
    SamePane w
      { w with
        core := core
        config := config
        opened := opened
        search := search
        list := list } :=
  ⟨Eq.refl _, Eq.refl _, Eq.refl _, fun _ => Eq.refl _⟩

theorem SamePane.trans {w w1 w2 : Window} (h : SamePane w w1) (h' : SamePane w1 w2) :
    SamePane w w2 := by
  refine ⟨h'.awaiting.trans h.awaiting, h'.bodies.trans h.bodies, h'.current.trans h.current, ?_⟩
  exact fun hsome => (h'.reader (h.current ▸ hsome)).trans (h.reader hsome)

theorem Unstuck.of_same {w w' : Window} (h : Unstuck w) (hsame : SamePane w w') : Unstuck w' := by
  refine ⟨?_, ?_, fun key hkey hnone => ?_⟩
  · rw [hsame.awaiting, hsame.bodies, h.awaiting]
  · rw [hsame.bodies, hsame.current, h.wanted]
  · rw [hsame.current] at hkey
    rw [hsame.bodies] at hnone
    rw [hsame.reader (by rw [hkey]; exact Option.isSome_some)]
    exact h.shown key hkey hnone

/-- Nothing is selected any more, and nothing is wanted. -/
theorem Unstuck.deselect {w w' : Window} (h : Unstuck w) (hawaiting : w'.awaiting = w.awaiting)
    (hbodies : w'.bodies = w.bodies.cancel) (hnone : w'.current = none) : Unstuck w' := by
  refine ⟨?_, ?_, fun key hkey => ?_⟩
  · rw [hawaiting, hbodies]
    exact h.awaiting
  · rw [hnone, hbodies]
    rfl
  · rw [hnone] at hkey
    cases hkey

/-! ## 2. What is not about the pane -/

theorem SamePane.notice (w : Window) : SamePane w w.notice := by
  unfold Window.notice
  split
  · next hnone =>
    refine ⟨Eq.refl _, Eq.refl _, Eq.refl _, fun hsome => ?_⟩
    have hselected := selected_of_current hsome
    rw [Option.isNone_iff_eq_none.mp hnone] at hselected
    cases hselected
  · exact SamePane.rfl

theorem SamePane.requestPage (w : Window) : SamePane w w.requestPage := by
  unfold Window.requestPage
  split
  · exact SamePane.rfl
  · split
    · exact SamePane.rfl
    · simp only
      split
      · exact SamePane.touch w _ _ _ _ _
      · exact (SamePane.touch w _ _ _ _ _).trans (SamePane.notice _)

theorem SamePane.requestRefresh (w : Window) : SamePane w w.requestRefresh.1 := by
  unfold Window.requestRefresh
  split
  · exact SamePane.rfl
  · split
    · exact SamePane.rfl
    · simp only
      split
      · exact SamePane.touch w _ _ _ _ _
      · exact (SamePane.touch w _ _ _ _ _).trans (SamePane.notice _)

theorem SamePane.seedFromCache (w : Window) (account : Nat) (mailbox : String)
    (headers : List MailHeader) : SamePane w (w.seedFromCache zone account mailbox headers) := by
  unfold Window.seedFromCache
  split
  · exact SamePane.rfl
  · split
    · exact SamePane.rfl
    · exact SamePane.touch w _ _ _ _ _

theorem SamePane.flagOpened (w : Window) (account : Nat) (mailbox : String) (uid : Nat)
    (flags : List String) : SamePane w (w.flagOpened zone account mailbox uid flags) := by
  unfold Window.flagOpened
  split
  · exact SamePane.rfl
  · split
    · exact SamePane.rfl
    · exact SamePane.touch w _ _ _ _ _

theorem SamePane.flagResults (w : Window) (account : Nat) (mailbox : String) (uid : Nat)
    (flags : List String) : SamePane w (w.flagResults zone account mailbox uid flags) := by
  unfold Window.flagResults
  split
  · exact SamePane.rfl
  · split
    · exact SamePane.rfl
    · exact SamePane.touch w _ _ _ _ _

/-- New flags leave the selected message's key as it is. -/
theorem SamePane.setFlagsEverywhere (w : Window) (account : Nat) (mailbox : String) (uid : Nat)
    (flags : List String) : SamePane w (w.setFlagsEverywhere zone account mailbox uid flags) := by
  have hboth : SamePane w
      ((w.flagOpened zone account mailbox uid flags).flagResults zone account mailbox uid flags) :=
    (SamePane.flagOpened w account mailbox uid flags).trans (SamePane.flagResults _ _ _ _ _)
  unfold Window.setFlagsEverywhere
  extract_lets w1
  split
  · refine hboth.trans ⟨Eq.refl _, Eq.refl _, ?_, fun _ => Eq.refl _⟩
    simp only [Window.current, Option.map_map]
    rfl
  · exact hboth

theorem SamePane.take {w w' : Window} {session : Nat} (h : w.take session = some w') :
    SamePane w w' := by
  unfold Window.take at h
  split at h
  · exact Option.some.inj h ▸ SamePane.touch w _ _ _ _ _
  · cases h

/-! ## 3. Selections and replies -/

/-- A request that the session accepts is answered at some time. -/
theorem fetchBody_accepted {w : Window} {key : BodyKey} (id : Nat) (h : w.core.accepts key.1 = true) :
    ∃ core, w.fetchBody (some (key, id)) =
      { w with core := core, awaiting := w.awaiting ++ [(key, id)] } := by
  obtain ⟨account, mailbox, uid⟩ := key
  obtain ⟨queue, hqueue, hroom⟩ := (Option.any_eq_true _ _).mp h
  have hlt : queue.length < App.commandQueue := of_decide_eq_true hroom
  refine ⟨(w.core.send account (.fetchBody mailbox uid id)).1, ?_⟩
  have hsent : (w.core.send account (.fetchBody mailbox uid id)).2 = true := by
    simp only [Core.send, hqueue, if_pos hlt]
  simp only [fetchBody, hsent, if_true]

theorem bodies_fetchBody (w : Window) (request : Option (BodyKey × Nat)) :
    (w.fetchBody request).bodies = w.bodies := by
  unfold fetchBody
  split
  · rfl
  · simp only
    split
    · rfl
    · unfold accountUnavailable notice
      split <;> rfl

/-- What is wanted is started, and the session accepts it. -/
theorem Unstuck.of_startWanted {w : Window} (hawaiting : w.awaiting = w.bodies.inFlight.toList)
    (hwanted : w.bodies.wanted = w.current)
    (haccepts : ∀ key, w.current = some key → w.bodies.inFlight = none →
      w.core.accepts key.1 = true) :
    Unstuck ({ w with bodies := w.bodies.startWanted.1 }.fetchBody w.bodies.startWanted.2) := by
  cases hflight : w.bodies.inFlight with
  | some r =>
    rw [BodyLoads.startWanted_busy hflight]
    refine ⟨hawaiting, hwanted, fun key _ hnone => ?_⟩
    rw [show w.bodies.inFlight = none from hnone] at hflight
    cases hflight
  | none =>
    cases hcurrent : w.current with
    | none =>
      rw [BodyLoads.startWanted_idle (hwanted.trans hcurrent)]
      refine ⟨hawaiting, hwanted, fun key hkey _ => ?_⟩
      rw [show w.current = some key from hkey] at hcurrent
      cases hcurrent
    | some key =>
      rw [BodyLoads.startWanted_free hflight (hwanted.trans hcurrent)]
      obtain ⟨core, hfetch⟩ := fetchBody_accepted
        (w := { w with
          bodies := { w.bodies with
            ids := w.bodies.ids.begin.1
            inFlight := some (key, w.bodies.ids.begin.2) } })
        w.bodies.ids.begin.2 (haccepts key hcurrent hflight)
      rw [hfetch]
      refine ⟨?_, hwanted, fun key' _ hnone => ?_⟩
      · simp only [hawaiting, hflight, Option.toList_none, List.nil_append, Option.toList_some]
      · cases hnone

/-- If selecting the row starts a fetch, the session accepts it. -/
def roomFor (w : Window) (row : Nat) : Prop :=
  ∀ m ∈ w.messageAt row, w.bodies.inFlight = none →
    w.bodies.wanted ≠ some (m.1.account, m.1.mailbox, m.2.uid) → w.core.accepts m.1.account = true

/-- The reply is attributed to the message that was fetched; and if another one is wanted, the session
accepts the fetch of that. -/
def comesHome (w : Window) (key : BodyKey) : Prop :=
  w.core.accountOf key.1 = some key.1 ∧ w.selectedIn.map FolderRef.mailbox = some key.2.1 ∧
    ∀ other ∈ w.bodies.wanted, other ≠ key → w.core.accepts other.1 = true

theorem Unstuck.selectOne {w : Window} (h : Unstuck w) {row : Nat} (hroom : w.roomFor row) :
    Unstuck (w.select [row]) := by
  cases hat : w.messageAt row with
  | none =>
    simp only [Window.select, hat]
    exact h
  | some m =>
    obtain ⟨folder, header⟩ := m
    simp only [Window.select, hat]
    by_cases hwanted : w.bodies.wanted = some (folder.account, folder.mailbox, header.uid)
    · -- it was selected before, and is shown, or its reply will be
      rw [BodyLoads.want_same hwanted]
      refine ⟨h.awaiting, hwanted, fun key hkey hnone => h.shown key ?_ hnone⟩
      rw [← h.wanted, hwanted]
      exact hkey
    · rw [BodyLoads.want_other hwanted]
      refine Unstuck.of_startWanted
        (w := { w with
          selectedIn := some folder
          selected := some header
          messageShown := false
          bodies := { w.bodies with wanted := some (folder.account, folder.mailbox, header.uid) }
          single := true }) h.awaiting rfl fun key hkey hnone => ?_
      obtain rfl := Option.some.inj hkey
      exact hroom (folder, header) hat hnone hwanted

theorem Unstuck.select {w : Window} (h : Unstuck w) (rows : List Nat)
    (hroom : ∀ row, rows = [row] → w.roomFor row) : Unstuck (w.select rows) := by
  have hcancel : Unstuck { w with bodies := w.bodies.cancel, single := false } :=
    h.deselect rfl rfl rfl
  match rows, hroom with
  | [], _ => exact hcancel
  | [row], hroom => exact h.selectOne (hroom row rfl)
  | _ :: _ :: _, _ => exact hcancel

/-- The reply to what is wanted is shown. -/
theorem bodyArrived_wanted {w : Window} {account uid id : Nat} {folder : FolderRef}
    (hin : w.selectedIn = some folder)
    (hflight : w.bodies.inFlight = some ((account, folder.mailbox, uid), id))
    (hwanted : w.bodies.wanted = some (account, folder.mailbox, uid))
    (hselected : w.selected.isSome = true) :
    w.bodyArrived account uid id =
      { w with
        bodies := { w.bodies with inFlight := none }
        messageShown := true
        reader := some (account, folder.mailbox, uid) } := by
  rw [bodyArrived, hin]
  dsimp only
  rw [BodyLoads.finished_wanted hflight hwanted]
  simp only [Bool.true_and, if_pos hselected]
  rfl

/-- The reply to what is no longer wanted makes room for what is. -/
theorem bodyArrived_unwanted {w : Window} {account uid id : Nat} {folder : FolderRef}
    (hin : w.selectedIn = some folder)
    (hflight : w.bodies.inFlight = some ((account, folder.mailbox, uid), id))
    (hwanted : w.bodies.wanted ≠ some (account, folder.mailbox, uid)) :
    w.bodyArrived account uid id =
      { w with
        bodies := ({ w.bodies with inFlight := none } : BodyLoads BodyKey).startWanted.1 }.fetchBody
          ({ w.bodies with inFlight := none } : BodyLoads BodyKey).startWanted.2 := by
  rw [bodyArrived, hin]
  dsimp only
  rw [BodyLoads.finished_unwanted hflight hwanted]
  rfl

/-- The reply to the fetch that is under way releases the register, and shows what is wanted or starts
it. -/
theorem Unstuck.answer {w : Window} (h : Unstuck w) {key : BodyKey} {id : Nat}
    (hmem : (key, id) ∈ w.awaiting) (hhome : w.comesHome key) :
    w.bodies.inFlight = some (key, id) ∧
      Unstuck ({ w with awaiting := w.awaiting.erase (key, id) }.bodyArrived key.1 key.2.2 id) ∧
      ({ w with awaiting := w.awaiting.erase (key, id) }.bodyArrived key.1 key.2.2 id).bodies.inFlight ≠
        some (key, id) := by
  obtain ⟨account, mailbox, uid⟩ := key
  obtain ⟨-, hmailbox, haccepts⟩ := hhome
  obtain ⟨folder, hin, rfl⟩ := Option.map_eq_some_iff.mp hmailbox
  have hflight : w.bodies.inFlight = some ((account, folder.mailbox, uid), id) := by
    rw [h.awaiting, Option.mem_toList] at hmem
    exact hmem
  have hnone : w.awaiting.erase ((account, folder.mailbox, uid), id) = [] := by
    rw [h.awaiting, hflight]
    simp
  rw [hnone]
  refine ⟨hflight, ?_⟩
  by_cases hwanted : w.bodies.wanted = some (account, folder.mailbox, uid)
  · have hcurrent : w.current = some (account, folder.mailbox, uid) := h.wanted ▸ hwanted
    have hselected : w.selected.isSome := selected_of_current (by rw [hcurrent]; rfl)
    rw [bodyArrived_wanted (w := { w with awaiting := [] }) hin hflight hwanted hselected]
    refine ⟨⟨rfl, h.wanted, fun key hkey _ => ?_⟩, fun hsome => ?_⟩
    · exact hcurrent.symm.trans hkey
    · cases hsome
  · rw [bodyArrived_unwanted (w := { w with awaiting := [] }) hin hflight hwanted]
    constructor
    · refine Unstuck.of_startWanted
        (w := { w with awaiting := [], bodies := { w.bodies with inFlight := none } })
        rfl h.wanted fun other hother _ => ?_
      have hwant : w.bodies.wanted = some other := h.wanted.trans hother
      exact haccepts other hwant fun heq => hwanted (heq ▸ hwant)
    · rw [bodies_fetchBody]
      exact BodyLoads.startWanted_ne id rfl hwanted

/-! ## 4. Where nothing is selected any more -/

theorem Unstuck.openFolder {w : Window} (h : Unstuck w) (folder : FolderRef) :
    Unstuck (w.openFolder folder) := by
  refine Unstuck.of_same ?_ (SamePane.requestPage _)
  exact h.deselect rfl rfl (current_of_selected_none rfl)

theorem Unstuck.refresh {w : Window} (h : Unstuck w) : Unstuck w.refresh := by
  have hasked := h.of_same (SamePane.requestRefresh w)
  unfold Window.refresh
  split
  · exact h
  · next folder _ _ =>
    simp only
    split
    · exact hasked
    · exact hasked.openFolder folder

theorem Unstuck.showFolderAgain {w : Window} (h : Unstuck w) : Unstuck w.showFolderAgain := by
  unfold Window.showFolderAgain
  split
  · exact h
  · exact h.deselect rfl rfl (current_of_selected_none rfl)

theorem Unstuck.searchChanged {w : Window} (h : Unstuck w) (text : String) :
    Unstuck (w.searchChanged text) := by
  have htyped : Unstuck { w with search := { w.search with text := text } } :=
    h.of_same (SamePane.touch w _ _ _ _ _)
  unfold Window.searchChanged
  split
  · exact h
  · simp only
    split
    · exact htyped.showFolderAgain
    · exact htyped

theorem Unstuck.clearSearch {w : Window} (h : Unstuck w) : Unstuck w.clearSearch := by
  unfold Window.clearSearch
  split
  · exact h
  · have hemptied : Unstuck { w with search := { w.search with text := "" } } :=
      h.of_same (SamePane.touch w _ _ _ _ _)
    exact hemptied.showFolderAgain

theorem Unstuck.searchArrived {w : Window} (h : Unstuck w) (hits : List SearchHit) :
    Unstuck (w.searchArrived zone hits) := by
  unfold Window.searchArrived
  split
  · exact h
  · exact h.deselect rfl rfl (current_of_selected_none rfl)

theorem Unstuck.applyHeaders {w : Window} (h : Unstuck w) (account : Nat) (mailbox : String)
    (reqId page totalPages : Nat) (headers : List MailHeader) :
    Unstuck (w.applyHeaders zone account mailbox reqId page totalPages headers) := by
  unfold Window.applyHeaders
  split
  · exact h
  · split
    · exact h
    · extract_lets w1 w2
      have happlied : Unstuck w1 := h.of_same (SamePane.touch w _ _ _ _ _)
      have hgone : Unstuck w2 := by
        simp only [w2]
        split
        · exact happlied.deselect rfl rfl (current_of_selected_none rfl)
        · exact happlied
      split
      · exact hgone.of_same (SamePane.requestPage w2)
      · exact hgone

theorem Unstuck.dropRow {w : Window} (h : Unstuck w) (rows : List RowModel) (len : Nat)
    (wasSelected : Bool) : Unstuck (w.dropRow rows len wasSelected) := by
  unfold Window.dropRow
  simp only
  split
  · exact h.deselect rfl rfl (current_of_selected_none rfl)
  · exact h.of_same (SamePane.touch w _ _ _ _ _)

theorem Unstuck.moved {w : Window} (h : Unstuck w) (account : Nat) (mailbox : String) (uid : Nat) :
    Unstuck (w.moved account mailbox uid) := by
  unfold Window.moved
  extract_lets wasSelected folderRow resultRow search w1
  have hremoved : Unstuck w1 := h.of_same (SamePane.touch w _ _ _ _ _)
  clear_value w1 resultRow folderRow
  split
  · exact hremoved.dropRow _ _ _
  · exact hremoved.dropRow _ _ _
  · exact hremoved

theorem Unstuck.reloadAccounts {w : Window} (h : Unstuck w) (config : List AccountId)
    (started : Option Core) (hidle : started.isSome → w.bodies.inFlight = none) :
    Unstuck (w.reloadAccounts config started) := by
  cases started with
  | none => exact (h.of_same (SamePane.touch w _ _ _ _ _)).of_same (SamePane.notice _)
  | some core =>
    have hnone : w.awaiting = [] := by
      rw [h.awaiting, hidle rfl]
      rfl
    exact h.deselect hnone.symm rfl (current_of_selected_none rfl)

theorem Unstuck.accountSaved {w : Window} (h : Unstuck w) (config : List AccountId)
    (id : AccountId) (started : Option Core) (hidle : started.isSome → w.bodies.inFlight = none) :
    Unstuck (w.accountSaved config id started) := by
  have hreloaded := h.reloadAccounts config started hidle
  unfold Window.accountSaved
  simp only
  split
  · exact hreloaded
  · unfold openFromCache
    split
    · exact hreloaded
    · exact hreloaded.openFolder _

/-- What the sessions report, other than the outcome of a fetch. -/
theorem Unstuck.handle {w : Window} (h : Unstuck w) (account : Nat) {event : App.ImapEvent}
    (hother : answersFetch event = false) : Unstuck (w.handle zone account event) := by
  cases event with
  | connected =>
    simp only [Window.handle]
    have hsent : Unstuck { w with core := (w.core.send account .fetchMailboxes).1 } :=
      h.of_same (SamePane.touch w _ _ _ _ _)
    split
    · exact hsent.of_same (SamePane.requestRefresh _)
    · exact hsent
  | error error =>
    have hfailed : SamePane w w.pageFailed := SamePane.touch w _ _ _ _ _
    exact h.of_same (hfailed.trans (SamePane.notice _))
  | newHeaders mailbox headers =>
    simp only [Window.handle]
    split
    · exact h.of_same (SamePane.requestRefresh w)
    · exact h
  | headers mailbox headers page totalPages reqId state =>
    exact h.applyHeaders account mailbox reqId page totalPages headers
  | body uid html attachments reqId => cases hother
  | bodyFailed uid reqId error => cases hother
  | flagsUpdated mailbox uid flags reqId =>
    exact h.of_same (SamePane.setFlagsEverywhere w account mailbox uid flags)
  | moved mailbox uid dest reqId => exact h.moved account mailbox uid
  | flagsUpdateFailed mailbox uid error reqId => exact h.of_same (SamePane.notice w)
  | moveFailed mailbox uid error reqId => exact h.of_same (SamePane.notice w)
  | exportFailed error => exact h.of_same (SamePane.notice w)
  | _ => exact h

/-! ## 5. The runs -/

/-- A fetch is started only where the session accepts it; its reply comes while the folder it is
attributed to is the selected one; and the core is replaced only while no fetch is under way. -/
def deliverable (w : Window) : Action → Prop
  | .select [row] => w.roomFor row
  | .answer request _ => w.comesHome request.1
  | .accountSaved _ _ (some _) => w.bodies.inFlight = none
  | .accountRemoved _ (some _) => w.bodies.inFlight = none
  | _ => True

/-- What an answer is, as a step. -/
theorem step_answer {w w' : Window} {key : BodyKey} {id : Nat}
    {outcome : Except String (String × List Attachment)}
    (hst : w.step zone (.answer (key, id) outcome) = some w') (hhome : w.comesHome key) :
    (key, id) ∈ w.awaiting ∧
      w' = { w with awaiting := w.awaiting.erase (key, id) }.bodyArrived key.1 key.2.2 id := by
  obtain ⟨session, mailbox, uid⟩ := key
  simp only [Window.step] at hst
  split at hst
  · next hmem =>
    obtain ⟨account, haccount, rfl⟩ := Option.map_eq_some_iff.mp hst
    obtain rfl := Option.some.inj (hhome.1.symm.trans haccount)
    refine ⟨hmem.1, ?_⟩
    cases outcome <;> rfl
  · cases hst

theorem Unstuck.step {w w' : Window} {a : Action} (h : Unstuck w) (hok : deliverable w a)
    (hst : w.step zone a = some w') : Unstuck w' := by
  cases a with
  | openFolder folder => exact Option.some.inj hst ▸ h.openFolder folder
  | select rows =>
    refine Option.some.inj hst ▸ h.select rows ?_
    rintro row rfl
    exact hok
  | nearEnd =>
    obtain rfl := Option.some.inj hst
    split
    · exact h
    · exact h.of_same (SamePane.requestPage w)
  | refresh => exact Option.some.inj hst ▸ h.refresh
  | searchChanged text => exact Option.some.inj hst ▸ h.searchChanged text
  | clearSearch => exact Option.some.inj hst ▸ h.clearSearch
  | searchArrived hits => exact Option.some.inj hst ▸ h.searchArrived hits
  | seedFromCache account mailbox headers =>
    exact Option.some.inj hst ▸ h.of_same (SamePane.seedFromCache w account mailbox headers)
  | hear session event =>
    simp only [Window.step] at hst
    split at hst
    · cases hst
    · next hother =>
      obtain ⟨account, -, rfl⟩ := Option.map_eq_some_iff.mp hst
      exact h.handle account (Bool.not_eq_true _ ▸ hother)
  | answer request outcome =>
    obtain ⟨hmem, rfl⟩ := step_answer hst hok
    exact (h.answer hmem hok).2.1
  | notice => exact Option.some.inj hst ▸ h.of_same (SamePane.notice w)
  | order account command =>
    simp only [Window.step] at hst
    split at hst
    · cases hst
    · exact Option.some.inj hst ▸ h.of_same (SamePane.touch w _ _ _ _ _)
  | take session => exact h.of_same (SamePane.take hst)
  | accountSaved config id started =>
    refine Option.some.inj hst ▸ h.accountSaved config id started fun hsome => ?_
    cases started with
    | none => cases hsome
    | some core => exact hok
  | accountRemoved config started =>
    refine Option.some.inj hst ▸ h.reloadAccounts config started fun hsome => ?_
    cases started with
    | none => cases hsome
    | some core => exact hok

theorem Unstuck.of_reach {w : Window} (h : (machine zone).Reach deliverable w) : Unstuck w := by
  refine h.invariant (P := Unstuck) ?_ fun w a w' _ hunstuck hok hst => hunstuck.step hok hst
  rintro w ⟨accounts, credentials, rfl⟩
  exact ⟨rfl, rfl, fun key hkey => absurd hkey (by simp [current, built])⟩

/-- In a run whose fetches are accepted and whose replies come home, every reply releases the register
it is for; and the message that is selected is shown, or a fetch is under way whose reply will still
arrive. -/
theorem pane_unstuck {w : Window} (h : (machine zone).Reach deliverable w) :
    (∀ request outcome w', deliverable w (.answer request outcome) →
      w.step zone (.answer request outcome) = some w' →
        w.bodies.inFlight = some request ∧ w'.bodies.inFlight ≠ some request) ∧
      ∀ key, w.current = some key →
        w.reader = some key ∨ ∃ request ∈ w.awaiting, w.bodies.inFlight = some request := by
  have hunstuck := Unstuck.of_reach h
  constructor
  · rintro ⟨key, id⟩ outcome w' hhome hst
    obtain ⟨hmem, rfl⟩ := step_answer hst hhome
    obtain ⟨hflight, -, hreleased⟩ := hunstuck.answer hmem hhome
    exact ⟨hflight, hreleased⟩
  · intro key hkey
    cases hflight : w.bodies.inFlight with
    | none => exact .inl (hunstuck.shown key hkey hflight)
    | some request =>
      refine .inr ⟨request, ?_, rfl⟩
      rw [hunstuck.awaiting, hflight]
      exact List.mem_singleton.mpr rfl

instance (w : Window) (row : Nat) : Decidable (w.roomFor row) :=
  inferInstanceAs (Decidable (∀ m ∈ w.messageAt row, _ → _ → _))

instance (w : Window) (key : BodyKey) : Decidable (w.comesHome key) :=
  inferInstanceAs (Decidable (_ ∧ _ ∧ ∀ other ∈ w.bodies.wanted, _ → _))

instance (w : Window) : (a : Action) → Decidable (deliverable w a)
  | .select [row] => inferInstanceAs (Decidable (w.roomFor row))
  | .answer request _ => inferInstanceAs (Decidable (w.comesHome request.1))
  | .accountSaved _ _ (some _) | .accountRemoved _ (some _) =>
    inferInstanceAs (Decidable (w.bodies.inFlight = none))
  | .accountSaved _ _ none | .accountRemoved _ none => isTrue trivial
  | .select [] | .select (_ :: _ :: _) | .openFolder _ | .nearEnd | .refresh | .searchChanged _
  | .clearSearch | .searchArrived _ | .seedFromCache _ _ _ | .hear _ _ | .notice | .order _ _
  | .take _ => isTrue trivial

/-- Two messages of a folder are on screen, and the first one's body is asked for. -/
def reading : List Action :=
  [.openFolder ⟨0, "INBOX"⟩,
    .hear 0 (.headers "INBOX" [Viewed.bareHeader 5, Viewed.bareHeader 3] 1 1 1 ⟨1, 6⟩),
    .select [0], .take 0, .take 0, .take 0]

/-- Such a run: the second message is selected while the first is fetched, and then the first one's
reply arrives. -/
theorem pane_unstuck_of_arrowing : ∃ w : Window,
    w.current = some (0, "INBOX", 3) ∧ w.awaiting = [((0, "INBOX", 3), 2)] ∧
      (∀ request outcome w', deliverable w (.answer request outcome) →
        w.step (fun _ => none) (.answer request outcome) = some w' →
          w.bodies.inFlight = some request ∧ w'.bodies.inFlight ≠ some request) ∧
      ∀ key, w.current = some key →
        w.reader = some key ∨ ∃ request ∈ w.awaiting, w.bodies.inFlight = some request := by
  obtain ⟨w, hr, hp⟩ := Machine.exists_reach_of_trace (machine fun _ => none) deliverable
    (s := built ["a"] fun _ => true)
    (reading ++ [.select [1], .answer ((0, "INBOX", 5), 1) (.ok ("body", []))])
    (fun w => decide (w.current = some (0, "INBOX", 3) ∧ w.awaiting = [((0, "INBOX", 3), 2)]))
    ⟨["a"], fun _ => true, rfl⟩ (by decide)
  obtain ⟨hcurrent, hawaiting⟩ := of_decide_eq_true hp
  exact ⟨w, hcurrent, hawaiting, pane_unstuck hr⟩

/-- A message of a folder is fetched, and one of another mailbox, that a search has found, is selected
before the reply comes: the reply is taken for another message's, and nothing is fetched any more. -/
theorem stuck_by_another_mailbox : ¬ ∀ w : Window, (machine fun _ => none).Reach Machine.any w →
    (∀ request outcome w', w.step (fun _ => none) (.answer request outcome) = some w' →
      w.bodies.inFlight = some request → w'.bodies.inFlight ≠ some request) ∧
      ∀ key, w.current = some key →
        w.reader = some key ∨ ∃ request ∈ w.awaiting, w.bodies.inFlight = some request := by
  intro hall
  obtain ⟨w, hr, hp⟩ := Machine.exists_reach_of_trace (machine fun _ => none) Machine.any
    (s := built ["a"] fun _ => true)
    (reading ++ [.searchChanged "x", .searchArrived [⟨"a", "Sent", Viewed.bareHeader 9⟩], .select [0],
      .answer ((0, "INBOX", 5), 1) (.ok ("body", []))])
    (fun w => decide (w.current = some (0, "Sent", 9) ∧ w.reader = none ∧ w.awaiting = []))
    ⟨["a"], fun _ => true, rfl⟩ (by decide)
  obtain ⟨hcurrent, hreader, hawaiting⟩ := of_decide_eq_true hp
  rcases (hall w hr).2 _ hcurrent with hshown | ⟨request, hmem, -⟩
  · rw [hreader] at hshown
    cases hshown
  · rw [hawaiting] at hmem
    cases hmem

end Window

end Esmail.Browsing
