/-
# What is on screen, and where the search results come from

A reply about a message names its mailbox.  The list is changed only by replies about the mailbox on
screen; the selection and the reading pane are changed by any reply of the account on screen that
says that the selected UID has moved, whatever mailbox it names.

The results of a search and their origins are two lists that are edited together, by index.

Two results:

* `screen_untouched_iff`, of one event, in any state of the core, reachable or not: a reply about another
  mailbox leaves the list, the selection and the pane as they are, exactly where it does not say that the
  selected UID has moved (`deselects`);
* `results_attributed`, of runs: results and origins have one length, are what the last search found, in
  its order and without those that have moved since, and name accounts that have a session.

The second is the invariant `Attributed`, with a lemma for each way the two lists change (`flag`, `drop`,
`search`, a search that ends), and `of_same` for the calls that leave them.  It needs one condition,
`keepsOrigins`: disconnecting an account tidies the origins only of the account on screen.  What flags a
result has is left open; two results are compared without them (`sameMail`).
-/
import Esmail.App.Frontend

namespace Esmail.App

open Transition

/-! ## 1. The list, the selection and the reading pane -/

/-- What is on screen of the open mailbox and the open message. -/
structure Shown where
  headers : List ListedHeader
  selectedUid : Option Nat
  selectedUids : Finset Nat
  currentMessageHtml : String
  currentAttachments : List Attachment
  readingPane : Option String
  deriving DecidableEq

namespace AppCore

def shown (core : AppCore) : Shown :=
  ⟨core.headers, core.selectedUid, core.selectedUids, core.currentMessageHtml,
    core.currentAttachments, core.changes.readingPane⟩

@[simp] theorem shown_clearProgress (core : AppCore) (kind : ProgressKind) :
    (core.clearProgress kind).shown = core.shown := by
  unfold clearProgress
  split <;> rfl

@[simp] theorem shown_advanceBulkAction (core : AppCore) (kind : ProgressKind) (uid : Nat) :
    (core.advanceBulkAction kind uid).shown = core.shown := by
  unfold advanceBulkAction
  split
  · rfl
  · split
    · rfl
    · simp only []
      split
      · exact shown_clearProgress { core with bulkAction := none } kind
      · rfl

@[simp] theorem shown_sendDb (core : AppCore) (cmd : Cache.Command) :
    (core.sendDb cmd).shown = core.shown := by
  unfold sendDb
  split <;> rfl

@[simp] theorem shown_countSeen (core : AppCore) (account : AccountId) (mailbox : String)
    (wasSeen : Option Bool) (nowSeen : Bool) :
    (core.countSeen account mailbox wasSeen nowSeen).shown = core.shown := by
  unfold countSeen
  split <;> rfl

@[simp] theorem shown_countMoved (core : AppCore) (account : AccountId) (mailbox dest : String)
    (wasUnread : Bool) : (core.countMoved account mailbox dest wasUnread).shown = core.shown := by
  unfold countMoved
  split <;> rfl

theorem shown_dropResult (core : AppCore) (account : AccountId) (mailbox : String) (uid : Nat) :
    (core.dropResult account mailbox uid).shown = core.shown := by
  unfold dropResult
  split <;> rfl

/-- The reply to a bulk action does not say which mailbox is on screen. -/
theorem onScreen_advanceBulkAction (core : AppCore) (kind : ProgressKind) (uid : Nat)
    (account : AccountId) (mailbox : String) :
    (core.advanceBulkAction kind uid).onScreen account mailbox = core.onScreen account mailbox := by
  have hquiet := quiet_advanceBulkAction core kind uid
  simp only [onScreen, hquiet.active, hquiet.selectedMailbox]

theorem shown_onFlagsUpdated {core : AppCore} {account : AccountId} {mailbox : String}
    (hoff : core.onScreen account mailbox = false) (uid : Nat) (flags : List String) :
    (core.onFlagsUpdated account mailbox uid flags).shown = core.shown := by
  unfold onFlagsUpdated
  simp only [shown_sendDb, shown_countSeen]
  refine Eq.trans ?_ (shown_advanceBulkAction core .flags uid)
  simp only [flagLists, onScreen_advanceBulkAction, hoff]
  rfl

/-- What a move does to the selection. -/
theorem shown_deselect (core : AppCore) (account : AccountId) (uid : Nat) (dest : String) :
    (core.deselect account uid dest).shown =
      if core.active = some account then
        { core.shown with
          selectedUids := core.selectedUids.erase uid
          selectedUid := if core.selectedUid = some uid then none else core.selectedUid
          readingPane :=
            if core.selectedUid = some uid then some "<i>Message moved.</i>"
            else core.changes.readingPane }
      else core.shown := by
  unfold deselect
  simp only []
  split
  · split
    · rfl
    · rfl
  · rfl

theorem shown_onMoved {core : AppCore} {account : AccountId} {mailbox : String}
    (hoff : core.onScreen account mailbox = false) (uid : Nat) (dest : String) :
    (core.onMoved account mailbox uid dest).shown =
      if core.active = some account then
        { core.shown with
          selectedUids := core.selectedUids.erase uid
          selectedUid := if core.selectedUid = some uid then none else core.selectedUid
          readingPane :=
            if core.selectedUid = some uid then some "<i>Message moved.</i>"
            else core.changes.readingPane }
      else core.shown := by
  have hadvanced := shown_advanceBulkAction core .move uid
  have hquiet := quiet_advanceBulkAction core .move uid
  have hscreen := onScreen_advanceBulkAction core .move uid account mailbox
  unfold onMoved
  generalize core.advanceBulkAction .move uid = core₁ at *
  have hlist : ({ core₁ with
      headers :=
        if core₁.onScreen account mailbox = true then
          core₁.headers.filter fun h => h.header.uid ≠ uid
        else core₁.headers } : AppCore) = core₁ := by
    rw [hscreen, hoff]
    rfl
  simp only [shown_sendDb, shown_countMoved]
  rw [hlist, shown_deselect]
  have hdropped := shown_dropResult core₁ account mailbox uid
  have hactive : (core₁.dropResult account mailbox uid).active = core.active :=
    (quiet_dropResult core₁ account mailbox uid).active.trans hquiet.active
  have hsame := hdropped.trans hadvanced
  have huid : (core₁.dropResult account mailbox uid).selectedUid = core.selectedUid :=
    congrArg Shown.selectedUid hsame
  have huids : (core₁.dropResult account mailbox uid).selectedUids = core.selectedUids :=
    congrArg Shown.selectedUids hsame
  have hpane : (core₁.dropResult account mailbox uid).changes.readingPane =
      core.changes.readingPane := congrArg Shown.readingPane hsame
  rw [hactive, hsame, huid, huids, hpane]

end AppCore

/-- What a reply confirms about a message: its mailbox and its UID. -/
def ImapEvent.confirms : ImapEvent → Option (String × Nat)
  | .flagsUpdated mailbox uid _ _ | .moved mailbox uid _ _ => some (mailbox, uid)
  | _ => none

namespace AppCore

/-- Whether the event says that the selected UID has moved, in any mailbox of the account on screen. -/
def deselects (core : AppCore) (account : AccountId) : ImapEvent → Bool
  | .moved _ uid _ _ =>
    (core.view account).isSome && core.active = some account &&
      (decide (uid ∈ core.selectedUids) || core.selectedUid = some uid)
  | _ => false

/-- A reply about a message of another mailbox than the one on screen leaves the list, the selection and
the reading pane as they are, unless it says that the selected UID has moved in a mailbox of the
account on screen. -/
theorem screen_untouched_iff (out : Outside) (core : AppCore) {account : AccountId}
    {evt : ImapEvent} {mailbox : String} {uid : Nat} (hevt : evt.confirms = some (mailbox, uid))
    (hoff : ¬ (core.active = some account ∧ core.selectedMailbox = mailbox)) :
    (core.handleImapEvent out account evt).shown = core.shown ↔
      core.deselects account evt = false := by
  have hoff : core.onScreen account mailbox = false := by
    simp only [onScreen, Bool.and_eq_false_iff, decide_eq_false_iff_not]
    exact (not_and_or.mp hoff).imp_right fun hne => Ne.symm hne
  unfold handleImapEvent
  cases evt with
  | flagsUpdated mailbox' uid' flags reqId =>
    obtain ⟨rfl, rfl⟩ := Prod.mk.inj (Option.some.inj hevt)
    refine iff_of_true ?_ rfl
    split
    · rfl
    · exact shown_onFlagsUpdated hoff uid' flags
  | moved mailbox' uid' dest reqId =>
    obtain ⟨rfl, rfl⟩ := Prod.mk.inj (Option.some.inj hevt)
    split
    · next hgone =>
      refine iff_of_true rfl ?_
      rw [deselects, Option.isNone_iff_eq_none.mp hgone]
      simp
    · next hthere =>
      have hthere : (core.view account).isSome = true :=
        Option.isSome_iff_ne_none.mpr (by simpa using hthere)
      simp only [shown_onMoved hoff, deselects, hthere, Bool.true_and]
      by_cases hactive : core.active = some account
      · simp only [hactive, if_true, decide_true, Bool.true_and, Bool.or_eq_false_iff,
          decide_eq_false_iff_not]
        constructor
        · intro hsame
          have huids : core.selectedUids.erase uid' = core.selectedUids :=
            congrArg Shown.selectedUids hsame
          have huid : (if core.selectedUid = some uid' then none else core.selectedUid) =
              core.selectedUid := congrArg Shown.selectedUid hsame
          refine ⟨Finset.erase_eq_self.mp huids, fun hselected => ?_⟩
          rw [if_pos hselected, hselected] at huid
          cases huid
        · rintro ⟨hmem, hselected⟩
          rw [Finset.erase_eq_of_notMem hmem, if_neg hselected, if_neg hselected]
          rfl
      · simp [hactive]
  | _ => cases hevt

/-- `INBOX` of an account is on screen, and its message 5 open. -/
def reading : AppCore :=
  { (({ dbCapacity := 32 } : AppCore).openSession 0 System.me (.password "p") none).activate "me"
      "INBOX" with
    selectedUid := some 5
    selectedUids := {5} }

/-- Message 7 of `Sent` is archived meanwhile. -/
theorem screen_untouched_of_other_uid :
    (reading.handleImapEvent System.plainOutside "me" (.moved "Sent" 7 "Archive" 1)).shown =
      reading.shown :=
  (screen_untouched_iff System.plainOutside reading
    (rfl : (ImapEvent.moved "Sent" 7 "Archive" 1).confirms = some ("Sent", 7))
    (by decide)).mpr (by decide)

end AppCore

namespace Frontend

/-- `INBOX` is on screen and its message 5 open; that message 5 of `Sent` is archived closes it. -/
theorem closed_by_another_mailbox : ¬ ∀ s : Frontend,
    (machine System.plainOutside).Reach Machine.any s → s.core.searchResults = none →
      ∀ account evt mailbox uid, ImapEvent.confirms evt = some (mailbox, uid) →
        ¬ (s.core.active = some account ∧ s.core.selectedMailbox = mailbox) →
        (s.core.handleImapEvent System.plainOutside account evt).shown = s.core.shown := by
  intro hall
  obtain ⟨s, hr, hp⟩ := Machine.exists_reach_of_trace (machine System.plainOutside) Machine.any
    [.openSession System.me (.password "p") none, .event 0 .connected, .select (some 5) {5}]
    (fun s => decide (s.core.searchResults = none ∧ s.core.selectedMailbox = "INBOX" ∧
      s.core.shown.selectedUid = some 5 ∧
      (s.core.handleImapEvent System.plainOutside "me" (.moved "Sent" 5 "Archive" 1)).shown.selectedUid =
        none))
    (rfl : Fresh fresh) (by decide)
  obtain ⟨hsearch, hmailbox, hselected, hclosed⟩ := of_decide_eq_true hp
  have hsame := hall s hr hsearch "me" (.moved "Sent" 5 "Archive" 1) "Sent" 5 rfl
    (by rw [hmailbox]; simp)
  rw [hsame, hselected] at hclosed
  cases hclosed

/-! ## 2. The search results and their origins -/

/-- A header as it is but for its flags. -/
def unflagged (h : MailHeader) : MailHeader := { h with flags := [] }

/-- What a search result is known by: its message and where it was found. -/
def sameMail (f : Found) : Found := (unflagged f.1, f.2)

/-- The results and the origins are empty together; result and origin of one index were found together,
in the order of the search; and every origin's account has a session. -/
structure Attributed (s : Frontend) : Prop where
  closed : s.core.searchResults = none → s.core.searchOrigins = []
  paired : ∀ results ∈ s.core.searchResults, results.length = s.core.searchOrigins.length ∧
    ∃ kept, List.Sublist kept s.found ∧
      (results.zip s.core.searchOrigins).map sameMail = kept.map sameMail
  live : ∀ o ∈ s.core.searchOrigins, (s.core.view o.1).isSome = true

/-- An account that is not on screen is disconnected only where no result comes from it. -/
def keepsOrigins (s : Frontend) : Call → Prop
  | .disconnectAccount account =>
    s.core.active = some account ∨ ∀ o ∈ s.core.searchOrigins, o.1 ≠ account
  | _ => True

/-- A call that leaves the search and the sessions. -/
theorem Attributed.of_same {s s' : Frontend} (h : Attributed s)
    (hresults : s'.core.searchResults = s.core.searchResults)
    (horigins : s'.core.searchOrigins = s.core.searchOrigins) (hfound : s'.found = s.found)
    (hview : ∀ o ∈ s.core.searchOrigins, (s.core.view o.1).isSome = true →
      (s'.core.view o.1).isSome = true) : Attributed s' := by
  refine ⟨fun hnone => ?_, fun results hr => ?_, fun o ho => ?_⟩
  · rw [horigins]
    exact h.closed (hresults.symm.trans hnone)
  · rw [hresults] at hr
    rw [horigins, hfound]
    exact h.paired results hr
  · rw [horigins] at ho
    exact hview o ho (h.live o ho)

/-- There is no search any more. -/
theorem Attributed.of_none {s : Frontend} (hresults : s.core.searchResults = none)
    (horigins : s.core.searchOrigins = []) : Attributed s := by
  refine ⟨fun _ => horigins, fun results hr => ?_, fun o ho => ?_⟩
  · rw [hresults] at hr
    cases hr
  · rw [horigins] at ho
    cases ho

theorem zip_sameMail (results : List MailHeader) (origins : List (AccountId × String)) :
    (results.zip origins).map sameMail = (results.map unflagged).zip origins := by
  rw [← List.map_id origins, List.zip_map, List.map_id]
  rfl

theorem unflagged_flagResults (origins : List (AccountId × String)) (account : AccountId)
    (mailbox : String) (uid : Nat) (flags : List String) (results : List MailHeader) :
    (AppCore.flagResults origins account mailbox uid flags results).map unflagged =
      results.map unflagged := by
  refine List.ext_getElem? fun i => ?_
  simp only [AppCore.flagResults, List.getElem?_map, List.getElem?_mapIdx, Option.map_map]
  refine Option.map_congr fun h _ => ?_
  simp only [Function.comp_apply]
  split <;> rfl

/-- Storing flags changes no more of a result than its flags. -/
theorem Attributed.flag {s s' : Frontend} (h : Attributed s) (account : AccountId)
    (mailbox : String) (uid : Nat) (flags : List String)
    (hresults : s'.core.searchResults = s.core.searchResults.map
      (AppCore.flagResults s.core.searchOrigins account mailbox uid flags))
    (horigins : s'.core.searchOrigins = s.core.searchOrigins) (hfound : s'.found = s.found)
    (hview : ∀ a, (s'.core.view a).isSome = (s.core.view a).isSome) : Attributed s' := by
  refine ⟨fun hnone => ?_, fun results hr => ?_, fun o ho => ?_⟩
  · rw [hresults, Option.map_eq_none_iff] at hnone
    rw [horigins]
    exact h.closed hnone
  · rw [hresults] at hr
    obtain ⟨before, hbefore, rfl⟩ := Option.map_eq_some_iff.mp hr
    obtain ⟨hlength, kept, hsub, hsame⟩ := h.paired before hbefore
    rw [horigins, hfound]
    refine ⟨?_, kept, hsub, ?_⟩
    · rw [AppCore.flagResults, List.length_mapIdx]
      exact hlength
    · rw [zip_sameMail, unflagged_flagResults, ← zip_sameMail]
      exact hsame
  · rw [horigins] at ho
    exact (hview o.1).trans (h.live o ho)

/-- Whether a result is another message than the one that has moved. -/
def isOther (account : AccountId) (mailbox : String) (uid : Nat) (f : Found) : Bool :=
  !(decide (f.1.uid = uid) && decide (f.2 = (account, mailbox)))

/-- A result that has moved is dropped together with its origin. -/
theorem Attributed.drop {s s' : Frontend} (h : Attributed s) (account : AccountId)
    (mailbox : String) (uid : Nat)
    (hdesk : s'.core.desk.searchResults =
      (s.core.desk.dropResult account mailbox uid).searchResults ∧
      s'.core.desk.searchOrigins = (s.core.desk.dropResult account mailbox uid).searchOrigins)
    (hfound : s'.found = s.found)
    (hview : ∀ a, (s'.core.view a).isSome = (s.core.view a).isSome) : Attributed s' := by
  obtain ⟨hresults, horigins⟩ := hdesk
  unfold Desk.dropResult at hresults horigins
  rcases hsearch : s.core.searchResults with _ | results
  · simp only [AppCore.desk, hsearch] at hresults horigins
    exact h.of_same (hresults.trans hsearch.symm) horigins hfound fun o _ ho => (hview o.1).trans ho
  · obtain ⟨hlength, kept, hsub, hsame⟩ := h.paired results hsearch
    simp only [AppCore.desk, hsearch] at hresults horigins
    set left := (results.zip s.core.searchOrigins).filter (isOther account mailbox uid) with hleft
    change s'.core.searchResults = some (left.map Prod.fst) at hresults
    change s'.core.searchOrigins = left.map Prod.snd at horigins
    refine ⟨fun hnone => ?_, fun results' hr => ?_, fun o ho => ?_⟩
    · rw [hresults] at hnone
      cases hnone
    · rw [hresults] at hr
      obtain rfl := Option.some.inj hr
      rw [horigins, hfound]
      refine ⟨by rw [List.length_map, List.length_map],
        kept.filter (isOther account mailbox uid), List.filter_sublist.trans hsub, ?_⟩
      -- Whether a result is dropped does not depend on its flags.
      have hfactor : isOther account mailbox uid = isOther account mailbox uid ∘ sameMail := rfl
      have hzip : left = (left.map Prod.fst).zip (left.map Prod.snd) := List.zip_of_prod rfl rfl
      rw [← hzip, hleft, hfactor, ← List.filter_map, ← List.filter_map, hsame]
    · rw [horigins] at ho
      obtain ⟨f, hf, rfl⟩ := List.mem_map.mp ho
      have hbefore : f.2 ∈ s.core.searchOrigins :=
        (List.of_mem_zip (List.mem_of_mem_filter hf)).2
      exact (hview f.2.1).trans (h.live f.2 hbefore)

/-- The search of the desk. -/
theorem search_clear (d : Desk) (kind : ProgressKind) :
    (d.clear kind).searchResults = d.searchResults ∧
      (d.clear kind).searchOrigins = d.searchOrigins := by
  unfold Desk.clear
  split <;> exact ⟨rfl, rfl⟩

theorem search_advance (d : Desk) (kind : ProgressKind) (uid : Nat) :
    (d.advance kind uid).searchResults = d.searchResults ∧
      (d.advance kind uid).searchOrigins = d.searchOrigins := by
  unfold Desk.advance
  split
  · exact ⟨rfl, rfl⟩
  · split
    · exact ⟨rfl, rfl⟩
    · split
      · exact search_clear { d with bulkAction := none } kind
      · exact ⟨rfl, rfl⟩

theorem search_report (d : Desk) (active : Option AccountId) (account : AccountId)
    (kind : ProgressKind) (update : Progress) :
    (d.report active account kind update).searchResults = d.searchResults ∧
      (d.report active account kind update).searchOrigins = d.searchOrigins := by
  unfold Desk.report
  split
  · split
    · exact search_clear d .index
    · exact ⟨rfl, rfl⟩
  · exact ⟨rfl, rfl⟩

theorem search_dropResult {d d' : Desk} (hresults : d'.searchResults = d.searchResults)
    (horigins : d'.searchOrigins = d.searchOrigins) (account : AccountId) (mailbox : String)
    (uid : Nat) :
    (d'.dropResult account mailbox uid).searchResults =
        (d.dropResult account mailbox uid).searchResults ∧
      (d'.dropResult account mailbox uid).searchOrigins =
        (d.dropResult account mailbox uid).searchOrigins := by
  unfold Desk.dropResult
  rw [hresults, horigins]
  split
  · exact ⟨rfl, rfl⟩
  · exact ⟨hresults, horigins⟩

theorem Attributed.hear {out : Outside} {s : Frontend} (number : Nat) (account : AccountId)
    (evt : ImapEvent) (h : Attributed s) : Attributed (s.hear out number account evt) := by
  have hview := fun a => isSome_view_handle out s.core account evt a
  have hdesk := AppCore.desk_handleImapEvent out s.core account evt
  have hsame : ∀ d : Desk, d.searchResults = s.core.searchResults →
      d.searchOrigins = s.core.searchOrigins →
      (s.core.handleImapEvent out account evt).desk = d →
      Attributed (s.hear out number account evt) := fun d hr ho hd =>
    h.of_same ((congrArg Desk.searchResults hd).trans hr)
      ((congrArg Desk.searchOrigins hd).trans ho) rfl fun o _ hlive => (hview o.1).trans hlive
  split at hdesk
  · exact hsame _ rfl rfl hdesk
  · cases evt with
    | connected =>
      simp only [Desk.handle] at hdesk
      split at hdesk
      · exact Attributed.of_none (congrArg Desk.searchResults hdesk)
          (congrArg Desk.searchOrigins hdesk)
      · exact hsame _ rfl rfl hdesk
    | error error => exact hsame _ (search_clear _ _).1 (search_clear _ _).2 hdesk
    | progress kind update =>
      exact hsame _ (search_report _ _ _ _ _).1 (search_report _ _ _ _ _).2 hdesk
    | exported path => exact hsame _ (search_clear _ _).1 (search_clear _ _).2 hdesk
    | exportFailed error => exact hsame _ (search_clear _ _).1 (search_clear _ _).2 hdesk
    | appended mailbox => exact hsame _ (search_clear _ _).1 (search_clear _ _).2 hdesk
    | appendFailed mailbox error => exact hsame _ (search_clear _ _).1 (search_clear _ _).2 hdesk
    | flagsUpdated mailbox uid flags reqId =>
      obtain ⟨hresults, horigins⟩ := search_advance s.core.desk .flags uid
      refine h.flag account mailbox uid flags ?_ ?_ rfl hview
      · refine (congrArg Desk.searchResults hdesk).trans ?_
        simp only [Desk.handle, hresults, horigins]
        rfl
      · exact (congrArg Desk.searchOrigins hdesk).trans horigins
    | flagsUpdateFailed mailbox uid error reqId =>
      exact hsame _ (search_advance _ _ _).1 (search_advance _ _ _).2 hdesk
    | moved mailbox uid dest reqId =>
      obtain ⟨hresults, horigins⟩ := search_advance s.core.desk .move uid
      obtain ⟨hr, ho⟩ := search_dropResult hresults horigins account mailbox uid
      exact h.drop account mailbox uid ⟨(congrArg Desk.searchResults hdesk).trans hr,
        (congrArg Desk.searchOrigins hdesk).trans ho⟩ rfl hview
    | moveFailed mailbox uid error reqId =>
      exact hsame _ (search_advance _ _ _).1 (search_advance _ _ _).2 hdesk
    | _ => exact hsame _ rfl rfl hdesk

theorem Attributed.disconnectAccount {s : Frontend} {account : AccountId} (h : Attributed s)
    (hok : keepsOrigins s (.disconnectAccount account)) :
    Attributed { s with
      core := s.core.disconnectAccount account
      downloading := s.withoutAccount account } := by
  have hdesk := AppCore.desk_disconnectAccount s.core account
  by_cases hactive : s.core.active = some account
  · rw [if_pos hactive] at hdesk
    exact Attributed.of_none (congrArg Desk.searchResults hdesk)
      (congrArg Desk.searchOrigins hdesk)
  · rw [if_neg hactive] at hdesk
    have hnamed := hok.resolve_left hactive
    refine h.of_same (congrArg Desk.searchResults hdesk) (congrArg Desk.searchOrigins hdesk) rfl ?_
    intro o ho hlive
    exact (isSome_view_disconnect (hnamed o ho)).trans hlive

theorem Attributed.search {s : Frontend} {results : List MailHeader}
    {origins : List (AccountId × String)} (hlength : results.length = origins.length)
    (hlive : ∀ o ∈ origins, (s.core.view o.1).isSome = true) :
    Attributed { s with
      core := { s.core with searchResults := some results, searchOrigins := origins }
      found := results.zip origins } := by
  refine ⟨fun hnone => ?_, fun results' hr => ?_, hlive⟩
  · cases hnone
  · obtain rfl := Option.some.inj hr
    exact ⟨hlength, _, List.Sublist.refl _, rfl⟩

theorem Attributed.step {out : Outside} {s s' : Frontend} {c : Call} (h : Attributed s)
    (hok : keepsOrigins s c) (hst : s.step out c = some s') : Attributed s' := by
  cases c with
  | activate account mailbox =>
    obtain rfl := Option.some.inj hst
    have hdesk := AppCore.desk_activate s.core account mailbox
    by_cases hactive : s.core.active = some account
    · rw [if_pos hactive] at hdesk
      exact h.of_same (congrArg Desk.searchResults hdesk) (congrArg Desk.searchOrigins hdesk) rfl
        fun o _ hlive => (isSome_view_activate s.core account mailbox o.1).trans hlive
    · rw [if_neg hactive] at hdesk
      exact Attributed.of_none (congrArg Desk.searchResults hdesk)
        (congrArg Desk.searchOrigins hdesk)
  | openSession config auth p =>
    obtain rfl := Option.some.inj hst
    exact h.of_same rfl rfl rfl fun o _ hlive => isSome_view_openSession hlive
  | disconnectAccount account =>
    obtain rfl := Option.some.inj hst
    exact h.disconnectAccount hok
  | beginBulkAction kind targets =>
    simp only [Frontend.step] at hst
    split at hst
    · cases hst
    · split at hst
      · obtain rfl := Option.some.inj hst
        have hdesk := desk_beginBulkAction s.core kind targets
        refine h.of_same ?_ ?_ rfl fun o _ hlive => ?_
        · refine (congrArg Desk.searchResults hdesk).trans ?_
          split <;> rfl
        · refine (congrArg Desk.searchOrigins hdesk).trans ?_
          split <;> rfl
        · rw [view_beginBulkAction]
          exact hlive
      · cases hst
  | search results origins =>
    simp only [Frontend.step] at hst
    split at hst
    · next hguard =>
      obtain rfl := Option.some.inj hst
      exact Attributed.search hguard.1 hguard.2
    · cases hst
  | closeSearch =>
    obtain rfl := Option.some.inj hst
    exact Attributed.of_none rfl rfl
  | select uid uids =>
    obtain rfl := Option.some.inj hst
    exact h.of_same rfl rfl rfl fun _ _ hlive => hlive
  | event number evt =>
    obtain ⟨account, -, rfl⟩ := Option.map_eq_some_iff.mp hst
    exact h.hear number account evt
  | takeChanges =>
    obtain rfl := Option.some.inj hst
    exact h.of_same rfl rfl rfl fun _ _ hlive => hlive

/-- In a run that disconnects an account off screen only where no result comes from it, results and
origins are empty together, stand in step with what the last search found, and name only accounts
that have a session. -/
theorem results_attributed {out : Outside} {s : Frontend} (h : (machine out).Reach keepsOrigins s) :
    (s.core.searchResults = none → s.core.searchOrigins = []) ∧
      (∀ results ∈ s.core.searchResults, results.length = s.core.searchOrigins.length ∧
        ∃ kept, List.Sublist kept s.found ∧
          (results.zip s.core.searchOrigins).map sameMail = kept.map sameMail) ∧
      ∀ o ∈ s.core.searchOrigins, (s.core.view o.1).isSome = true := by
  have hattributed : Attributed s := by
    refine h.invariant (P := Attributed) ?_ fun s c s' _ ha hok hst => ha.step hok hst
    intro s hfresh
    rw [hfresh]
    exact Attributed.of_none rfl rfl
  exact ⟨hattributed.closed, hattributed.paired, hattributed.live⟩

instance (s : Frontend) : (c : Call) → Decidable (keepsOrigins s c)
  | .disconnectAccount account => inferInstanceAs (Decidable
      (s.core.active = some account ∨ ∀ o ∈ s.core.searchOrigins, o.1 ≠ account))
  | .activate .. | .openSession .. | .beginBulkAction .. | .search .. | .closeSearch | .select .. |
    .event .. | .takeChanges => isTrue trivial

/-- Such a run: a search of two accounts finds message 5 in both; the first one's is archived and the
other one's marked. -/
theorem results_attributed_of_move : ∃ s : Frontend,
    s.core.searchResults = some [{ System.greeting 5 with flags := ["\\Seen"] }] ∧
      s.core.searchOrigins = [("other", "Work")] ∧
      s.found = [(System.greeting 5, "me", "INBOX"), (System.greeting 5, "other", "Work")] ∧
      (∀ results ∈ s.core.searchResults, results.length = s.core.searchOrigins.length ∧
        ∃ kept, List.Sublist kept s.found ∧
          (results.zip s.core.searchOrigins).map sameMail = kept.map sameMail) := by
  obtain ⟨s, hr, hp⟩ := Machine.exists_reach_of_trace (machine System.plainOutside) keepsOrigins
    [.openSession System.me (.password "p") none, .openSession System.other (.password "q") none,
      .event 0 .connected,
      .search [System.greeting 5, System.greeting 5] [("me", "INBOX"), ("other", "Work")],
      .event 0 (.moved "INBOX" 5 "Archive" 1), .event 1 (.flagsUpdated "Work" 5 ["\\Seen"] 2)]
    (fun s => decide (
      s.core.searchResults = some [{ System.greeting 5 with flags := ["\\Seen"] }] ∧
      s.core.searchOrigins = [("other", "Work")] ∧
      s.found = [(System.greeting 5, "me", "INBOX"), (System.greeting 5, "other", "Work")]))
    (rfl : Fresh fresh) (by decide)
  obtain ⟨hresults, horigins, hfound⟩ := of_decide_eq_true hp
  exact ⟨s, hresults, horigins, hfound, (results_attributed hr).2.1⟩

/-- A search of two accounts has found a message of each; that the one off screen is disconnected leaves
its message among the results. -/
theorem result_of_a_disconnected_account : ¬ ∀ s : Frontend,
    (machine System.plainOutside).Reach Machine.any s →
      (s.core.searchResults = none → s.core.searchOrigins = []) ∧
      (∀ results ∈ s.core.searchResults, results.length = s.core.searchOrigins.length ∧
        ∃ kept, List.Sublist kept s.found ∧
          (results.zip s.core.searchOrigins).map sameMail = kept.map sameMail) ∧
      ∀ o ∈ s.core.searchOrigins, (s.core.view o.1).isSome = true := by
  intro hall
  obtain ⟨s, hr, hp⟩ := Machine.exists_reach_of_trace (machine System.plainOutside) Machine.any
    [.openSession System.me (.password "p") none, .openSession System.other (.password "q") none,
      .event 0 .connected,
      .search [System.greeting 5, System.greeting 6] [("me", "INBOX"), ("other", "Work")],
      .disconnectAccount "other"]
    (fun s => decide (s.core.searchOrigins = [("me", "INBOX"), ("other", "Work")] ∧
      (s.core.view "other").isSome = false))
    (rfl : Fresh fresh) (by decide)
  obtain ⟨horigins, hgone⟩ := of_decide_eq_true hp
  have hlive := (hall s hr).2.2 ("other", "Work") (by rw [horigins]; simp)
  rw [hgone] at hlive
  cases hlive

end Frontend

end Esmail.App
