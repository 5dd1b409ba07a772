/-
# The bulk action that is counted, and the index bar

A bulk action is advanced by every reply of its kind that names one of its messages, whatever the
account and the mailbox of the reply; and it is dropped with its account only where that account is on
screen.  The index bar is cleared by the last report of a download only where the account is on
screen when the report arrives, and is dropped with its account only there, too.

So neither is right in every run.  Two results say when they are:

* `bulk_action_tracks`: where the replies that name a pending message are the action's own (`repliesOwn`),
  the messages pending are those of the action that were not answered for, no more and no fewer;
* `index_bar_cleared`: where a download that is shown ends with its account on screen, or with an error
  (`endsOnScreen`), the bar is shown only for a download that goes on.

Both go by an invariant, `Tracks` and `Downloads`, which relates the slot of the core to what the frontend
keeps of the run beside it: the action that was begun last with the replies it has had, and the sessions
that are downloading.  What one event does to each slot is said once in section 1, and the steps use that.

The move that a reply brings with it (the list, the search results) is in `Screen.lean`.
-/
import Esmail.App.Frontend

namespace Esmail.App

open Transition

namespace Desk

/-! ## 1. The two slots after an event -/

@[simp] theorem bulkAction_clear (d : Desk) (kind : ProgressKind) :
    (d.clear kind).bulkAction = d.bulkAction := by
  unfold clear
  split <;> rfl

/-- What is left of an action after a reply. -/
theorem mem_advance {d : Desk} {kind : ProgressKind} {uid : Nat} {action : BulkAction}
    (h : action ∈ (d.advance kind uid).bulkAction) :
    ∃ before ∈ d.bulkAction, action.kind = before.kind ∧
      ((before.kind ≠ kind ∨ uid ∉ before.pending) ∧ action = before ∨
        before.kind = kind ∧ uid ∈ before.pending ∧
          action.pending = before.pending.erase uid) := by
  unfold advance at h
  rcases hbulk : d.bulkAction with _ | before
  · rw [hbulk] at h
    simp only [hbulk] at h
    cases h
  · simp only [hbulk] at h
    refine ⟨before, rfl, ?_⟩
    split at h
    · next hother =>
      rw [hbulk] at h
      obtain rfl := Option.some.inj h
      exact ⟨rfl, .inl ⟨hother, rfl⟩⟩
    · next hown =>
      obtain ⟨hkind, huid⟩ := not_or.mp hown
      split at h
      · rw [bulkAction_clear] at h
        cases h
      · obtain rfl := Option.some.inj h
        exact ⟨rfl, .inr ⟨not_not.mp hkind, not_not.mp huid, rfl⟩⟩

theorem bulkAction_dropResult (d : Desk) (account : AccountId) (mailbox : String) (uid : Nat) :
    (d.dropResult account mailbox uid).bulkAction = d.bulkAction := by
  unfold dropResult
  split <;> rfl

theorem bulkAction_report (d : Desk) (active : Option AccountId) (account : AccountId)
    (kind : ProgressKind) (update : Progress) :
    (d.report active account kind update).bulkAction = d.bulkAction := by
  unfold report
  split
  · split
    · exact bulkAction_clear d .index
    · rfl
  · rfl

/-- Only a reply to a store or a move advances the action. -/
theorem bulkAction_handle (d : Desk) (active : Option AccountId) (account : AccountId)
    (evt : ImapEvent) :
    (d.handle active account evt).bulkAction =
      match evt.answers with
      | some (kind, _, uid) => (d.advance kind uid).bulkAction
      | none => d.bulkAction := by
  cases evt with
  | connected =>
    simp only [handle, ImapEvent.answers]
    split <;> rfl
  | progress kind update => exact bulkAction_report d active account kind update
  | moved mailbox uid dest reqId => exact bulkAction_dropResult _ account mailbox uid
  | error error => exact bulkAction_clear d .index
  | exported path => exact bulkAction_clear d .export
  | exportFailed error => exact bulkAction_clear d .export
  | appended mailbox => exact bulkAction_clear d .append
  | appendFailed mailbox error => exact bulkAction_clear d .append
  | _ => rfl

theorem mem_progress_clear {d : Desk} {kind : ProgressKind} {v : ProgressView}
    (h : v ∈ (d.clear kind).progress) : v ∈ d.progress ∧ v.kind ≠ kind := by
  unfold clear at h
  split at h
  · cases h
  · next hother =>
    refine ⟨h, fun hkind => hother ?_⟩
    exact (Option.any_eq_true _ _).mpr ⟨v, h, decide_eq_true hkind⟩

theorem mem_progress_advance {d : Desk} {kind : ProgressKind} {uid : Nat} {v : ProgressView}
    (h : v ∈ (d.advance kind uid).progress) : v ∈ d.progress ∨ v.kind = kind := by
  unfold advance at h
  split at h
  · exact .inl h
  · split at h
    · exact .inl h
    · split at h
      · exact .inl (mem_progress_clear h).1
      · obtain rfl := Option.some.inj h
        exact .inr rfl

/-- Where the index bar is shown after an event: a report has set it, or it was shown before and the
event does not end a download on screen. -/
theorem index_of_handle {d : Desk} {active : Option AccountId} {account : AccountId}
    {evt : ImapEvent} {v : ProgressView} (h : v ∈ (d.handle active account evt).progress)
    (hindex : v.kind = .index) :
    (∃ update, evt = .progress .index update ∧ finished update = false ∧ active = some account) ∨
      v ∈ d.progress ∧ (∀ error, evt ≠ .error error) ∧
        ∀ update, evt = .progress .index update → active ≠ some account := by
  -- An event of another kind leaves the bar, or shows something else in its place.
  have hkept : v ∈ d.progress → (∀ error, evt ≠ .error error) →
      (∀ update, evt ≠ .progress .index update) →
      (∃ update, evt = .progress .index update ∧ finished update = false ∧ active = some account) ∨
        v ∈ d.progress ∧ (∀ error, evt ≠ .error error) ∧
          ∀ update, evt = .progress .index update → active ≠ some account :=
    fun hv herror hprogress => .inr ⟨hv, herror, fun update he => absurd he (hprogress update)⟩
  have hadvanced : ∀ kind uid, v ∈ (d.advance kind uid).progress → kind ≠ .index →
      v ∈ d.progress := fun _ _ hv hkind =>
    (mem_progress_advance hv).resolve_right fun hk => hkind (hk.symm.trans hindex)
  cases evt with
  | connected =>
    refine hkept ?_ (by simp) (by simp)
    simp only [handle] at h
    split at h <;> exact h
  | error error => exact absurd hindex (mem_progress_clear h).2
  | progress kind update =>
    simp only [handle, report] at h
    by_cases hkind : kind = .index
    · subst hkind
      by_cases hactive : active = some account
      · rw [if_pos (.inr hactive)] at h
        cases hfinished : finished update with
        | true =>
          rw [if_pos ⟨rfl, hfinished⟩] at h
          exact absurd hindex (mem_progress_clear h).2
        | false => exact .inl ⟨update, rfl, hfinished, hactive⟩
      · rw [if_neg (by simp [hactive])] at h
        exact .inr ⟨h, by simp, fun _ _ => hactive⟩
    · rw [if_pos (.inl hkind), if_neg (by simp [hkind])] at h
      obtain rfl := Option.some.inj h
      exact absurd hindex hkind
  | exported path => exact hkept (mem_progress_clear h).1 (by simp) (by simp)
  | exportFailed error => exact hkept (mem_progress_clear h).1 (by simp) (by simp)
  | appended mailbox => exact hkept (mem_progress_clear h).1 (by simp) (by simp)
  | appendFailed mailbox error => exact hkept (mem_progress_clear h).1 (by simp) (by simp)
  | flagsUpdated mailbox uid flags reqId =>
    exact hkept (hadvanced _ uid h (by simp)) (by simp) (by simp)
  | flagsUpdateFailed mailbox uid error reqId =>
    exact hkept (hadvanced _ uid h (by simp)) (by simp) (by simp)
  | moved mailbox uid dest reqId =>
    refine hkept (hadvanced .move uid ?_ (by simp)) (by simp) (by simp)
    simp only [handle, dropResult] at h
    split at h <;> exact h
  | moveFailed mailbox uid error reqId =>
    exact hkept (hadvanced _ uid h (by simp)) (by simp) (by simp)
  | _ => exact hkept h (by simp) (by simp)

end Desk

/-! ## 2. The bulk action -/

namespace Frontend

/-- The action that is shown is the one begun last, its account has a session, and what is pending of it
are the messages that have not been answered for. -/
def Tracks (s : Frontend) : Prop :=
  ∀ action ∈ s.core.bulkAction, ∃ t ∈ s.tracked, action.kind = t.kind ∧
    action.pending = t.targets.toFinset \ t.answered ∧ (s.core.view t.account).isSome = true

/-- A reply of the action's kind that names a pending message is of the action's account and mailbox;
and the action's account is disconnected only while it is on screen. -/
def repliesOwn (s : Frontend) : Call → Prop
  | .event number evt =>
    ∀ account ∈ s.opened[number]?, ∀ action ∈ s.core.bulkAction, ∀ t ∈ s.tracked,
      ∀ r ∈ evt.answers, (s.core.view account).isSome = true → r.1 = action.kind →
        r.2.2 ∈ action.pending → account = t.account ∧ r.2.1 = t.mailbox
  | .disconnectAccount account =>
    s.core.bulkAction.isSome = true → ∀ t ∈ s.tracked, t.account = account →
      s.core.active = some account
  | _ => True

/-- A call that leaves the action and the sessions. -/
theorem Tracks.of_same {s s' : Frontend} (h : Tracks s)
    (hbulk : s'.core.bulkAction = s.core.bulkAction) (htracked : s'.tracked = s.tracked)
    (hview : ∀ account, (s.core.view account).isSome = true →
      (s'.core.view account).isSome = true) : Tracks s' := by
  intro action haction
  rw [hbulk] at haction
  obtain ⟨t, ht, hkind, hpending, hlive⟩ := h action haction
  exact ⟨t, htracked ▸ ht, hkind, hpending, hview t.account hlive⟩

theorem hear_fields (t : Tracked) (account : AccountId) (evt : ImapEvent) :
    (t.hear account evt).account = t.account ∧ (t.hear account evt).kind = t.kind ∧
      (t.hear account evt).targets = t.targets := by
  unfold Tracked.hear
  split
  · split <;> exact ⟨rfl, rfl, rfl⟩
  · exact ⟨rfl, rfl, rfl⟩

theorem Tracks.hear {out : Outside} {s : Frontend} {number : Nat} {account : AccountId}
    {evt : ImapEvent} (h : Tracks s) (haccount : s.opened[number]? = some account)
    (hok : repliesOwn s (.event number evt)) : Tracks (s.hear out number account evt) := by
  intro action' haction'
  have hview := fun a => isSome_view_handle out s.core account evt a
  have hbulk : (s.core.handleImapEvent out account evt).bulkAction = _ :=
    congrArg Desk.bulkAction (AppCore.desk_handleImapEvent out s.core account evt)
  rw [show (s.hear out number account evt).core = s.core.handleImapEvent out account evt from rfl,
    hbulk] at haction'
  split at haction'
  · -- The account has no session, and so is not the action's.
    next hgone =>
    obtain ⟨t, ht, hkind, hpending, hlive⟩ := h action' haction'
    have hother : account ≠ t.account := by
      rintro rfl
      rw [Option.isNone_iff_eq_none.mp hgone] at hlive
      cases hlive
    refine ⟨t, ?_, hkind, hpending, (hview t.account).trans hlive⟩
    have hsame : t.hear account evt = t := by
      unfold Tracked.hear
      split
      · rw [if_neg fun hc => hother hc.2.1]
      · rfl
    exact Option.map_eq_some_iff.mpr ⟨t, ht, hsame⟩
  · next hthere =>
    have hthere : (s.core.view account).isSome = true :=
      Option.isSome_iff_ne_none.mpr (by simpa using hthere)
    rw [Desk.bulkAction_handle] at haction'
    rcases hanswers : evt.answers with _ | ⟨kind, mailbox, uid⟩
    · rw [hanswers] at haction'
      obtain ⟨t, ht, hkind, hpending, hlive⟩ := h action' haction'
      refine ⟨t, ?_, hkind, hpending, (hview t.account).trans hlive⟩
      refine Option.map_eq_some_iff.mpr ⟨t, ht, ?_⟩
      rw [Tracked.hear, hanswers]
    · rw [hanswers] at haction'
      obtain ⟨action, haction, hkind', hafter⟩ := Desk.mem_advance haction'
      obtain ⟨t, ht, hkind, hpending, hlive⟩ := h action haction
      obtain ⟨hsameAccount, hsameKind, hsameTargets⟩ := hear_fields t account evt
      refine ⟨t.hear account evt, Option.map_eq_some_iff.mpr ⟨t, ht, rfl⟩,
        hkind'.trans (hkind.trans hsameKind.symm), ?_,
        by rw [hsameAccount]; exact (hview t.account).trans hlive⟩
      rw [hsameTargets]
      by_cases hown : kind = t.kind ∧ account = t.account ∧ mailbox = t.mailbox
      · -- Whether the message was pending or not, it is not any more.
        have hanswered : (t.hear account evt).answered = insert uid t.answered := by
          simp only [Tracked.hear, hanswers]
          rw [if_pos hown]
        rw [hanswered, Finset.sdiff_insert, ← hpending]
        rcases hafter with ⟨hmissed, rfl⟩ | ⟨-, -, herased⟩
        · refine (Finset.erase_eq_of_notMem (hmissed.resolve_left ?_)).symm
          exact not_not.mpr (hkind.trans hown.1.symm)
        · exact herased
      · have hanswered : (t.hear account evt).answered = t.answered := by
          simp only [Tracked.hear, hanswers]
          rw [if_neg hown]
        rw [hanswered, ← hpending]
        rcases hafter with ⟨-, rfl⟩ | ⟨hsame, huid, -⟩
        · rfl
        · obtain ⟨haccount', hmailbox⟩ :=
            hok account haccount action haction t ht _ hanswers hthere hsame.symm huid
          exact absurd ⟨hsame.symm.trans hkind, haccount', hmailbox⟩ hown

theorem Tracks.begin {s : Frontend} {account : AccountId} (h : Tracks s) (kind : ProgressKind)
    (targets : List Nat) (hlive : (s.core.view account).isSome = true) :
    Tracks { s with
      core := s.core.beginBulkAction kind targets
      tracked :=
        if targets.length < 2 then s.tracked
        else some ⟨account, s.core.selectedMailbox, kind, targets, ∅⟩ } := by
  have hbulk := congrArg Desk.bulkAction (desk_beginBulkAction s.core kind targets)
  by_cases hfew : targets.length < 2
  · rw [if_pos hfew] at hbulk
    refine h.of_same hbulk (if_pos hfew) fun a ha => ?_
    rw [view_beginBulkAction]
    exact ha
  · rw [if_neg hfew] at hbulk
    intro action haction
    have hbegun : some action = some ⟨kind, targets.length, targets.toFinset⟩ :=
      haction.symm.trans hbulk
    obtain rfl := Option.some.inj hbegun
    refine ⟨_, if_neg hfew, rfl, Finset.sdiff_empty.symm, ?_⟩
    rw [view_beginBulkAction]
    exact hlive

theorem Tracks.step {out : Outside} {s s' : Frontend} {c : Call} (h : Tracks s)
    (hok : repliesOwn s c) (hst : s.step out c = some s') : Tracks s' := by
  cases c with
  | activate account mailbox =>
    obtain rfl := Option.some.inj hst
    refine h.of_same ?_ rfl fun a ha => (isSome_view_activate s.core account mailbox a).trans ha
    refine (congrArg Desk.bulkAction (AppCore.desk_activate s.core account mailbox)).trans ?_
    split <;> rfl
  | openSession config auth p =>
    obtain rfl := Option.some.inj hst
    exact h.of_same rfl rfl fun a ha => isSome_view_openSession ha
  | disconnectAccount account =>
    obtain rfl := Option.some.inj hst
    have hbulk := congrArg Desk.bulkAction (AppCore.desk_disconnectAccount s.core account)
    by_cases hactive : s.core.active = some account
    · -- The account was on screen: the action is dropped.
      rw [if_pos hactive] at hbulk
      intro action haction
      have hnone := haction.symm.trans hbulk
      simp [Desk.noSearch] at hnone
    · rw [if_neg hactive] at hbulk
      intro action haction
      have hbefore : s.core.bulkAction = some action := hbulk.symm.trans haction
      obtain ⟨t, ht, hkind, hpending, hlive⟩ := h action hbefore
      refine ⟨t, ht, hkind, hpending, ?_⟩
      rw [isSome_view_disconnect fun he => hactive (hok (by rw [hbefore]; rfl) t ht he)]
      exact hlive
  | beginBulkAction kind targets =>
    simp only [Frontend.step] at hst
    split at hst
    · cases hst
    · next account _ =>
      split at hst
      · next hguard =>
        obtain rfl := Option.some.inj hst
        exact h.begin kind targets hguard.1
      · cases hst
  | search results origins =>
    simp only [Frontend.step] at hst
    split at hst
    · obtain rfl := Option.some.inj hst
      exact h.of_same rfl rfl fun _ ha => ha
    · cases hst
  | closeSearch =>
    obtain rfl := Option.some.inj hst
    exact h.of_same rfl rfl fun _ ha => ha
  | select uid uids =>
    obtain rfl := Option.some.inj hst
    exact h.of_same rfl rfl fun _ ha => ha
  | event number evt =>
    obtain ⟨account, haccount, rfl⟩ := Option.map_eq_some_iff.mp hst
    exact h.hear haccount hok
  | takeChanges =>
    obtain rfl := Option.some.inj hst
    exact h.of_same rfl rfl fun _ ha => ha

/-- In a run in which the replies that name a pending message are the action's own, and its account is
disconnected only while it is on screen, the action that is shown has just those messages pending for
which no reply of its kind, account and mailbox has been pumped since it was begun, and its account has
a session. -/
theorem bulk_action_tracks {out : Outside} {s : Frontend} (h : (machine out).Reach repliesOwn s) :
    ∀ action ∈ s.core.bulkAction, ∃ t ∈ s.tracked, action.kind = t.kind ∧
      action.pending = t.targets.toFinset \ t.answered ∧ (s.core.view t.account).isSome = true := by
  refine h.invariant (P := Tracks) ?_ fun s c s' _ htracks hok hst => htracks.step hok hst
  intro s hfresh action haction
  rw [hfresh] at haction
  cases haction

instance (s : Frontend) : (c : Call) → Decidable (repliesOwn s c)
  | .event number evt => inferInstanceAs (Decidable
      (∀ account ∈ s.opened[number]?, ∀ action ∈ s.core.bulkAction, ∀ t ∈ s.tracked,
        ∀ r ∈ evt.answers, (s.core.view account).isSome = true → r.1 = action.kind →
          r.2.2 ∈ action.pending → account = t.account ∧ r.2.1 = t.mailbox))
  | .disconnectAccount account => inferInstanceAs (Decidable
      (s.core.bulkAction.isSome = true → ∀ t ∈ s.tracked, t.account = account →
        s.core.active = some account))
  | .activate .. | .openSession .. | .beginBulkAction .. | .search .. | .closeSearch | .select .. |
    .takeChanges => isTrue trivial

/-- Such a run: two messages are marked, another account is brought on screen, and one of the two is
answered for. -/
theorem bulk_action_tracks_of_switch : ∃ s : Frontend,
    s.core.bulkAction = some ⟨.flags, 2, {2}⟩ ∧ s.core.active = some "other" ∧
      ∀ action ∈ s.core.bulkAction, ∃ t ∈ s.tracked, action.kind = t.kind ∧
        action.pending = t.targets.toFinset \ t.answered ∧
        (s.core.view t.account).isSome = true := by
  obtain ⟨s, hr, hp⟩ := Machine.exists_reach_of_trace (machine System.plainOutside) repliesOwn
    [.openSession System.me (.password "p") none, .openSession System.other (.password "q") none,
      .event 0 .connected, .beginBulkAction .flags [1, 2], .activate "other" "INBOX",
      .event 1 (.flagsUpdated "INBOX" 7 [] 9), .event 0 (.flagsUpdated "INBOX" 1 ["\\Seen"] 8)]
    (fun s => decide (s.core.bulkAction = some ⟨.flags, 2, {2}⟩ ∧ s.core.active = some "other"))
    (rfl : Fresh fresh) (by decide)
  obtain ⟨hbulk, hactive⟩ := of_decide_eq_true hp
  exact ⟨s, hbulk, hactive, bulk_action_tracks hr⟩

/-- The messages 1 and 2 of the first account are marked.  A reply of the other account about its own
message 1 is counted for them. -/
theorem advanced_by_another_account : ¬ ∀ s : Frontend,
    (machine System.plainOutside).Reach Machine.any s →
      ∀ action ∈ s.core.bulkAction, ∃ t ∈ s.tracked, action.kind = t.kind ∧
        action.pending = t.targets.toFinset \ t.answered ∧
        (s.core.view t.account).isSome = true := by
  intro hall
  obtain ⟨s, hr, hp⟩ := Machine.exists_reach_of_trace (machine System.plainOutside) Machine.any
    [.openSession System.me (.password "p") none, .openSession System.other (.password "q") none,
      .event 0 .connected, .beginBulkAction .flags [1, 2], .event 1 (.flagsUpdated "INBOX" 1 [] 9)]
    (fun s => decide (s.core.bulkAction = some ⟨.flags, 2, {2}⟩ ∧
      s.tracked = some ⟨"me", "INBOX", .flags, [1, 2], ∅⟩))
    (rfl : Fresh fresh) (by decide)
  obtain ⟨hbulk, htracked⟩ := of_decide_eq_true hp
  obtain ⟨t, ht, -, hpending, -⟩ := hall s hr _ hbulk
  rw [htracked] at ht
  obtain rfl := Option.some.inj ht
  exact absurd hpending (by decide)

/-! ## 3. The index bar -/

/-- The index bar is shown only for a session that is downloading, and a session that is downloading is
the one its account has. -/
structure Downloads (s : Frontend) : Prop where
  shown : ∀ v ∈ s.core.progress, v.kind = .index → ∃ n ∈ s.shownBy, n ∈ s.downloading
  live : ∀ n ∈ s.downloading, ∃ account ∈ s.opened[n]?, System.number s.core account = some n

/-- Whether the index bar is shown for this session. -/
def barOf (s : Frontend) (number : Nat) : Prop :=
  (∃ v ∈ s.core.progress, v.kind = .index) ∧ s.shownBy = some number

/-- The last report of the download that is shown comes while its account is on screen, a report that
sets the bar is of a session that is not gone, and the account of the download that is shown is
disconnected only while it is on screen, and not opened again. -/
def endsOnScreen (s : Frontend) : Call → Prop
  | .event number (.progress .index update) =>
    ∀ account ∈ s.opened[number]?,
      if Desk.finished update = true then s.barOf number → s.core.active = some account
      else s.setsBar account (.progress .index update) = true → s.live number account = true
  | .disconnectAccount account =>
    ∀ number ∈ s.shownBy, s.barOf number → s.opened[number]? = some account →
      s.core.active = some account
  | .openSession config _ _ =>
    ∀ number ∈ s.shownBy, s.barOf number → s.opened[number]? ≠ some config.id
  | _ => True

/-- A call that leaves the bar and the sessions. -/
theorem Downloads.of_same {s s' : Frontend} (h : Downloads s)
    (hprogress : ∀ v ∈ s'.core.progress, v.kind = .index → v ∈ s.core.progress)
    (hopened : s'.opened = s.opened) (hshown : s'.shownBy = s.shownBy)
    (hdownloading : s'.downloading = s.downloading)
    (hnumber : ∀ account, System.number s'.core account = System.number s.core account) :
    Downloads s' := by
  refine ⟨fun v hv hindex => ?_, fun n hn => ?_⟩
  · rw [hshown, hdownloading]
    exact h.shown v (hprogress v hv hindex) hindex
  · rw [hdownloading] at hn
    obtain ⟨account, haccount, hlive⟩ := h.live n hn
    exact ⟨account, hopened ▸ haccount, (hnumber account).trans hlive⟩

theorem mem_downloadingAfter {s : Frontend} {number n : Nat} {account : AccountId}
    {evt : ImapEvent} (h : n ∈ s.downloadingAfter number account evt) :
    n ∈ s.downloading ∨ n = number ∧ s.live number account = true := by
  unfold downloadingAfter at h
  split at h
  · split at h
    · exact .inl (Finset.mem_of_mem_erase h)
    · split at h
      · next hlive => exact (Finset.mem_insert.mp h).symm.imp_right fun he => ⟨he, hlive⟩
      · exact .inl h
  · exact .inl (Finset.mem_of_mem_erase h)
  · exact .inl h

/-- A download goes on after an event that is not its last report and no error. -/
theorem mem_downloadingAfter_of_mem {s : Frontend} {number n : Nat} {account : AccountId}
    {evt : ImapEvent} (h : n ∈ s.downloading) (herror : ∀ error, evt ≠ .error error)
    (hlast : ∀ update, evt = .progress .index update → Desk.finished update = true → n ≠ number) :
    n ∈ s.downloadingAfter number account evt := by
  unfold downloadingAfter
  split
  · next update =>
    split
    · next hfinished => exact Finset.mem_erase.mpr ⟨hlast update rfl hfinished, h⟩
    · split
      · exact Finset.mem_insert_of_mem h
      · exact h
  · next error => exact absurd rfl (herror error)
  · exact h

theorem Downloads.hear {out : Outside} {s : Frontend} {number : Nat} {account : AccountId}
    {evt : ImapEvent} (h : Downloads s) (haccount : s.opened[number]? = some account)
    (hok : endsOnScreen s (.event number evt)) : Downloads (s.hear out number account evt) := by
  have hnumber : ∀ a, System.number (s.core.handleImapEvent out account evt) a =
      System.number s.core a :=
    System.number_of_sessions (AppCore.handled_handleImapEvent out s.core account evt).sessions
  refine ⟨fun v hv hindex => ?_, fun n hn => ?_⟩
  · have hprogress := congrArg Desk.progress
      (AppCore.desk_handleImapEvent out s.core account evt)
    change v ∈ (s.core.handleImapEvent out account evt).desk.progress at hv
    change ∃ n ∈ if s.setsBar account evt then some number else s.shownBy,
      n ∈ s.downloadingAfter number account evt
    rw [hprogress] at hv
    split at hv
    · -- The account has no session; the download that is shown is of another.
      next hgone =>
      have hnone : s.core.view account = none := Option.isNone_iff_eq_none.mp hgone
      have hbar : s.setsBar account evt = false := by
        unfold setsBar
        split
        · rw [hnone]
          simp
        · rfl
      obtain ⟨n, hn, hdownloading⟩ := h.shown v hv hindex
      have hne : n ≠ number := by
        rintro rfl
        obtain ⟨a, ha, hlive⟩ := h.live n hdownloading
        obtain rfl := Option.some.inj (haccount.symm.trans ha)
        rw [System.number, hnone] at hlive
        cases hlive
      rw [hbar]
      refine ⟨n, hn, ?_⟩
      unfold downloadingAfter
      split
      · split
        · exact Finset.mem_erase.mpr ⟨hne, hdownloading⟩
        · split
          · exact Finset.mem_insert_of_mem hdownloading
          · exact hdownloading
      · exact Finset.mem_erase.mpr ⟨hne, hdownloading⟩
      · exact hdownloading
    · next hthere =>
      have hthere : (s.core.view account).isSome = true :=
        Option.isSome_iff_ne_none.mpr (by simpa using hthere)
      rcases Desk.index_of_handle hv hindex with
        ⟨update, rfl, hunfinished, hactive⟩ | ⟨hbefore, herror, hoff⟩
      · -- The report has set the bar.
        have hbar : s.setsBar account (.progress .index update) = true := by
          simp [setsBar, hunfinished, hthere, hactive]
        have hlive : s.live number account = true := by
          have hrule := hok account haccount
          rw [if_neg (by simp [hunfinished])] at hrule
          exact hrule hbar
        refine ⟨number, by rw [hbar]; rfl, ?_⟩
        simp only [downloadingAfter, hunfinished, hlive]
        exact Finset.mem_insert_self _ _
      · obtain ⟨n, hn, hdownloading⟩ := h.shown v hbefore hindex
        have hbar : s.setsBar account evt = false := by
          unfold setsBar
          split
          · next update =>
            have hactive := hoff update rfl
            change s.core.active ≠ some account at hactive
            simp [hactive]
          · rfl
        rw [hbar]
        refine ⟨n, hn, mem_downloadingAfter_of_mem hdownloading herror ?_⟩
        rintro update rfl hfinished rfl
        have hrule := hok account haccount
        rw [if_pos hfinished] at hrule
        exact hoff update rfl (hrule ⟨⟨v, hbefore, hindex⟩, hn⟩)
  · rcases mem_downloadingAfter hn with hbefore | ⟨rfl, hlive⟩
    · obtain ⟨a, ha, hlive⟩ := h.live n hbefore
      exact ⟨a, ha, (hnumber a).trans hlive⟩
    · exact ⟨account, haccount, (hnumber account).trans (of_decide_eq_true hlive)⟩

theorem number_disconnectAccount_ne {core : AppCore} {a account : AccountId} (hne : a ≠ account) :
    System.number (core.disconnectAccount account) a = System.number core a := by
  have hsessions := (core.disconnectAccount_spec account).1
  have hfind := System.find_filter_ne Prod.fst core.sessions hne
  rw [← hsessions, ← AppCore.owner_view, ← AppCore.owner_view] at hfind
  have hnumbers := congrArg (Option.map fun o : AccountId × Nat × Option (AccountConfig × Auth) =>
    o.2.1) hfind
  rw [Option.map_map, Option.map_map] at hnumbers
  exact hnumbers

theorem Downloads.disconnectAccount {s : Frontend} {account : AccountId} (h : Downloads s)
    (hok : endsOnScreen s (.disconnectAccount account)) :
    Downloads { s with
      core := s.core.disconnectAccount account
      downloading := s.withoutAccount account } := by
  refine ⟨fun v hv hindex => ?_, fun n hn => ?_⟩
  · have hprogress := congrArg Desk.progress (AppCore.desk_disconnectAccount s.core account)
    change v ∈ (s.core.disconnectAccount account).desk.progress at hv
    rw [hprogress] at hv
    by_cases hactive : s.core.active = some account
    · rw [if_pos hactive] at hv
      exact absurd hindex (Desk.mem_progress_clear hv).2
    · rw [if_neg hactive] at hv
      obtain ⟨n, hn, hdownloading⟩ := h.shown v hv hindex
      refine ⟨n, hn, Finset.mem_filter.mpr ⟨hdownloading, fun haccount => ?_⟩⟩
      exact hactive (hok n hn ⟨⟨v, hv, hindex⟩, hn⟩ haccount)
  · obtain ⟨hdownloading, hother⟩ := Finset.mem_filter.mp hn
    obtain ⟨a, ha, hlive⟩ := h.live n hdownloading
    refine ⟨a, ha, (number_disconnectAccount_ne ?_).trans hlive⟩
    rintro rfl
    exact hother ha

theorem Downloads.openSession {s : Frontend} {config : AccountConfig} {auth : Auth}
    {p : Option (AccountConfig × Auth)} (h : Downloads s)
    (hok : endsOnScreen s (.openSession config auth p)) :
    Downloads { s with
      core := s.core.openSession s.opened.length config auth p
      opened := s.opened ++ [config.id]
      downloading := s.withoutAccount config.id } := by
  refine ⟨fun v hv hindex => ?_, fun n hn => ?_⟩
  · obtain ⟨n, hn, hdownloading⟩ := h.shown v hv hindex
    exact ⟨n, hn, Finset.mem_filter.mpr ⟨hdownloading, hok n hn ⟨⟨v, hv, hindex⟩, hn⟩⟩⟩
  · obtain ⟨hdownloading, hother⟩ := Finset.mem_filter.mp hn
    obtain ⟨a, ha, hlive⟩ := h.live n hdownloading
    refine ⟨a, System.getElem?_append_of ha, ?_⟩
    rw [System.number, System.view_openSession_ne (by rintro rfl; exact hother ha)]
    exact hlive

theorem Downloads.step {out : Outside} {s s' : Frontend} {c : Call} (h : Downloads s)
    (hok : endsOnScreen s c) (hst : s.step out c = some s') : Downloads s' := by
  cases c with
  | activate account mailbox =>
    obtain rfl := Option.some.inj hst
    refine h.of_same (fun v hv _ => ?_) rfl rfl rfl
      (System.number_of_sessions (s.core.activate_spec account mailbox).2.2.2.1)
    change v ∈ (s.core.activate account mailbox).desk.progress at hv
    rw [AppCore.desk_activate] at hv
    split at hv <;> exact hv
  | openSession config auth p =>
    obtain rfl := Option.some.inj hst
    exact h.openSession hok
  | disconnectAccount account =>
    obtain rfl := Option.some.inj hst
    exact h.disconnectAccount hok
  | beginBulkAction kind targets =>
    simp only [Frontend.step] at hst
    split at hst
    · cases hst
    · split at hst
      · next hguard =>
        obtain rfl := Option.some.inj hst
        refine h.of_same (fun v hv hindex => ?_) rfl rfl rfl fun a => ?_
        · change v ∈ (s.core.beginBulkAction kind targets).desk.progress at hv
          rw [desk_beginBulkAction] at hv
          split at hv
          · exact hv
          · obtain rfl := Option.some.inj hv
            rcases hguard.2 with rfl | rfl <;> cases hindex
        · rw [System.number, view_beginBulkAction]
          rfl
      · cases hst
  | search results origins =>
    simp only [Frontend.step] at hst
    split at hst
    · obtain rfl := Option.some.inj hst
      exact h.of_same (fun _ hv _ => hv) rfl rfl rfl fun _ => rfl
    · cases hst
  | closeSearch =>
    obtain rfl := Option.some.inj hst
    exact h.of_same (fun _ hv _ => hv) rfl rfl rfl fun _ => rfl
  | select uid uids =>
    obtain rfl := Option.some.inj hst
    exact h.of_same (fun _ hv _ => hv) rfl rfl rfl fun _ => rfl
  | event number evt =>
    obtain ⟨account, haccount, rfl⟩ := Option.map_eq_some_iff.mp hst
    exact h.hear haccount hok
  | takeChanges =>
    obtain rfl := Option.some.inj hst
    exact h.of_same (fun _ hv _ => hv) rfl rfl rfl fun _ => rfl

/-- In a run in which a download that is shown ends only while its account is on screen, or with an
error, the index bar is shown only for a download that goes on.

The bar does not say whose it is: `shownBy` is the session whose report set it last. -/
theorem index_bar_cleared {out : Outside} {s : Frontend} (h : (machine out).Reach endsOnScreen s) :
    ∀ v ∈ s.core.progress, v.kind = .index → ∃ n ∈ s.shownBy, n ∈ s.downloading := by
  refine (h.invariant (P := Downloads) ?_ fun s c s' _ hdown hok hst => hdown.step hok hst).shown
  intro s hfresh
  rw [hfresh]
  exact ⟨fun v hv => absurd hv (by simp), fun n hn => absurd hn (Finset.notMem_empty n)⟩

instance (s : Frontend) (number : Nat) : Decidable (s.barOf number) :=
  inferInstanceAs (Decidable ((∃ v ∈ s.core.progress, v.kind = .index) ∧ s.shownBy = some number))

instance (s : Frontend) : (c : Call) → Decidable (endsOnScreen s c)
  | .event number evt =>
    match evt with
    | .progress .index update => inferInstanceAs (Decidable (∀ account ∈ s.opened[number]?,
        if Desk.finished update = true then s.barOf number → s.core.active = some account
        else s.setsBar account (.progress .index update) = true → s.live number account = true))
    | .progress .flags _ | .progress .move _ | .progress .append _ | .progress .export _
    | .progress .attachment _ | .progress .send _ | .connected | .disconnected | .error _
    | .mailboxes _ | .headers .. | .body .. | .bodyFailed .. | .exported _ | .exportFailed _
    | .mailData .. | .mailboxPolled .. | .newHeaders .. | .headersFrom .. | .appended _
    | .appendFailed .. | .pollFailed _ | .flagsUpdated .. | .flagsUpdateFailed .. | .moved ..
    | .moveFailed .. | .unreadCounts _ => isTrue trivial
  | .disconnectAccount account => inferInstanceAs (Decidable
      (∀ number ∈ s.shownBy, s.barOf number → s.opened[number]? = some account →
        s.core.active = some account))
  | .openSession config _ _ => inferInstanceAs (Decidable
      (∀ number ∈ s.shownBy, s.barOf number → s.opened[number]? ≠ some config.id))
  | .activate .. | .beginBulkAction .. | .search .. | .closeSearch | .select .. | .takeChanges =>
    isTrue trivial

/-- Such a run: another account is brought on screen during a download, and the first one again before
the last report; then the next mailbox is downloaded. -/
theorem index_bar_cleared_of_return : ∃ s : Frontend,
    s.core.progress = some ⟨.index, .counted 0 5⟩ ∧ s.shownBy = some 0 ∧
      ∀ v ∈ s.core.progress, v.kind = .index → ∃ n ∈ s.shownBy, n ∈ s.downloading := by
  obtain ⟨s, hr, hp⟩ := Machine.exists_reach_of_trace (machine System.plainOutside) endsOnScreen
    [.openSession System.me (.password "p") none, .openSession System.other (.password "q") none,
      .event 0 .connected, .event 0 (.progress .index (.counted 1 3)), .activate "other" "INBOX",
      .event 0 (.progress .index (.counted 2 3)), .activate "me" "INBOX",
      .event 0 (.progress .index (.counted 3 3)), .event 0 (.progress .index (.counted 0 5))]
    (fun s => decide (s.core.progress = some ⟨.index, .counted 0 5⟩ ∧ s.shownBy = some 0))
    (rfl : Fresh fresh) (by decide)
  obtain ⟨hprogress, hshown⟩ := of_decide_eq_true hp
  exact ⟨s, hprogress, hshown, index_bar_cleared hr⟩

/-- Another account is brought on screen during a download, and the last report comes then: the index
bar stays, though nothing is downloaded any more. -/
theorem bar_stays_after_switch : ¬ ∀ s : Frontend,
    (machine System.plainOutside).Reach Machine.any s →
      ∀ v ∈ s.core.progress, v.kind = .index → ∃ n ∈ s.shownBy, n ∈ s.downloading := by
  intro hall
  obtain ⟨s, hr, hp⟩ := Machine.exists_reach_of_trace (machine System.plainOutside) Machine.any
    [.openSession System.me (.password "p") none, .openSession System.other (.password "q") none,
      .event 0 .connected, .event 0 (.progress .index (.counted 1 2)), .activate "other" "INBOX",
      .event 0 (.progress .index (.counted 2 2))]
    (fun s => decide (s.core.progress = some ⟨.index, .counted 1 2⟩ ∧ s.downloading = ∅))
    (rfl : Fresh fresh) (by decide)
  obtain ⟨hprogress, hnone⟩ := of_decide_eq_true hp
  obtain ⟨n, -, hn⟩ := hall s hr _ hprogress rfl
  rw [hnone] at hn
  exact absurd hn (Finset.notMem_empty n)

end Frontend

end Esmail.App
