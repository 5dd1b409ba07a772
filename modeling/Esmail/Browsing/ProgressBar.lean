/-
# The progress bar, and the operations that report to it

One slot for all of them: `App::apply_progress` shows the last report of whatever operation and whatever
account.  It is hidden by the last report of a download, and by an error while it shows a download; the
end of an upload is not heard at all.

The sessions are what their tasks do: `Append` reports once and has one reply; a download reports for
each message, and ends without a word when it has none left.  Exports do not report.

`hidden_when_idle` says when the bar is hidden while nothing that reported is running: in the runs that
`takesBack` allows.  It leaves out the steps by which an operation ends unheard while the bar is its own: an
upload's reply, a download that has announced more than it had, a core that is replaced.

The invariant is about what is shown, `Reported`: an operation that is running has reported it, and has more
to report.  It does not say which account's.  So what one session does cannot hide that of another, and the
steps are a case each for what ends (`uploaded`, `ended`), what reports (`report`, `counted`) and what does
neither (`other`).
-/
import Esmail.App.Pump
import Esmail.Library.Machine

namespace Esmail.Browsing

open Transition
open App (ImapEvent Progress ProgressKind)

/-! ## 1. The slot -/

/-- `index_finished`. -/
def indexFinished (kind : ProgressKind) : Progress → Bool
  | .counted current total => kind = .index && current = total
  | .indeterminate => false

/-- `App::apply_progress`, on the slot. -/
def applyProgress (kind : ProgressKind) (progress : Progress) : Option ProgressKind :=
  if indexFinished kind progress then none else some kind

/-- `App::handle`, on the slot. -/
def handleProgress (shown : Option ProgressKind) : ImapEvent → Option ProgressKind
  | .error _ => if shown = some .index then none else shown
  | .progress kind progress => applyProgress kind progress
  | _ => shown

/-! ## 2. The operations of a session -/

/-- A download that has reported: how many messages it has, of how many, and whether this is the second
attempt. -/
structure Download where
  current : Nat
  total : Nat
  retried : Bool
  deriving DecidableEq, Repr

/-- Every message that the mailbox was said to have has been reported. -/
def Download.complete (d : Download) : Bool := d.current = d.total

/-- The operations of an account that have reported and are not over: an upload of its session, a
download of its worker. -/
structure Jobs where
  append : Bool := false
  download : Option Download := none
  deriving DecidableEq, Repr

/-- Nothing that reported is still running. -/
def Jobs.idle (jobs : Jobs) : Bool := !jobs.append && jobs.download.isNone

/-- The account has an operation of this kind that has more to report, or a reply to come. -/
def Jobs.reports (jobs : Jobs) : ProgressKind → Bool
  | .append => jobs.append
  | .index => jobs.download.any fun d => !d.complete
  | _ => false

/-- The slot, and the operations of each account. -/
structure Bar where
  progress : Option ProgressKind := none
  sessions : List Jobs := []
  deriving DecidableEq, Repr

/-- What the operations do, what else the sessions report, and a change of the accounts. -/
inductive Report
  | append (session : Nat)
  | appended (session : Nat) (mailbox : String)
  | appendFailed (session : Nat) (mailbox error : String)
  | examine (session total : Nat)
  | message (session : Nat)
  | fetched (session : Nat)
  | failed (session : Nat) (error : String)
  | other (session : Nat) (event : ImapEvent)
  | reload (accounts : Option Nat)
  deriving DecidableEq

namespace Bar

/-- No operation that reported is still running. -/
def idle (b : Bar) : Bool := b.sessions.all Jobs.idle

/-- A session whose operations have changed, and an event of it that is handled. -/
def after (b : Bar) (session : Nat) (jobs : Jobs) (event : ImapEvent) : Bar :=
  ⟨handleProgress b.progress event, b.sessions.set session jobs⟩

/-- `examine` is the beginning of `bulk_download`, the first time and again after a failure; an empty
mailbox is its end. -/
def step (b : Bar) : Report → Option Bar
  | .append session =>
    (b.sessions[session]?).bind fun jobs =>
      if jobs.append then none
      else some (b.after session { jobs with append := true } (.progress .append .indeterminate))
  | .appended session mailbox =>
    (b.sessions[session]?).bind fun jobs =>
      if jobs.append then some (b.after session { jobs with append := false } (.appended mailbox))
      else none
  | .appendFailed session mailbox error =>
    (b.sessions[session]?).map fun jobs =>
      b.after session { jobs with append := false } (.appendFailed mailbox error)
  | .examine session total =>
    (b.sessions[session]?).bind fun jobs =>
      if jobs.download.any Download.retried then none
      else if total = 0 then
        some { b with sessions := b.sessions.set session { jobs with download := none } }
      else
        some (b.after session { jobs with download := some ⟨0, total, jobs.download.isSome⟩ }
          (.progress .index (.counted 0 total)))
  | .message session =>
    (b.sessions[session]?).bind fun jobs => jobs.download.map fun d =>
      b.after session { jobs with download := some { d with current := d.current + 1 } }
        (.progress .index (.counted (d.current + 1) d.total))
  | .fetched session =>
    (b.sessions[session]?).bind fun jobs => jobs.download.map fun _ =>
      { b with sessions := b.sessions.set session { jobs with download := none } }
  | .failed session error =>
    (b.sessions[session]?).map fun jobs =>
      b.after session { jobs with download := none } (.error error)
  | .other session event =>
    match event with
    | .progress .. | .appended _ | .appendFailed .. => none
    | event => (b.sessions[session]?).map fun jobs => b.after session jobs event
  | .reload none => some b
  | .reload (some accounts) => some { b with sessions := List.replicate accounts {} }

/-- A window that was built, with its accounts. -/
def machine : Machine Bar Report := ⟨fun b => ∃ accounts, b = ⟨none, List.replicate accounts {}⟩, step⟩

/-! ## 3. What is shown is running -/

/-- What the slot shows has been reported by an operation that is running and has more to report. -/
def Reported (b : Bar) : Prop :=
  ∀ kind ∈ b.progress, ∃ jobs ∈ b.sessions, jobs.reports kind = true

/-- The steps after which the bar may be left on are not taken: an upload does not end while the bar shows
it, unless another one is running; a download ends only when every message has been reported; and the
accounts are changed only while the bar is hidden. -/
def takesBack (b : Bar) : Report → Prop
  | .appended session _ | .appendFailed session _ _ =>
    b.progress = some .append → (b.sessions.eraseIdx session).any Jobs.append = true
  | .fetched session | .examine session 0 =>
    ∀ jobs ∈ b.sessions[session]?, ∀ d ∈ jobs.download, d.complete = true
  | .reload (some _) => b.progress = none
  | _ => True

theorem exists_set {sessions : List Jobs} {session : Nat} {jobs jobs' : Jobs}
    (hget : sessions[session]? = some jobs) {kind : ProgressKind}
    (hkeep : jobs.reports kind = true → jobs'.reports kind = true)
    (h : ∃ j ∈ sessions, j.reports kind = true) :
    ∃ j ∈ sessions.set session jobs', j.reports kind = true := by
  obtain ⟨j, hmem, hreports⟩ := h
  obtain ⟨i, hi⟩ := List.mem_iff_getElem?.mp hmem
  by_cases hsame : i = session
  · subst hsame
    obtain rfl := Option.some.inj (hget.symm.trans hi)
    exact ⟨jobs', List.mem_set (List.getElem?_eq_some_iff.mp hi).1 _, hkeep hreports⟩
  · refine ⟨j, List.mem_iff_getElem?.mpr ⟨i, ?_⟩, hreports⟩
    rw [List.getElem?_set_ne (Ne.symm hsame)]
    exact hi

/-- What is shown stays reported, if the session's own part of it does. -/
theorem Reported.set {b : Bar} (h : b.Reported) {session : Nat} {jobs jobs' : Jobs}
    (hget : b.sessions[session]? = some jobs) {progress : Option ProgressKind}
    (hkeep : ∀ kind ∈ progress, kind ∈ b.progress ∧
      (jobs.reports kind = true → jobs'.reports kind = true)) :
    Reported ⟨progress, b.sessions.set session jobs'⟩ := fun kind hkind =>
  exists_set hget (hkeep kind hkind).2 (h kind (hkeep kind hkind).1)

/-- What an operation has just reported. -/
theorem Reported.report {b : Bar} {session : Nat} {jobs jobs' : Jobs}
    (hget : b.sessions[session]? = some jobs) {kind : ProgressKind}
    (hreports : jobs'.reports kind = true) : Reported ⟨some kind, b.sessions.set session jobs'⟩ := by
  rintro kind' hkind
  obtain rfl := Option.mem_some.mp hkind
  exact ⟨jobs', List.mem_set (List.getElem?_eq_some_iff.mp hget).1 _, hreports⟩

theorem Reported.hidden (sessions : List Jobs) : Reported ⟨none, sessions⟩ :=
  fun _ hkind => (Option.not_mem_none _ hkind).elim

theorem mem_handle_error {shown : Option ProgressKind} {error : String} {kind : ProgressKind}
    (h : kind ∈ handleProgress shown (.error error)) : kind ∈ shown ∧ kind ≠ .index := by
  simp only [handleProgress] at h
  split at h
  · cases h
  · next hother => exact ⟨h, fun hindex => hother (hindex ▸ h)⟩

/-- An upload of the session that is over, while another one is shown. -/
theorem Reported.uploaded {b : Bar} (h : b.Reported) {session : Nat} {jobs : Jobs}
    (hget : b.sessions[session]? = some jobs)
    (hother : b.progress = some .append → (b.sessions.eraseIdx session).any Jobs.append = true) :
    Reported ⟨b.progress, b.sessions.set session { jobs with append := false }⟩ := by
  intro kind hkind
  by_cases happend : kind = .append
  · subst happend
    obtain ⟨other, hmem, hreports⟩ := List.any_eq_true.mp (hother hkind)
    obtain ⟨i, hi, hne⟩ := List.mem_eraseIdx_iff_getElem?.mp hmem
    refine ⟨other, List.mem_iff_getElem?.mpr ⟨i, ?_⟩, hreports⟩
    rw [List.getElem?_set_ne (Ne.symm hi)]
    exact hne
  · refine exists_set hget (fun hreports => ?_) (h kind hkind)
    cases kind with
    | append => exact absurd rfl happend
    | index => exact hreports
    | _ => cases hreports

/-- A download that has nothing more to report is over. -/
theorem Reported.ended {b : Bar} (h : b.Reported) {session : Nat} {jobs : Jobs}
    (hget : b.sessions[session]? = some jobs)
    (hcomplete : ∀ d ∈ jobs.download, d.complete = true) :
    Reported { b with sessions := b.sessions.set session { jobs with download := none } } := by
  refine Reported.set (b := b) h hget fun kind hkind => ⟨hkind, fun hreports => ?_⟩
  cases kind with
  | index =>
    obtain ⟨d, hd, hmore⟩ := (Option.any_eq_true _ _).mp hreports
    rw [hcomplete d hd] at hmore
    cases hmore
  | append => exact hreports
  | _ => cases hreports

/-- The report of a download hides the bar with its last message. -/
theorem handle_counted (shown : Option ProgressKind) (current total : Nat) :
    handleProgress shown (.progress .index (.counted current total)) =
      if current = total then none else some .index := by
  simp [handleProgress, applyProgress, indexFinished]

/-- A download has reported. -/
theorem Reported.counted (b : Bar) {session : Nat} {jobs : Jobs} (hget : b.sessions[session]? = some jobs)
    (d : Download) :
    (b.after session { jobs with download := some d }
      (.progress .index (.counted d.current d.total))).Reported := by
  rw [after, handle_counted]
  split
  · exact Reported.hidden _
  · next hmore =>
    refine Reported.report hget ?_
    simp [Jobs.reports, Download.complete, hmore]

/-- What else a session reports leaves its operations as they are, and shows nothing. -/
theorem Reported.other {b b' : Bar} (h : b.Reported) {session : Nat} {event : ImapEvent}
    (hst : b.step (.other session event) = some b') : b'.Reported := by
  have hkept : ∀ jobs, b.sessions[session]? = some jobs →
      (∀ kind ∈ handleProgress b.progress event, kind ∈ b.progress) →
      (b.after session jobs event).Reported := fun jobs hget hshown =>
    h.set hget fun kind hkind => ⟨hshown kind hkind, id⟩
  cases event with
  | progress kind progress => cases hst
  | appended mailbox => cases hst
  | appendFailed mailbox error => cases hst
  | error error =>
    obtain ⟨jobs, hget, rfl⟩ := Option.map_eq_some_iff.mp hst
    exact hkept jobs hget fun kind hkind => (mem_handle_error hkind).1
  | _ =>
    obtain ⟨jobs, hget, rfl⟩ := Option.map_eq_some_iff.mp hst
    exact hkept jobs hget fun kind hkind => hkind

theorem Reported.step {b b' : Bar} {report : Report} (h : b.Reported) (hok : b.takesBack report)
    (hst : b.step report = some b') : b'.Reported := by
  cases report with
  | append session =>
    obtain ⟨jobs, hget, hst⟩ := Option.bind_eq_some_iff.mp hst
    split at hst
    · cases hst
    · exact Option.some.inj hst ▸ Reported.report hget rfl
  | appended session mailbox =>
    obtain ⟨jobs, hget, hst⟩ := Option.bind_eq_some_iff.mp hst
    split at hst
    · exact Option.some.inj hst ▸ h.uploaded hget hok
    · cases hst
  | appendFailed session mailbox error =>
    obtain ⟨jobs, hget, rfl⟩ := Option.map_eq_some_iff.mp hst
    exact h.uploaded hget hok
  | examine session total =>
    obtain ⟨jobs, hget, hnext⟩ := Option.bind_eq_some_iff.mp hst
    split at hnext
    · cases hnext
    · split at hnext
      · next hzero =>
        subst hzero
        exact Option.some.inj hnext ▸ h.ended hget (hok jobs hget)
      · exact Option.some.inj hnext ▸ Reported.counted b hget ⟨0, total, jobs.download.isSome⟩
  | message session =>
    obtain ⟨jobs, hget, hst⟩ := Option.bind_eq_some_iff.mp hst
    obtain ⟨d, -, rfl⟩ := Option.map_eq_some_iff.mp hst
    exact Reported.counted b hget { d with current := d.current + 1 }
  | fetched session =>
    obtain ⟨jobs, hget, hst⟩ := Option.bind_eq_some_iff.mp hst
    obtain ⟨d, hd, rfl⟩ := Option.map_eq_some_iff.mp hst
    exact h.ended hget (hok jobs hget)
  | failed session error =>
    obtain ⟨jobs, hget, rfl⟩ := Option.map_eq_some_iff.mp hst
    refine h.set hget fun kind hkind => ?_
    obtain ⟨hshown, hindex⟩ := mem_handle_error hkind
    refine ⟨hshown, fun hreports => ?_⟩
    cases kind with
    | index => exact absurd rfl hindex
    | append => exact hreports
    | _ => cases hreports
  | other session event => exact h.other hst
  | reload accounts =>
    cases accounts with
    | none => exact Option.some.inj hst ▸ h
    | some accounts =>
      obtain rfl := Option.some.inj hst
      intro kind hkind
      rw [show b.progress = none from hok] at hkind
      cases hkind

/-! ## 4. The bar is hidden when nothing is running -/

theorem not_reports_of_idle {jobs : Jobs} (h : jobs.idle = true) (kind : ProgressKind) :
    jobs.reports kind = false := by
  obtain ⟨happend, hdownload⟩ := Bool.and_eq_true_iff.mp h
  rw [Option.isNone_iff_eq_none] at hdownload
  cases kind with
  | append => simpa [Jobs.reports] using happend
  | index => rw [Jobs.reports, hdownload, Option.any_none]
  | _ => rfl

/-- In a run without those steps the bar is hidden whenever no operation that reported is running: what the slot
shows was reported by an operation that has more to report (`Reported`), and of these there is none. -/
theorem hidden_when_idle {b : Bar} (h : machine.Reach takesBack b) :
    b.idle = true → b.progress = none := by
  have hreported : b.Reported := by
    refine h.invariant (P := Reported) ?_ fun b report b' _ hreported hok hst => hreported.step hok hst
    rintro b ⟨accounts, rfl⟩
    exact Reported.hidden _
  intro hidle
  cases hprogress : b.progress with
  | none => rfl
  | some kind =>
    obtain ⟨jobs, hmem, hreports⟩ := hreported kind hprogress
    rw [not_reports_of_idle (List.all_eq_true.mp hidle jobs hmem)] at hreports
    cases hreports

instance (b : Bar) : (report : Report) → Decidable (b.takesBack report)
  | .appended session _ | .appendFailed session _ _ =>
    inferInstanceAs (Decidable (b.progress = some .append →
      (b.sessions.eraseIdx session).any Jobs.append = true))
  | .fetched session | .examine session 0 =>
    inferInstanceAs (Decidable (∀ jobs ∈ b.sessions[session]?, ∀ d ∈ jobs.download, d.complete = true))
  | .reload (some _) => inferInstanceAs (Decidable (b.progress = none))
  | .append _ | .examine _ (_ + 1) | .message _ | .failed _ _ | .other _ _ | .reload none =>
    isTrue trivial

/-- Such a run: a folder is downloaded while a message is copied to the Sent folder. -/
theorem hidden_when_idle_of_download : ∃ b : Bar, b.idle = true ∧ b.progress = none := by
  obtain ⟨b, hr, hp⟩ := Machine.exists_reach_of_trace machine takesBack
    (s := ⟨none, List.replicate 2 {}⟩)
    [.append 0, .examine 1 2, .appended 0 "Sent", .message 1, .message 1, .fetched 1] idle
    ⟨2, rfl⟩ (by decide)
  exact ⟨b, hp, hidden_when_idle hr hp⟩

/-- A message has been copied to the Sent folder, and the bar is still there. -/
theorem upload_left_on : ¬ ∀ b : Bar, machine.Reach Machine.any b →
    b.idle = true → b.progress = none := by
  intro hall
  obtain ⟨b, hr, hp⟩ := Machine.exists_reach_of_trace machine Machine.any
    (s := ⟨none, List.replicate 1 {}⟩) [.append 0, .appended 0 "Sent"]
    (fun b => decide (b.idle = true ∧ b.progress = some .append)) ⟨1, rfl⟩ (by decide)
  obtain ⟨hidle, hshown⟩ := of_decide_eq_true hp
  rw [hall b hr hidle] at hshown
  cases hshown

end Bar

end Esmail.Browsing
