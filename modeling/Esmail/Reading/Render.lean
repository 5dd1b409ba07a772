/-
# The render thread, and which remote images it fetches

The worker takes the newest of the queued jobs, lays its page out (which is what discovers image
URLs), and only THEN reads the slot that holds the fetcher.  The permission is therefore the one
of the moment after the draw pass, not the one the page was loaded with: while a page that may not
load its images is being drawn, the body of an allowed message can arrive, install the fetcher,
and have the first page's images fetched (`fetches_for_the_wrong_page`).

The state is the pane of the UI thread, the queue of jobs, and where the worker is in its loop.
`fetched_only_if_allowed` is about the runs in which the fetcher is installed only while the render thread
holds no page without permission (`installsSafely`): it is then called for a message's page only if the View
toggle was on, or the sender trusted, when that page was loaded.

`Guarded` is the invariant: while the fetcher is there, every page that the worker may still read the slot
for has its permission.  The worker's steps keep it, as a job stays with the page it was submitted with;
of the UI thread's, only one that installs the fetcher could break it.

What litehtml asks for in a draw pass, what a fetch brings and whether the bytes decode are not
determined by the program; they are part of the actions.
-/
import Esmail.Library.Machine
import Esmail.Reading.Reader

namespace Esmail

open Transition

/-! ## 1. The engine -/

/-- The image bookkeeping of `D2dContainer`. -/
structure Engine where
  pendingImages : List String := []
  requestedImages : List String := []
  images : List String := []
  deriving DecidableEq, Repr

namespace Engine

/-- `load_image`: litehtml asks for an image. -/
def loadImage (e : Engine) (src : String) : Engine :=
  if src = "" ∨ e.images.contains src ∨ e.requestedImages.contains src then e
  else { e with
    requestedImages := src :: e.requestedImages
    pendingImages := e.pendingImages ++ [src] }

def clearPendingImages (e : Engine) : Engine :=
  { e with pendingImages := [], requestedImages := [] }

/-- `load_image_data`: remembers the image at `url`, if its bytes decode. -/
def loadImageData (e : Engine) (url : String) (decodes : Bool) : Engine :=
  if e.images.contains url ∨ ¬ decodes then e else { e with images := url :: e.images }

end Engine

/-- `MAX_PASSES`. -/
def maxPasses : Nat := 2

/-- `Output`. -/
inductive Output
  | frame (id : Nat) (width : Nat)
  | failed (id : Nat)
  deriving DecidableEq, Repr

/-- Where the worker is in `Worker::run` and `Worker::render`. -/
inductive Phase
  /-- In `recv`. -/
  | idle
  /-- At the top of the loop, about to check whether the job is superseded and to draw. -/
  | pass (job : RenderJob) (passes : Nat)
  /-- Drawn, with images pending; about to read the slot. -/
  | drawn (job : RenderJob) (passes : Nat) (pending : List String)
  /-- Going through the pending images with the fetcher that was read. -/
  | loading (job : RenderJob) (passes : Nat) (fetcher : Bool) (rest : List String) (loaded : Bool)
  deriving DecidableEq, Repr

/-- `newest_job`. -/
def newestJob (jobs : List RenderJob) : Option RenderJob :=
  jobs.getLast?.map fun job => { job with resetImages := jobs.any RenderJob.resetImages }

/-! ## 2. The machine -/

structure Viewer where
  pane : Pane
  jobs : List RenderJob := []
  latestId : Nat := 0
  phase : Phase := .idle
  engine : Engine := {}
  resetImagesNext : Bool := false
  outputs : List Output := []
  /-- What the fetcher was called for, and by the job of which page. -/
  fetched : List (String × Page) := []
  deriving DecidableEq, Repr

namespace Viewer

inductive Action
  | select (h : MailHeader)
  | showNotice (text : String) (action : Option (String × String))
  | bodyArrived (body : String)
  | setRemoteImages (allow : Bool)
  | trustSender (trusted : Bool)
  | stopRemoteImages
  /-- A theme or colour change re-renders what is on screen. -/
  | rerender
  | paint (width : Nat)
  /-- The worker takes everything that is queued. -/
  | takeJobs
  /-- The superseded check and a draw pass, in which litehtml asks for images; `parses` is
  whether the HTML could be laid out at all. -/
  | draw (parses : Bool) (asked : List String)
  | readFetcher
  /-- One pending image: whether there are bytes, and whether they decode. -/
  | loadNext (bytes decodes : Bool)
  | finishPass
  deriving DecidableEq, Repr

/-- What a UI action makes of the pane; `none` for the actions of the render thread and a paint. -/
def onPane (p : Pane) : Action → Option Pane
  | .select h => some (p.select h)
  | .showNotice text action => some (p.showNotice text action)
  | .bodyArrived body => some (p.bodyArrived body)
  | .setRemoteImages allow => some (p.setRemoteImages allow)
  | .trustSender trusted => some (p.trustSender trusted)
  | .stopRemoteImages => some p.stopRemoteImages
  | .rerender => some p.render
  | _ => none

/-- `paint_d2d`: submits a job when the page or the width changed. -/
def paint (v : Viewer) (width : Nat) : Viewer :=
  if v.pane.widget.dirty ∨ width ≠ v.pane.widget.requestedWidth then
    let r := v.pane.widget.submit width
    { v with pane := { v.pane with widget := r.1 }, latestId := r.1.submittedId, jobs := v.jobs ++ [r.2] }
  else v

/-- `Worker::run` receives a job and everything behind it, and `render` starts. -/
def takeJobs (v : Viewer) : Option Viewer :=
  match v.phase, newestJob v.jobs with
  | .idle, some job =>
    some { v with
      jobs := []
      phase := .pass job 0
      engine := if job.resetImages || v.resetImagesNext then v.engine.clearPendingImages else v.engine
      resetImagesNext := job.resetImages && v.resetImagesNext }
  | _, _ => none

/-- The end of a job with a frame. -/
def emitFrame (v : Viewer) (job : RenderJob) : Viewer :=
  { v with phase := .idle, outputs := v.outputs ++ [.frame job.id job.width] }

def draw (v : Viewer) (parses : Bool) (asked : List String) : Option Viewer :=
  match v.phase with
  | .pass job passes =>
    if v.latestId ≠ job.id then some { v with phase := .idle, resetImagesNext := true }
    else
      let engine := asked.foldl Engine.loadImage v.engine
      if parses then
        let pending := engine.pendingImages
        let v := { v with engine := { engine with pendingImages := [] } }
        if pending = [] ∨ passes + 1 = maxPasses then some (v.emitFrame job)
        else some { v with phase := .drawn job (passes + 1) pending }
      else
        some { v with engine := engine, phase := .idle, outputs := v.outputs ++ [.failed job.id] }
  | _ => none

def readFetcher (v : Viewer) : Option Viewer :=
  match v.phase with
  | .drawn job passes pending => some { v with phase := .loading job passes v.pane.fetcher pending false }
  | _ => none

variable (isDataUri : String → Bool)

/-- `decode_data_uri(&url).or_else(|| fetcher..)`: a `data:` URI has its own bytes, any other URL
goes to the fetcher, if one was read. -/
def loadNext (v : Viewer) (bytes decodes : Bool) : Option Viewer :=
  match v.phase with
  | .loading job passes fetcher (url :: rest) loaded =>
    let remote := !isDataUri url && fetcher
    let got := isDataUri url || (fetcher && bytes)
    some { v with
      phase := .loading job passes fetcher rest (loaded || got)
      engine := if got then v.engine.loadImageData url decodes else v.engine
      fetched := if remote then v.fetched ++ [(url, job.page)] else v.fetched }
  | _ => none

def finishPass (v : Viewer) : Option Viewer :=
  match v.phase with
  | .loading job passes _ [] loaded =>
    if loaded then some { v with phase := .pass job passes } else some (v.emitFrame job)
  | _ => none

def step (v : Viewer) : Action → Option Viewer
  | .paint width => some (v.paint width)
  | .takeJobs => v.takeJobs
  | .draw parses asked => v.draw parses asked
  | .readFetcher => v.readFetcher
  | .loadNext bytes decodes => v.loadNext isDataUri bytes decodes
  | .finishPass => v.finishPass
  | a => (onPane v.pane a).map fun pane => { v with pane := pane }

def machine : Machine Viewer Action :=
  ⟨fun v => ∃ toggle config, v = { pane := Pane.atStart toggle config }, step isDataUri⟩

/-! ## 3. The condition -/

/-- What a UI action is about to pass to `Reader::set_remote_images`, if it calls it. -/
def newPermission (p : Pane) : Action → Bool
  | .bodyArrived _ =>
    match p.selected with
    | some h => p.mayLoad h
    | none => false
  | .setRemoteImages allow => allow || p.currentSenderTrusted
  | .trustSender trusted =>
    match p.content with
    | .message h _ => p.toggle || senderTrusted (setSenderTrusted p.config h trusted).1 h
    | .notice _ _ => false
  | _ => false

/-- The pages the render thread may still read the slot for: the newest one queued, the one it
is about to draw unless that is superseded, and the one it has drawn if that asks for the web. -/
def slotReaders (v : Viewer) : List Page :=
  (v.jobs.getLast?.map RenderJob.page).toList ++
    match v.phase with
    | .pass job passes => if passes = 0 ∧ v.latestId = job.id then [job.page] else []
    | .drawn job _ pending => if pending.any (fun url => !isDataUri url) then [job.page] else []
    | _ => []

/-- The condition on one step: where it installs the fetcher, the render thread holds no page
that was loaded without permission. -/
def installsSafely (v : Viewer) (a : Action) : Prop :=
  v.pane.fetcher = false → newPermission v.pane a = true →
    ∀ page ∈ v.slotReaders isDataUri, page.permitted = true

instance (v : Viewer) (a : Action) : Decidable (installsSafely isDataUri v a) :=
  inferInstanceAs (Decidable (_ → _ → ∀ page ∈ v.slotReaders isDataUri, _))

theorem mem_slotReaders {v : Viewer} {page : Page} :
    page ∈ v.slotReaders isDataUri ↔
      (∃ job, v.jobs.getLast? = some job ∧ page = job.page) ∨
      (∃ job, v.phase = .pass job 0 ∧ v.latestId = job.id ∧ page = job.page) ∨
      ∃ job passes pending, v.phase = .drawn job passes pending ∧
        pending.any (fun url => !isDataUri url) = true ∧ page = job.page := by
  unfold slotReaders
  rw [List.mem_append]
  refine or_congr ?_ ?_
  · rw [Option.mem_toList, Option.map_eq_some_iff]
    simp only [eq_comm]
  · cases v.phase with
    | idle => simp
    | pass job passes =>
      by_cases h : passes = 0 ∧ v.latestId = job.id
      · simp [h]
      · simp only [if_neg h, List.not_mem_nil, Phase.pass.injEq, reduceCtorEq, false_and,
          exists_false, or_false, false_iff]
        rintro ⟨job', ⟨rfl, rfl⟩, hid, -⟩
        exact h ⟨rfl, hid⟩
    | drawn job passes pending =>
      by_cases h : pending.any (fun url => !isDataUri url) = true
      · simp only [if_pos h, List.mem_singleton, reduceCtorEq, false_and, exists_false, false_or,
          Phase.drawn.injEq]
        constructor
        · rintro rfl
          exact ⟨job, passes, pending, ⟨rfl, rfl, rfl⟩, h, rfl⟩
        · rintro ⟨job', passes', pending', ⟨rfl, rfl, rfl⟩, -, rfl⟩
          rfl
      · simp only [if_neg h, List.not_mem_nil, reduceCtorEq, false_and, exists_false, false_or,
          Phase.drawn.injEq, false_iff]
        rintro ⟨job', passes', pending', ⟨rfl, rfl, rfl⟩, hany, -⟩
        exact h hany
    | loading job passes fetcher rest loaded => simp

/-- What a UI action does to the pane, as far as the render thread can see it. -/
theorem onPane_effect {p p' : Pane} {a : Action} (hc : p.Consistent) (h : onPane p a = some p') :
    p'.Consistent ∧ p'.widget.submittedId = p.widget.submittedId ∧
      (p'.fetcher = true → p.fetcher = true ∨ newPermission p a = true) := by
  cases a with
  | select hd =>
    obtain rfl := Option.some.inj h
    exact ⟨hc.select hd, rfl, Or.inl⟩
  | showNotice text action =>
    obtain rfl := Option.some.inj h
    exact ⟨hc.showNotice text action, rfl, Or.inl⟩
  | bodyArrived body =>
    obtain rfl := Option.some.inj h
    refine ⟨hc.bodyArrived body, ?_, ?_⟩
    · unfold Pane.bodyArrived
      split
      · rfl
      · exact (p.setFetcher_frame _).2.2.2.2
    · unfold Pane.bodyArrived newPermission
      split
      · exact Or.inl
      · rename_i hd hsel
        intro hf
        have hf' : (p.setFetcher (p.mayLoad hd)).fetcher = true := hf
        rw [Pane.setFetcher_fetcher hc.fetcher] at hf'
        exact Or.inr (by simpa [hsel] using hf')
  | setRemoteImages allow =>
    obtain rfl := Option.some.inj h
    refine ⟨hc.setRemoteImages allow, (Pane.setFetcher_frame _ _).2.2.2.2, ?_⟩
    intro hf
    unfold Pane.setRemoteImages at hf
    rw [Pane.setFetcher_fetcher (by exact hc.fetcher)] at hf
    exact Or.inr hf
  | trustSender trusted =>
    obtain rfl := Option.some.inj h
    refine ⟨hc.trustSender trusted, ?_, ?_⟩
    · unfold Pane.trustSender
      split
      · rfl
      · exact (Pane.setFetcher_frame _ _).2.2.2.2
    · unfold Pane.trustSender newPermission
      split
      · exact Or.inl
      · rename_i hd body hcon
        intro hf
        unfold Pane.allowImagesFor at hf
        rw [Pane.setFetcher_fetcher (by exact hc.fetcher)] at hf
        exact Or.inr (by simpa [hcon, Pane.mayLoad] using hf)
  | stopRemoteImages =>
    obtain rfl := Option.some.inj h
    refine ⟨hc.stopRemoteImages, ?_, ?_⟩
    · unfold Pane.stopRemoteImages Pane.trustSender Pane.setRemoteImages
      split
      · split
        · rfl
        · exact (Pane.setFetcher_frame _ _).2.2.2.2
      · exact (Pane.setFetcher_frame _ _).2.2.2.2
    · unfold Pane.stopRemoteImages
      split
      -- A trusted message on screen has its images already.
      · rename_i htrusted
        intro _
        unfold Pane.currentSenderTrusted at htrusted
        split at htrusted
        · exact absurd htrusted (by simp)
        · rename_i hd body hcon
          rw [hc.fetcher, (hc.message hd body hcon).1, Pane.mayLoad, htrusted, Bool.or_true]
          exact Or.inl rfl
      · rename_i hnot
        intro hf
        unfold Pane.setRemoteImages at hf
        rw [Pane.setFetcher_fetcher (by exact hc.fetcher), Bool.false_or] at hf
        exact absurd hf hnot
  | rerender =>
    obtain rfl := Option.some.inj h
    exact ⟨hc.rerender, rfl, Or.inl⟩
  | _ => exact absurd h (by simp [onPane])

/-! ## 4. The invariant -/

/-- Where the worker can be: a job that is drawn is in its first pass, so the slot is read at
most once for it, and what is left of the images goes to a fetcher that was read rightly. -/
def PhaseOk (latestId : Nat) : Phase → Prop
  | .idle => True
  | .pass job passes => job.id ≤ latestId ∧ passes < maxPasses
  | .drawn job passes _ => job.id ≤ latestId ∧ passes = 1
  | .loading job passes fetcher rest _ => job.id ≤ latestId ∧ passes = 1 ∧
      (fetcher = true → rest.any (fun url => !isDataUri url) = true → job.page.permitted = true)

structure Guarded (v : Viewer) : Prop where
  pane : v.pane.Consistent
  latest : v.pane.widget.submittedId = v.latestId
  queueIds : ∀ job ∈ v.jobs, job.id ≤ v.latestId
  phase : PhaseOk isDataUri v.latestId v.phase
  readers : v.pane.fetcher = true → ∀ page ∈ v.slotReaders isDataUri, page.permitted = true
  fetched : ∀ f ∈ v.fetched, f.2.permitted = true

theorem Guarded.onPane {v : Viewer} {p' : Pane} {a : Action} (hg : Guarded isDataUri v)
    (hok : installsSafely isDataUri v a) (h : Viewer.onPane v.pane a = some p') :
    Guarded isDataUri { v with pane := p' } := by
  obtain ⟨hc, hid, hf⟩ := onPane_effect hg.pane h
  refine ⟨hc, hid.trans hg.latest, hg.queueIds, hg.phase, ?_, hg.fetched⟩
  intro hon
  cases hwas : v.pane.fetcher with
  | true => exact hg.readers hwas
  | false =>
    have hnew : newPermission v.pane a = true := (hf hon).resolve_left (by simp [hwas])
    exact hok hwas hnew

/-- A job that is submitted supersedes what the worker has not drawn yet, and its page is the one
the slot was set for. -/
theorem Guarded.paint {v : Viewer} (hg : Guarded isDataUri v) (width : Nat) :
    Guarded isDataUri (v.paint width) := by
  unfold Viewer.paint
  split
  · have hlatest : v.pane.widget.submittedId + 1 = v.latestId + 1 := by rw [hg.latest]
    refine ⟨⟨hg.pane.fetcher, hg.pane.page, hg.pane.message⟩, rfl, ?_, ?_, ?_, hg.fetched⟩
    · intro job hjob
      rcases List.mem_append.mp hjob with hjob | hjob
      · have hle := hg.queueIds job hjob
        simp only [HtmlWidget.submit]
        omega
      · rw [List.mem_singleton.mp hjob]
        simp [HtmlWidget.submit]
    · have hphase := hg.phase
      simp only [HtmlWidget.submit, hlatest]
      cases hp : v.phase with
      | idle => trivial
      | pass job passes =>
        rw [hp] at hphase
        exact ⟨Nat.le_succ_of_le hphase.1, hphase.2⟩
      | drawn job passes pending =>
        rw [hp] at hphase
        exact ⟨Nat.le_succ_of_le hphase.1, hphase.2⟩
      | loading job passes fetcher rest loaded =>
        rw [hp] at hphase
        exact ⟨Nat.le_succ_of_le hphase.1, hphase.2⟩
    · intro hon page hpage
      rcases (mem_slotReaders isDataUri).mp hpage with
        ⟨job, hlast, rfl⟩ | ⟨job, hpass, hid, rfl⟩ | ⟨job, passes, pending, hdrawn, hany, rfl⟩
      · simp only [List.getLast?_append, List.getLast?_singleton, Option.some_or,
          Option.some.injEq] at hlast
        exact hlast ▸ hg.pane.permitted hon
      · have hphase := hg.phase
        simp only at hpass
        rw [hpass] at hphase
        have hle := hphase.1
        simp only [HtmlWidget.submit] at hid
        omega
      · exact hg.readers hon _ ((mem_slotReaders isDataUri).mpr
          (Or.inr (Or.inr ⟨job, passes, pending, hdrawn, hany, rfl⟩)))
  · exact hg

theorem Guarded.takeJobs {v v' : Viewer} (hg : Guarded isDataUri v) (h : v.takeJobs = some v') :
    Guarded isDataUri v' := by
  unfold Viewer.takeJobs at h
  split at h
  · rename_i job hidle hnew
    obtain rfl := Option.some.inj h
    obtain ⟨last, hlast, rfl⟩ := Option.map_eq_some_iff.mp hnew
    refine ⟨hg.pane, hg.latest, by simp, ?_, ?_, hg.fetched⟩
    · exact ⟨hg.queueIds last (List.mem_of_getLast? hlast), by decide⟩
    · intro hon page hpage
      refine hg.readers hon page ((mem_slotReaders isDataUri).mpr (Or.inl ⟨last, hlast, ?_⟩))
      rcases (mem_slotReaders isDataUri).mp hpage with
        ⟨job, hjob, -⟩ | ⟨job, hpass, -, rfl⟩ | ⟨job, passes, pending, hdrawn, -, -⟩
      · exact absurd hjob (by simp)
      · exact (congrArg RenderJob.page (Phase.pass.inj hpass).1).symm
      · exact absurd hdrawn (by simp)
  · exact absurd h (by simp)

/-- Without a first pass, and with nothing drawn, only the queue reads the slot. -/
theorem mem_slotReaders_of_queue {v v' : Viewer} {page : Page}
    (h : page ∈ v'.slotReaders isDataUri) (hjobs : v'.jobs = v.jobs)
    (hpass : ∀ job, v'.phase ≠ .pass job 0)
    (hdrawn : ∀ job passes pending, v'.phase ≠ .drawn job passes pending) :
    page ∈ v.slotReaders isDataUri := by
  rcases (mem_slotReaders isDataUri).mp h with
    hqueue | ⟨job, hpass', -, -⟩ | ⟨job, passes, pending, hdrawn', -, -⟩
  · exact (mem_slotReaders isDataUri).mpr (Or.inl (hjobs ▸ hqueue))
  · exact absurd hpass' (hpass job)
  · exact absurd hdrawn' (hdrawn job passes pending)

/-- Going back to `recv` keeps the invariant: only the queue still reads the slot. -/
theorem Guarded.idle {v : Viewer} (hg : Guarded isDataUri v) (engine : Engine) (reset : Bool)
    (outputs : List Output) :
    Guarded isDataUri { v with
      phase := .idle, engine := engine, resetImagesNext := reset, outputs := outputs } := by
  refine ⟨hg.pane, hg.latest, hg.queueIds, trivial, ?_, hg.fetched⟩
  intro hon page hpage
  exact hg.readers hon page (mem_slotReaders_of_queue isDataUri hpage rfl (by simp) (by simp))

theorem Guarded.draw {v v' : Viewer} {parses : Bool} {asked : List String}
    (hg : Guarded isDataUri v) (h : v.draw parses asked = some v') : Guarded isDataUri v' := by
  unfold Viewer.draw at h
  split at h
  · rename_i job passes hpass
    have hphase := hg.phase
    rw [hpass] at hphase
    split at h
    · obtain rfl := Option.some.inj h
      exact hg.idle isDataUri _ _ _
    · rename_i hlatest
      simp only at h
      split at h
      · split at h
        · obtain rfl := Option.some.inj h
          exact hg.idle isDataUri _ _ _
        -- Pending images in the first pass of the newest job: the job read the slot before, too.
        · rename_i hmore
          obtain rfl := Option.some.inj h
          have hfirst : passes = 0 := by
            have hlt := hphase.2
            simp only [maxPasses, not_or] at hmore hlt
            omega
          refine ⟨hg.pane, hg.latest, hg.queueIds, ⟨hphase.1, by omega⟩, ?_, hg.fetched⟩
          intro hon page hpage
          refine hg.readers hon page ((mem_slotReaders isDataUri).mpr ?_)
          rcases (mem_slotReaders isDataUri).mp hpage with
            hqueue | ⟨job', hpass', -, -⟩ | ⟨job', passes', pending, hdrawn, -, rfl⟩
          · exact Or.inl hqueue
          · exact absurd hpass' (by simp)
          · obtain ⟨rfl, -, -⟩ := Phase.drawn.inj hdrawn
            exact Or.inr (Or.inl ⟨job, hfirst ▸ hpass, not_not.mp hlatest, rfl⟩)
      · obtain rfl := Option.some.inj h
        exact hg.idle isDataUri _ _ _
  · exact absurd h (by simp)

theorem Guarded.readFetcher {v v' : Viewer} (hg : Guarded isDataUri v)
    (h : v.readFetcher = some v') : Guarded isDataUri v' := by
  unfold Viewer.readFetcher at h
  split at h
  · rename_i job passes pending hdrawn
    obtain rfl := Option.some.inj h
    have hphase := hg.phase
    rw [hdrawn] at hphase
    refine ⟨hg.pane, hg.latest, hg.queueIds, ⟨hphase.1, hphase.2, ?_⟩, ?_, hg.fetched⟩
    · intro hon hany
      exact hg.readers hon job.page ((mem_slotReaders isDataUri).mpr
        (Or.inr (Or.inr ⟨job, passes, pending, hdrawn, hany, rfl⟩)))
    · intro hon page hpage
      exact hg.readers hon page (mem_slotReaders_of_queue isDataUri hpage rfl (by simp) (by simp))
  · exact absurd h (by simp)

theorem Guarded.loadNext {v v' : Viewer} {bytes decodes : Bool} (hg : Guarded isDataUri v)
    (h : v.loadNext isDataUri bytes decodes = some v') : Guarded isDataUri v' := by
  unfold Viewer.loadNext at h
  split at h
  · rename_i job passes fetcher url rest loaded hload
    obtain rfl := Option.some.inj h
    have hphase := hg.phase
    rw [hload] at hphase
    refine ⟨hg.pane, hg.latest, hg.queueIds, ⟨hphase.1, hphase.2.1, ?_⟩, ?_, ?_⟩
    · intro hon hany
      exact hphase.2.2 hon (by simp only [List.any_cons, hany, Bool.or_true])
    · intro hon page hpage
      exact hg.readers hon page (mem_slotReaders_of_queue isDataUri hpage rfl (by simp) (by simp))
    · intro f hf
      simp only at hf
      split at hf
      · rename_i hremote
        obtain ⟨hurl, hon⟩ := Bool.and_eq_true_iff.mp hremote
        rcases List.mem_append.mp hf with hf | hf
        · exact hg.fetched f hf
        · rw [List.mem_singleton.mp hf]
          exact hphase.2.2 hon (by simp only [List.any_cons, hurl, Bool.true_or])
      · exact hg.fetched f hf
  · exact absurd h (by simp)

theorem Guarded.finishPass {v v' : Viewer} (hg : Guarded isDataUri v)
    (h : v.finishPass = some v') : Guarded isDataUri v' := by
  unfold Viewer.finishPass at h
  split at h
  · rename_i job passes fetcher loaded hload
    have hphase := hg.phase
    rw [hload] at hphase
    split at h
    · obtain rfl := Option.some.inj h
      refine ⟨hg.pane, hg.latest, hg.queueIds, ⟨hphase.1, by rw [hphase.2.1]; decide⟩, ?_, hg.fetched⟩
      intro hon page hpage
      have hpass : ∀ job', Phase.pass job passes ≠ Phase.pass job' 0 := fun job' heq => by
        have hzero := (Phase.pass.inj heq).2
        have hone := hphase.2.1
        omega
      exact hg.readers hon page (mem_slotReaders_of_queue isDataUri hpage rfl hpass (by simp))
    · obtain rfl := Option.some.inj h
      exact hg.idle isDataUri _ _ _
  · exact absurd h (by simp)

theorem Guarded.step {v v' : Viewer} {a : Action} (hg : Guarded isDataUri v)
    (hok : installsSafely isDataUri v a) (h : Viewer.step isDataUri v a = some v') :
    Guarded isDataUri v' := by
  cases a with
  | paint width =>
    obtain rfl := Option.some.inj h
    exact hg.paint isDataUri width
  | takeJobs => exact hg.takeJobs isDataUri h
  | draw parses asked => exact hg.draw isDataUri h
  | readFetcher => exact hg.readFetcher isDataUri h
  | loadNext bytes decodes => exact hg.loadNext isDataUri h
  | finishPass => exact hg.finishPass isDataUri h
  | _ =>
    simp only [Viewer.step] at h
    obtain ⟨p', hp, rfl⟩ := Option.map_eq_some_iff.mp h
    exact hg.onPane isDataUri hok hp

theorem guarded_of_reach {v : Viewer}
    (h : (machine isDataUri).Reach (installsSafely isDataUri) v) : Guarded isDataUri v := by
  refine h.invariant ?_ (fun v a v' _ hg hok hst => hg.step isDataUri hok hst)
  rintro v ⟨toggle, config, rfl⟩
  refine ⟨Pane.atStart_consistent toggle config, ?_, by simp, trivial, ?_, by simp⟩
  · exact (Pane.setFetcher_frame _ _).2.2.2.2
  · intro _ page hpage
    rcases (mem_slotReaders isDataUri).mp hpage with
      ⟨job, hjob, -⟩ | ⟨job, hpass, -, -⟩ | ⟨job, passes, pending, hdrawn, -, -⟩
    · exact absurd hjob (by simp)
    · exact absurd hpass (by simp)
    · exact absurd hdrawn (by simp)

/-! ## 5. What is fetched was allowed -/

/-- In a run that installs the fetcher safely, it is called for a message's page only if the View
toggle was on or the sender trusted when that page was loaded.

What is fetched, and for which page, is kept in `fetched`; `Guarded` has it of every entry. -/
theorem fetched_only_if_allowed {v : Viewer}
    (h : (machine isDataUri).Reach (installsSafely isDataUri) v) {url : String} {page : Page}
    (hf : (url, page) ∈ v.fetched) (hm : page.content.isMessage = true) : page.allowed = true := by
  have hp := (guarded_of_reach isDataUri h).fetched (url, page) hf
  simpa [Page.permitted, hm] using hp

/-- A message of which only the sender is of interest. -/
def messageFrom (sender : String) : MailHeader :=
  { uid := 1, subject := "", sender, recipient := "", date := "", messageId := "", flags := [] }

def hasDataScheme (url : String) : Bool := "data:".toList.isPrefixOf url.toList

/-- Such a run: a trusted sender's image is fetched. -/
theorem fetched_only_if_allowed_trusted : ∃ v : Viewer, ∃ page : Page,
    ("http://t/p.png", page) ∈ v.fetched ∧ page.allowed = true := by
  obtain ⟨v, hr, hp⟩ := Machine.exists_reach_of_trace (machine hasDataScheme)
    (installsSafely hasDataScheme)
    [.select (messageFrom "b@x.org"), .bodyArrived "", .paint 100, .takeJobs,
      .draw true ["http://t/p.png"], .readFetcher, .loadNext true true]
    (fun v => decide (("http://t/p.png", ⟨.message (messageFrom "b@x.org") "", true⟩) ∈ v.fetched))
    ⟨false, ⟨["b@x.org".toList]⟩, rfl⟩ (by decide)
  have hf := of_decide_eq_true hp
  exact ⟨v, _, hf, fetched_only_if_allowed hasDataScheme hr hf rfl⟩

/-- Without the condition the permission of one message is used for another.  The untrusted
message's page is drawn, then the body of a trusted one arrives, then the worker reads the slot. -/
theorem fetches_for_the_wrong_page : ¬ ∀ (v : Viewer) (url : String) (page : Page),
    (machine hasDataScheme).Reach Machine.any v → (url, page) ∈ v.fetched →
    page.content.isMessage = true → page.allowed = true := by
  intro hall
  obtain ⟨v, hr, hp⟩ := Machine.exists_reach_of_trace (machine hasDataScheme) Machine.any
    [.select (messageFrom "a@x.org"), .bodyArrived "", .paint 100, .takeJobs,
      .draw true ["http://t/p.png"], .select (messageFrom "b@x.org"), .bodyArrived "",
      .readFetcher, .loadNext true true]
    (fun v => decide (("http://t/p.png", ⟨.message (messageFrom "a@x.org") "", false⟩) ∈ v.fetched))
    ⟨false, ⟨["b@x.org".toList]⟩, rfl⟩ (by decide)
  exact absurd (hall v _ _ hr (of_decide_eq_true hp) rfl) (by decide)

end Viewer

end Esmail
