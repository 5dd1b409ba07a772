/-
# The HTML view and its render thread

The whole of `litehtml-view-d2d` between a page that is loaded and a frame that is shown: the widget
(`widget.rs`), the queue of jobs, the worker (`worker.rs`), the image bookkeeping of its container
(`container.rs`) and the way back.  The UI thread and the worker take turns in any order; the worker
looks at what they share once before each draw pass, and once before it loads images.

What litehtml asks for in a pass, whether it can lay the page out and what the network answers are
part of the actions; which URLs are `data:` URIs with bytes (`decodeDataUri`), and which bytes are an
image (`decodes`), are parameters.

`worker_survives` is about the worker: the one thing that can stop it is a URL that `images::fetch`
cannot slice.  (The URLs a page asks for and the frames that are shown are the subject of
`Reading/Frames.lean`; that this is the worker of `Reading/Render.lean` is shown in
`Reading/OneWorker.lean`.)
-/
import Mathlib.Algebra.Order.Ring.Unbundled.Rat
import Esmail.Library.Machine
import Esmail.Reading.Images
import Esmail.Reading.Render

namespace Esmail.HtmlView

open Transition Images

/-! ## 1. The widget -/

structure RenderJob where
  id : Nat
  html : String
  /-- Layout width in device-independent pixels. -/
  width : Rat
  resetImages : Bool
  deriving DecidableEq, Repr

/-- `Frame`: which page it shows at which width, and the images in its display list.  The images that
its page asks for are beside it; they are not in the program. -/
structure Frame where
  id : Nat
  html : String
  width : Rat
  pictures : List String
  asked : List String
  deriving DecidableEq, Repr

inductive Output
  | frame (f : Frame)
  | failed (id : Nat)
  deriving DecidableEq, Repr

/-- The part of `HtmlWidget` that submits and shows. -/
structure Widget where
  html : String
  frame : Option Frame := none
  submittedId : Nat := 0
  requestedWidth : Rat := 0
  resetImages : Bool := false
  dirty : Bool := true
  failed : Bool := false
  deriving DecidableEq, Repr

namespace Widget

def load (w : Widget) (html : String) : Widget :=
  { w with html := html, frame := none, failed := false, resetImages := true, dirty := true }

/-- `submit`: the job, which cannot be sent where the worker is gone. -/
def submit (w : Widget) (width : Rat) (gone : Bool) : Widget × RenderJob :=
  ({ w with
      submittedId := w.submittedId + 1
      resetImages := false
      requestedWidth := width
      dirty := false
      failed := w.failed || gone },
    { id := w.submittedId + 1, html := w.html, width := width, resetImages := w.resetImages })

/-- One turn of `poll`: what a superseded job brings is dropped. -/
def receive (w : Widget) : Output → Widget
  | .frame f => if f.id = w.submittedId then { w with frame := some f } else w
  | .failed id => if id = w.submittedId then { w with failed := true } else w

/-- Whether a paint at this width submits a job. -/
def wants (w : Widget) (width : Rat) : Bool :=
  w.dirty || 1 / 2 < width - w.requestedWidth || 1 / 2 < w.requestedWidth - width

end Widget

/-! ## 2. The worker -/

/-- Where the worker is in `Worker::run` and `Worker::render`. -/
inductive Phase
  /-- In `recv`. -/
  | idle
  /-- At the top of the loop. -/
  | pass (job : RenderJob) (passes : Nat)
  /-- Drawn, with images pending. -/
  | loading (job : RenderJob) (passes : Nat) (pending : List String)
  /-- It has panicked. -/
  | dead
  deriving DecidableEq, Repr

/-- The images about to be loaded. -/
def Phase.pending : Phase → List String
  | .loading _ _ pending => pending
  | .idle | .pass _ _ | .dead => []

/-- `newest_job`. -/
def newestJob (jobs : List RenderJob) : Option RenderJob :=
  jobs.getLast?.map fun job => { job with resetImages := jobs.any RenderJob.resetImages }

/-- The view.  The last three are not in the program: what litehtml asked for in the last draw pass, how
many jobs the worker has begun, and for which of them each draw pass was. -/
structure View where
  widget : Widget
  jobs : List RenderJob := []
  outputs : List Output := []
  latestId : Nat := 0
  /-- Whether `images::fetch` is installed. -/
  fetcher : Bool := false
  phase : Phase := .idle
  engine : Engine := {}
  /-- The images in the commands that were last recorded. -/
  recorded : List String := []
  resetImagesNext : Bool := false
  asked : List String := []
  taken : Nat := 0
  drawn : List Nat := []
  deriving DecidableEq, Repr

inductive Action
  | load (html : String)
  | paint (width : Rat)
  | setFetcher (installed : Bool)
  /-- The worker takes everything that is queued. -/
  | take
  /-- The superseded check and a draw pass, in which litehtml asks for images. -/
  | draw (parses : Bool) (asked : List String)
  /-- The pending images are loaded, with the network's answers. -/
  | fill (get : String → Option Bytes)

namespace View

/-- `paint_d2d`: submits if the page or the width has changed, THEN polls. -/
def paint (v : View) (width : Rat) : View :=
  let width := max width 1
  let gone : Bool := v.phase = .dead
  let v :=
    if v.widget.wants width then
      let r := v.widget.submit width gone
      { v with
        widget := r.1
        latestId := r.1.submittedId
        jobs := if gone then v.jobs else v.jobs ++ [r.2] }
    else v
  let widget := v.outputs.foldl Widget.receive v.widget
  { v with widget := { widget with failed := widget.failed || gone }, outputs := [] }

/-- `run` receives a job and everything behind it, and `render` starts.  (Where the job resets by
itself, the worker's own flag is not looked at, and stays.) -/
def take (v : View) : Option View :=
  match v.phase, newestJob v.jobs with
  | .idle, some job =>
    some { v with
      jobs := []
      phase := .pass job 0
      engine := if job.resetImages || v.resetImagesNext then v.engine.clearPendingImages else v.engine
      resetImagesNext := job.resetImages && v.resetImagesNext
      taken := v.taken + 1 }
  | _, _ => none

/-- `emit_frame`, which ends a job. -/
def emitFrame (v : View) (job : RenderJob) : View :=
  { v with
    phase := .idle
    outputs := v.outputs ++ [.frame ⟨job.id, job.html, job.width, v.recorded, v.asked⟩] }

/-- `draw_pass`: what litehtml asks for is noted, and what is there is recorded. -/
def drawPass (v : View) (asked : List String) : View :=
  { v with
    engine := asked.foldl Engine.loadImage v.engine
    recorded := asked.filter (v.engine.images.contains ·)
    asked := asked
    drawn := v.drawn ++ [v.taken] }

/-- The top of the loop, to the point where images may have to be loaded. -/
def draw (v : View) (parses : Bool) (asked : List String) : Option View :=
  match v.phase with
  | .pass job passes =>
    if maxPasses ≤ passes then some { v with phase := .idle }
    else if v.latestId ≠ job.id then some { v with phase := .idle, resetImagesNext := true }
    else
      let v := v.drawPass asked
      if parses then
        let pending := v.engine.pendingImages
        let v := { v with engine := { v.engine with pendingImages := [] } }
        if pending = [] ∨ passes + 1 = maxPasses then some (v.emitFrame job)
        else some { v with phase := .loading job (passes + 1) pending }
      else some { v with phase := .idle, outputs := v.outputs ++ [.failed job.id] }
  | _ => none

variable (decodeDataUri : String → Option Bytes) (decodes : Bytes → Bool)

/-- The bytes of one image: a `data:` URI has its own, any other URL goes to the fetcher, if there is
one; `none` is a panic. -/
def bytesFor (fetcher : Bool) (get : String → Option Bytes) (url : String) :
    Option (Option Bytes) :=
  match decodeDataUri url with
  | some bytes => some (some bytes)
  | none => if fetcher then fetch get url else some none

/-- The loop over the pending images: the engine then, and whether there were bytes for any. -/
def loadAll (bytes : String → Option (Option Bytes)) :
    Engine → Bool → List String → Option (Engine × Bool)
  | engine, loaded, [] => some (engine, loaded)
  | engine, loaded, url :: rest =>
    match bytes url with
    | none => none
    | some none => loadAll bytes engine loaded rest
    | some (some data) => loadAll bytes (engine.loadImageData url (decodes data)) true rest

/-- The rest of the loop. -/
def fill (v : View) (get : String → Option Bytes) : Option View :=
  match v.phase with
  | .loading job passes pending =>
    match loadAll decodes (bytesFor decodeDataUri v.fetcher get) v.engine false pending with
    | none => some { v with phase := .dead }
    | some (engine, true) => some { v with engine := engine, phase := .pass job passes }
    | some (engine, false) => some ({ v with engine := engine }.emitFrame job)
  | _ => none

def step (v : View) : Action → Option View
  | .load html => some { v with widget := v.widget.load html }
  | .paint width => some (v.paint width)
  | .setFetcher installed => some { v with fetcher := installed }
  | .take => v.take
  | .draw parses asked => v.draw parses asked
  | .fill get => v.fill decodeDataUri decodes get

def machine : Machine View Action :=
  ⟨fun v => ∃ html, v = { widget := { html := html } }, step decodeDataUri decodes⟩

/-! ## 3. What a step does to the phase -/

@[simp] theorem phase_paint (v : View) (width : Rat) : (v.paint width).phase = v.phase := by
  unfold paint
  dsimp only
  split <;> rfl

@[simp] theorem drawn_paint (v : View) (width : Rat) : (v.paint width).drawn = v.drawn := by
  unfold paint
  dsimp only
  split <;> rfl

@[simp] theorem taken_paint (v : View) (width : Rat) : (v.paint width).taken = v.taken := by
  unfold paint
  dsimp only
  split <;> rfl

/-- The state after a pass in which the page was laid out. -/
def laidOut (v : View) (asked : List String) : View :=
  { v.drawPass asked with engine := { (v.drawPass asked).engine with pendingImages := [] } }

/-- What the top of the loop can come to. -/
inductive Drawn (v : View) (parses : Bool) (asked : List String) (job : RenderJob) (passes : Nat) :
    View → Prop
  | overrun : maxPasses ≤ passes → Drawn v parses asked job passes { v with phase := .idle }
  | superseded : v.latestId ≠ job.id →
      Drawn v parses asked job passes { v with phase := .idle, resetImagesNext := true }
  | unparsed : passes < maxPasses → v.latestId = job.id → parses = false →
      Drawn v parses asked job passes
        { v.drawPass asked with phase := .idle, outputs := v.outputs ++ [.failed job.id] }
  | framed : passes < maxPasses → v.latestId = job.id → parses = true →
      ((v.drawPass asked).engine.pendingImages = [] ∨ passes + 1 = maxPasses) →
      Drawn v parses asked job passes ((v.laidOut asked).emitFrame job)
  | going : passes + 1 < maxPasses → v.latestId = job.id → parses = true →
      Drawn v parses asked job passes
        { v.laidOut asked with
          phase := .loading job (passes + 1) (v.drawPass asked).engine.pendingImages }

theorem draw_cases {v v' : View} {parses : Bool} {asked : List String}
    (h : v.draw parses asked = some v') :
    ∃ job passes, v.phase = .pass job passes ∧ Drawn v parses asked job passes v' := by
  unfold draw at h
  split at h
  · rename_i job passes hphase
    refine ⟨job, passes, hphase, ?_⟩
    dsimp only at h
    split_ifs at h with hmax hid hparses hend <;> obtain rfl := Option.some.inj h
    · exact .overrun hmax
    · exact .superseded hid
    · exact .framed (by omega) (not_not.mp hid) hparses hend
    · obtain ⟨-, hne⟩ := not_or.mp hend
      exact .going (by omega) (not_not.mp hid) hparses
    · exact .unparsed (by omega) (not_not.mp hid) (by simpa using hparses)
  · cases h

/-- What the rest of the loop can come to. -/
inductive Filled (v : View) (get : String → Option Bytes) (job : RenderJob) (passes : Nat)
    (pending : List String) : View → Prop
  | panicked : loadAll decodes (bytesFor decodeDataUri v.fetcher get) v.engine false pending = none →
      Filled v get job passes pending { v with phase := .dead }
  | again (engine : Engine) :
      loadAll decodes (bytesFor decodeDataUri v.fetcher get) v.engine false pending =
        some (engine, true) →
      Filled v get job passes pending { v with engine := engine, phase := .pass job passes }
  | framed (engine : Engine) :
      loadAll decodes (bytesFor decodeDataUri v.fetcher get) v.engine false pending =
        some (engine, false) →
      Filled v get job passes pending ({ v with engine := engine }.emitFrame job)

theorem fill_cases {v v' : View} {get : String → Option Bytes}
    (h : v.fill decodeDataUri decodes get = some v') :
    ∃ job passes pending, v.phase = .loading job passes pending ∧
      Filled decodeDataUri decodes v get job passes pending v' := by
  unfold fill at h
  split at h
  · rename_i job passes pending hphase
    refine ⟨job, passes, pending, hphase, ?_⟩
    split at h <;> obtain rfl := Option.some.inj h
    · exact .panicked ‹_›
    · exact .again _ ‹_›
    · exact .framed _ ‹_›
  · cases h

theorem take_cases {v v' : View} (h : v.take = some v') :
    ∃ job, v.phase = .idle ∧ newestJob v.jobs = some job ∧
      v' = { v with
        jobs := []
        phase := .pass job 0
        engine := if job.resetImages || v.resetImagesNext then v.engine.clearPendingImages
          else v.engine
        resetImagesNext := job.resetImages && v.resetImagesNext
        taken := v.taken + 1 } := by
  unfold take at h
  split at h
  · rename_i job hphase hjob
    exact ⟨job, hphase, hjob, (Option.some.inj h).symm⟩
  · cases h

/-- How many steps of the worker a job may still take. -/
def workLeft : Phase → Nat
  | .idle | .dead => 0
  | .pass _ passes => 2 * (maxPasses - passes) + 1
  | .loading _ passes _ => 2 * (maxPasses - passes) + 2

/-- A draw pass can always be made, and it brings the end of the job nearer. -/
theorem draw_returns {v : View} {job : RenderJob} {passes : Nat} (h : v.phase = .pass job passes)
    (parses : Bool) (asked : List String) :
    ∃ v', v.draw parses asked = some v' ∧ workLeft v'.phase < workLeft v.phase := by
  have hsome : (v.draw parses asked).isSome = true := by
    simp only [draw, h]
    split_ifs
    all_goals rfl
  obtain ⟨v', hv'⟩ := Option.isSome_iff_exists.mp hsome
  refine ⟨v', hv', ?_⟩
  obtain ⟨job', passes', hphase, hdrawn⟩ := draw_cases hv'
  obtain ⟨rfl, rfl⟩ := Phase.pass.inj (h.symm.trans hphase)
  rw [h]
  cases hdrawn <;> simp [workLeft, emitFrame]
  omega

/-- So can the loading of the images, whatever comes of it. -/
theorem fill_returns {v : View} {job : RenderJob} {passes : Nat} {pending : List String}
    (h : v.phase = .loading job passes pending) (get : String → Option Bytes) :
    ∃ v', v.fill decodeDataUri decodes get = some v' ∧ workLeft v'.phase < workLeft v.phase := by
  have hsome : (v.fill decodeDataUri decodes get).isSome = true := by
    simp only [fill, h]
    split <;> rfl
  obtain ⟨v', hv'⟩ := Option.isSome_iff_exists.mp hsome
  refine ⟨v', hv', ?_⟩
  obtain ⟨job', passes', pending', hphase, hfilled⟩ := fill_cases decodeDataUri decodes hv'
  obtain ⟨rfl, rfl, rfl⟩ := Phase.loading.inj (h.symm.trans hphase)
  rw [h]
  cases hfilled <;> simp [workLeft, emitFrame]

/-! ## 4. What stops the worker -/

variable {decodeDataUri decodes}

theorem loadAll_eq_none {bytes : String → Option (Option Bytes)} :
    ∀ {pending : List String} {engine : Engine} {loaded : Bool},
      loadAll decodes bytes engine loaded pending = none ↔ ∃ url ∈ pending, bytes url = none
  | [], engine, loaded => by simp [loadAll]
  | url :: rest, engine, loaded => by
    rw [loadAll]
    cases h : bytes url with
    | none => simp [h]
    | some data => cases data <;> simp [h, loadAll_eq_none]

theorem bytesFor_eq_none {fetcher : Bool} {get : String → Option Bytes} {url : String} :
    bytesFor decodeDataUri fetcher get url = none ↔
      fetcher = true ∧ decodeDataUri url = none ∧ ¬ Sliceable url.toList := by
  unfold bytesFor
  cases decodeDataUri url with
  | some data => simp
  | none => cases fetcher <;> simp [fetch_panics_iff]

variable (decodeDataUri decodes)

/-- Every URL that the step hands to the fetcher can be sliced. -/
def slicesWell (v : View) : Action → Prop
  | .fill _ => v.fetcher = true →
      ∀ url ∈ v.phase.pending, decodeDataUri url = none → Sliceable url.toList
  | .load _ | .paint _ | .setFetcher _ | .take | .draw _ _ => True

theorem not_slicesWell_fill {v : View} {job : RenderJob} {passes : Nat} {pending : List String}
    (hphase : v.phase = .loading job passes pending) {get : String → Option Bytes} :
    loadAll decodes (bytesFor decodeDataUri v.fetcher get) v.engine false pending = none ↔
      ¬ slicesWell decodeDataUri v (.fill get) := by
  rw [loadAll_eq_none]
  simp only [bytesFor_eq_none, slicesWell, hphase, Phase.pending]
  constructor
  · rintro ⟨url, hurl, hfetch, hdata, hslice⟩ hall
    exact hslice (hall hfetch url hurl hdata)
  · intro hall
    by_contra hex
    refine hall fun hfetch url hurl hdata => ?_
    by_contra hslice
    exact hex ⟨url, hurl, hfetch, hdata, hslice⟩

/-- The worker panics in a step exactly where that is not so. -/
theorem dead_iff {v v' : View} {a : Action} (hv : v.phase ≠ .dead)
    (h : v.step decodeDataUri decodes a = some v') :
    v'.phase = .dead ↔ ¬ slicesWell decodeDataUri v a := by
  cases a with
  | load html =>
    obtain rfl := Option.some.inj h
    simp [slicesWell, hv]
  | paint width =>
    obtain rfl := Option.some.inj h
    simp [slicesWell, hv]
  | setFetcher installed =>
    obtain rfl := Option.some.inj h
    simp [slicesWell, hv]
  | take =>
    obtain ⟨job, -, -, rfl⟩ := take_cases h
    simp [slicesWell]
  | draw parses asked =>
    obtain ⟨job, passes, -, hdrawn⟩ := draw_cases h
    cases hdrawn <;> simp [slicesWell, emitFrame]
  | fill get =>
    obtain ⟨job, passes, pending, hphase, hfilled⟩ := fill_cases decodeDataUri decodes h
    rw [← not_slicesWell_fill decodeDataUri decodes hphase]
    cases hfilled with
    | panicked hload => simp [hload]
    | again engine hload => simp [hload]
    | framed engine hload => simp [hload, emitFrame]

/-! ## 5. How often a job is drawn -/

/-- The passes made so far are of the jobs begun so far, at most `maxPasses` for each; those of the
job in hand are counted. -/
structure Counts (v : View) : Prop where
  begun : ∀ n ∈ v.drawn, n ≤ v.taken
  bound : ∀ n, v.drawn.count n ≤ maxPasses
  now : ∀ job passes, (v.phase = .pass job passes ∨ ∃ pending, v.phase = .loading job passes pending) →
    v.drawn.count v.taken = passes

/-- The counts do not depend on the rest of the state. -/
theorem Counts.congr {v v' : View} (hv : v.Counts) (hdrawn : v'.drawn = v.drawn)
    (htaken : v'.taken = v.taken) (hphase : ∀ job passes, (v'.phase = .pass job passes ∨
      ∃ pending, v'.phase = .loading job passes pending) →
      v.phase = .pass job passes ∨ ∃ pending, v.phase = .loading job passes pending) :
    v'.Counts where
  begun := by rw [hdrawn, htaken]; exact hv.begun
  bound := by rw [hdrawn]; exact hv.bound
  now := by
    rw [hdrawn, htaken]
    exact fun job passes h => hv.now job passes (hphase job passes h)

/-- One more pass of the job in hand. -/
theorem Counts.pass {v v' : View} (hv : v.Counts) {job : RenderJob} {passes : Nat}
    (hphase : v.phase = .pass job passes) (hlt : passes < maxPasses)
    (hdrawn : v'.drawn = v.drawn ++ [v.taken]) (htaken : v'.taken = v.taken)
    (hafter : ∀ job' passes', (v'.phase = .pass job' passes' ∨
      ∃ pending, v'.phase = .loading job' passes' pending) → passes' = passes + 1) : v'.Counts where
  begun := by
    rw [hdrawn, htaken]
    intro n hn
    rcases List.mem_append.mp hn with hn | hn
    · exact hv.begun n hn
    · exact Nat.le_of_eq (List.mem_singleton.mp hn)
  bound := by
    intro n
    have hnow := hv.now job passes (.inl hphase)
    have hn := hv.bound n
    rw [hdrawn, List.count_append, List.count_singleton]
    split
    · rename_i heq
      rw [← eq_of_beq heq, hnow]
      omega
    · omega
  now := by
    intro job' passes' h
    rw [hafter job' passes' h, hdrawn, htaken, List.count_append, hv.now job passes (.inl hphase)]
    simp

theorem counts_step {v v' : View} {a : Action} (hv : v.Counts)
    (h : v.step decodeDataUri decodes a = some v') : v'.Counts := by
  cases a with
  | load html =>
    obtain rfl := Option.some.inj h
    exact hv.congr rfl rfl fun _ _ h => h
  | paint width =>
    obtain rfl := Option.some.inj h
    exact hv.congr (drawn_paint v width) (taken_paint v width) (by simp)
  | setFetcher installed =>
    obtain rfl := Option.some.inj h
    exact hv.congr rfl rfl fun _ _ h => h
  | take =>
    obtain ⟨job, -, -, rfl⟩ := take_cases h
    refine ⟨fun n hn => Nat.le_succ_of_le (hv.begun n hn), hv.bound, ?_⟩
    intro job' passes hphase
    obtain ⟨-, rfl⟩ : job = job' ∧ 0 = passes := by simpa using hphase
    refine List.count_eq_zero_of_not_mem fun hmem => ?_
    have hle : v.taken + 1 ≤ v.taken := hv.begun _ hmem
    omega
  | draw parses asked =>
    obtain ⟨job, passes, hphase, hdrawn⟩ := draw_cases h
    cases hdrawn with
    | overrun => exact hv.congr rfl rfl (by simp)
    | superseded => exact hv.congr rfl rfl (by simp)
    | unparsed hlt => exact hv.pass hphase hlt rfl rfl (by simp)
    | framed hlt => exact hv.pass hphase hlt rfl rfl (by simp [emitFrame])
    | going hlt => exact hv.pass hphase (by omega) rfl rfl (by simp [eq_comm])
  | fill get =>
    obtain ⟨job, passes, pending, hphase, hfilled⟩ := fill_cases decodeDataUri decodes h
    cases hfilled with
    | panicked => exact hv.congr rfl rfl (by simp)
    | again engine =>
      refine hv.congr rfl rfl fun job' passes' h => .inr ⟨pending, ?_⟩
      obtain ⟨rfl, rfl⟩ : job = job' ∧ passes = passes' := by simpa using h
      exact hphase
    | framed engine => exact hv.congr rfl rfl (by simp [emitFrame])

theorem counts_of_reach {ok : View → Action → Prop} {v : View}
    (h : (machine decodeDataUri decodes).Reach ok v) : v.Counts := by
  refine Machine.Reach.invariant (P := Counts) ?_
    (fun v a v' _ hv _ hst => counts_step decodeDataUri decodes hv hst) h
  rintro _ ⟨html, rfl⟩
  exact ⟨by simp, by simp, by simp⟩

theorem alive_of_reach {v : View}
    (h : (machine decodeDataUri decodes).Reach (slicesWell decodeDataUri) v) : v.phase ≠ .dead := by
  refine Machine.Reach.invariant (P := fun v => v.phase ≠ .dead) ?_ ?_ h
  · rintro _ ⟨html, rfl⟩
    simp
  · intro v a v' _ hv hok hst hdead
    exact (dead_iff decodeDataUri decodes hv hst).mp hdead hok

/-! ## 6. The worker survives every URL that can be sliced -/

/-- `fetch` panics on a URL exactly where a character lies across the end of a scheme, and brings
nothing for any other than a web address.  In a run where no such URL is handed to it the worker never
panics, and in a step where one is, it does.  No job is drawn more than `maxPasses` times, and every
job comes to its end: a pass and the loading of its images can always be made, and leave less to do. -/
theorem worker_survives :
    (∀ (get : String → Option Bytes) (url : String),
      (fetch get url = none ↔ ¬ Sliceable url.toList) ∧
        (Sliceable url.toList → ¬ HasScheme url.toList http → ¬ HasScheme url.toList https →
          fetch get url = some none)) ∧
    (∀ v, (machine decodeDataUri decodes).Reach (slicesWell decodeDataUri) v → v.phase ≠ .dead) ∧
    (∀ v a v', (machine decodeDataUri decodes).Reach Machine.any v → v.phase ≠ .dead →
      v.step decodeDataUri decodes a = some v' →
        (v'.phase = .dead ↔ ¬ slicesWell decodeDataUri v a)) ∧
    (∀ v, (machine decodeDataUri decodes).Reach Machine.any v →
      ∀ n, v.drawn.count n ≤ maxPasses) ∧
    (∀ (v : View) (job : RenderJob) (passes : Nat), v.phase = .pass job passes →
      ∀ parses asked, ∃ v', v.step decodeDataUri decodes (.draw parses asked) = some v' ∧
        workLeft v'.phase < workLeft v.phase) ∧
    ∀ (v : View) (job : RenderJob) (passes : Nat) (pending : List String),
      v.phase = .loading job passes pending →
        ∀ get, ∃ v', v.step decodeDataUri decodes (.fill get) = some v' ∧
          workLeft v'.phase < workLeft v.phase := by
  refine ⟨fun get url => ⟨fetch_panics_iff get url, fetch_nothing⟩,
    fun v h => alive_of_reach decodeDataUri decodes h,
    fun v a v' _ hv h => dead_iff decodeDataUri decodes hv h,
    fun v h => (counts_of_reach decodeDataUri decodes h).bound,
    fun v job passes h => draw_returns h,
    fun v job passes pending h => fill_returns decodeDataUri decodes h⟩

/-- A picture beside the page, in a directory of its own, with a letter that is not ASCII. -/
def relativeUrl : String := "images/é.png"

/-- With remote images allowed, such a picture stops the worker. -/
theorem relative_url_panics :
    ¬ ∀ (decodeDataUri : String → Option Bytes) (decodes : Bytes → Bool) (v : View),
      (machine decodeDataUri decodes).Reach Machine.any v → v.phase ≠ .dead := by
  intro hall
  obtain ⟨v, hr, hp⟩ := Machine.exists_reach_of_trace (machine (fun _ => none) fun _ => false)
    Machine.any
    [.setFetcher true, .paint 600, .take, .draw true [relativeUrl], .fill fun _ => none]
    (fun v => v.phase = .dead) ⟨"<img src=\"images/é.png\">", rfl⟩ (by decide)
  exact hall _ _ v hr (of_decide_eq_true hp)

instance (v : View) : (a : Action) → Decidable (slicesWell decodeDataUri v a)
  | .fill _ => inferInstanceAs (Decidable (_ → ∀ url ∈ v.phase.pending, _ → _))
  | .load _ | .paint _ | .setFetcher _ | .take | .draw _ _ => isTrue trivial

/-- A picture on the web is fetched, and the page is drawn again with it. -/
theorem worker_survives_fetch : ∃ v : View,
    (machine (fun _ => none) fun _ => true).Reach (slicesWell fun _ => none) v ∧
      v.drawn = [1, 1] ∧ v.phase ≠ .dead := by
  obtain ⟨v, hr, hp⟩ := Machine.exists_reach_of_trace (machine (fun _ => none) fun _ => true)
    (slicesWell fun _ => none)
    [.setFetcher true, .paint 600, .take, .draw true ["HTTPS://example.org/é.png"],
      .fill fun _ => some [1], .draw true ["HTTPS://example.org/é.png"]]
    (fun v => v.drawn = [1, 1]) ⟨"<img src=\"HTTPS://example.org/é.png\">", rfl⟩
    (by decide)
  exact ⟨v, hr, of_decide_eq_true hp,
    (worker_survives (fun _ => none) fun _ => true).2.1 v hr⟩

end View

end Esmail.HtmlView
