/-
# The two models of the render thread are one

`Reading/Render.lean` and `Reading/View.lean` both have the worker of `worker.rs`.  The first stops
between the images of a pass, as what is fetched for which page depends on when the slot is read; the
second takes the rest of a pass in one step, as it follows what is drawn, and the panics.

`SameWorker` says that the two are at the same point with the same jobs, images and outputs.  They are so
at the start (`fresh`), and stay so where the UI thread submits a job to both or installs the fetcher in
both; and `worker_steps` says that what the worker of the view does in a step, the worker of the viewer
does in one or several.  A panic is left out; the viewer has none.  How a page is written as HTML is a
parameter, and so is which URLs are `data:` URIs, which the viewer knows no more of.

So what `Render` proves of the requests that are made is about the worker that `View` and `Frames` follow.
What the UI threads of the two do is not compared: the one has the reader behind it, the other the widget.
-/
import Mathlib.Logic.Relation
import Esmail.Reading.View

namespace Esmail.HtmlView

open Transition Images

/-! ## 1. The same point -/

section

variable (html : Page → String)

def jobOf (job : Esmail.RenderJob) : RenderJob := ⟨job.id, html job.page, job.width, job.resetImages⟩

/-- The phase as the view has it; it does not stop between two images. -/
def phaseOf : Esmail.Phase → Option Phase
  | .idle => some .idle
  | .pass job passes => some (.pass (jobOf html job) passes)
  | .drawn job passes pending => some (.loading (jobOf html job) passes pending)
  | .loading .. => none

/-- Which job an output ends, and whether with a frame. -/
def Output.ends : Output → Nat × Bool
  | .frame f => (f.id, true)
  | .failed id => (id, false)

def viewerEnds : Esmail.Output → Nat × Bool
  | .frame id _ => (id, true)
  | .failed id => (id, false)

structure SameWorker (w : Viewer) (v : View) : Prop where
  jobs : v.jobs = w.jobs.map (jobOf html)
  latestId : v.latestId = w.latestId
  fetcher : v.fetcher = w.pane.fetcher
  phase : phaseOf html w.phase = some v.phase
  engine : v.engine = w.engine
  resetImagesNext : v.resetImagesNext = w.resetImagesNext
  outputs : v.outputs.map Output.ends = w.outputs.map viewerEnds
  /-- The loop is left after `MAX_PASSES`, before it is gone through again. -/
  passes : ∀ job passes, (v.phase = .pass job passes ∨ ∃ pending, v.phase = .loading job passes pending) →
    passes < maxPasses

theorem newestJob_map (jobs : List Esmail.RenderJob) :
    newestJob (jobs.map (jobOf html)) = (Esmail.newestJob jobs).map (jobOf html) := by
  have hany : (jobs.map (jobOf html)).any RenderJob.resetImages = jobs.any Esmail.RenderJob.resetImages := by
    rw [List.any_map]
    rfl
  rw [newestJob, Esmail.newestJob, List.getLast?_map, hany, Option.map_map, Option.map_map]
  rfl

end

/-! ## 2. Jobs and draw passes -/

variable {html : Page → String} {w : Viewer} {v v' : View}

theorem SameWorker.fresh (p : Pane) (page : String) :
    SameWorker html { pane := p } { widget := { html := page }, fetcher := p.fetcher } :=
  ⟨rfl, rfl, rfl, rfl, rfl, rfl, rfl, by simp⟩

/-- The UI thread submits a job. -/
theorem SameWorker.submit (h : SameWorker html w v) (job : Esmail.RenderJob) :
    SameWorker html { w with jobs := w.jobs ++ [job], latestId := job.id }
      { v with jobs := v.jobs ++ [jobOf html job], latestId := job.id } := by
  refine { h with jobs := ?_, latestId := rfl }
  rw [List.map_append, h.jobs]
  rfl

/-- The UI thread installs the fetcher, or takes it away. -/
theorem SameWorker.setFetcher (h : SameWorker html w v) (p : Pane) :
    SameWorker html { w with pane := p } { v with fetcher := p.fetcher } := { h with fetcher := rfl }

theorem phase_of_idle (h : SameWorker html w v) (hv : v.phase = .idle) : w.phase = .idle := by
  have hphase := h.phase
  rw [hv] at hphase
  cases hw : w.phase <;> rw [hw] at hphase <;> simp [phaseOf] at hphase

theorem phase_of_pass (h : SameWorker html w v) {job : RenderJob} {passes : Nat}
    (hv : v.phase = .pass job passes) : ∃ job', w.phase = .pass job' passes ∧ jobOf html job' = job := by
  have hphase := h.phase
  rw [hv] at hphase
  cases hw : w.phase <;> rw [hw] at hphase <;> simp [phaseOf] at hphase
  obtain ⟨hjob, rfl⟩ := hphase
  exact ⟨_, rfl, hjob⟩

theorem phase_of_loading (h : SameWorker html w v) {job : RenderJob} {passes : Nat} {pending : List String}
    (hv : v.phase = .loading job passes pending) :
    ∃ job', w.phase = .drawn job' passes pending ∧ jobOf html job' = job := by
  have hphase := h.phase
  rw [hv] at hphase
  cases hw : w.phase <;> rw [hw] at hphase <;> simp [phaseOf] at hphase
  obtain ⟨hjob, rfl, rfl⟩ := hphase
  exact ⟨_, rfl, hjob⟩

theorem SameWorker.take (h : SameWorker html w v) (hstep : v.take = some v') :
    ∃ w', w.takeJobs = some w' ∧ SameWorker html w' v' := by
  obtain ⟨job, hidle, hnewest, rfl⟩ := View.take_cases hstep
  rw [h.jobs, newestJob_map] at hnewest
  obtain ⟨job', hnewest', rfl⟩ := Option.map_eq_some_iff.mp hnewest
  refine ⟨_, by rw [Viewer.takeJobs, phase_of_idle h hidle, hnewest'], ?_⟩
  refine { h with jobs := rfl, phase := rfl, engine := ?_, resetImagesNext := ?_, passes := ?_ }
  · rw [h.engine, h.resetImagesNext]
    rfl
  · rw [h.resetImagesNext]
    rfl
  · rintro job passes (hpass | ⟨pending, hloading⟩)
    · obtain ⟨-, rfl⟩ := Phase.pass.inj hpass
      decide
    · exact absurd hloading (by simp)

theorem ends_append {outputs : List Output} {outputs' : List Esmail.Output}
    (h : outputs.map Output.ends = outputs'.map viewerEnds) {o : Output} {o' : Esmail.Output}
    (ho : o.ends = viewerEnds o') :
    (outputs ++ [o]).map Output.ends = (outputs' ++ [o']).map viewerEnds := by
  rw [List.map_append, List.map_append, h, List.map_singleton, List.map_singleton, ho]

theorem not_pass_idle : ∀ job passes, ((Phase.idle : Phase) = .pass job passes ∨
    ∃ pending, (Phase.idle : Phase) = .loading job passes pending) → passes < maxPasses := by simp

theorem SameWorker.emitFrame (h : SameWorker html w v) (job : Esmail.RenderJob) :
    SameWorker html (w.emitFrame job) (v.emitFrame (jobOf html job)) :=
  { h with phase := rfl, outputs := ends_append h.outputs rfl, passes := not_pass_idle }

theorem SameWorker.draw (h : SameWorker html w v) {parses : Bool} {asked : List String}
    (hstep : v.draw parses asked = some v') : ∃ w', w.draw parses asked = some w' ∧ SameWorker html w' v' := by
  unfold View.draw at hstep
  split at hstep
  · next job passes hphase =>
    obtain ⟨job', hphase', rfl⟩ := phase_of_pass h hphase
    have hpasses := h.passes _ _ (.inl hphase)
    have hlatest : v.latestId = (jobOf html job').id ↔ w.latestId = job'.id := by rw [h.latestId]; rfl
    have hengine : (v.drawPass asked).engine = asked.foldl Engine.loadImage w.engine := by
      rw [← h.engine]
      rfl
    dsimp only at hstep
    rw [if_neg (Nat.not_le.mpr hpasses)] at hstep
    simp only [Viewer.draw, hphase']
    by_cases hid : w.latestId = job'.id
    · rw [if_neg (not_not.mpr (hlatest.mpr hid))] at hstep
      rw [if_neg (not_not.mpr hid)]
      cases parses with
      | false =>
        obtain rfl := Option.some.inj hstep
        exact ⟨_, rfl, { h with
          phase := rfl, engine := hengine, outputs := ends_append h.outputs rfl, passes := not_pass_idle }⟩
      | true =>
        rw [if_pos rfl, hengine] at hstep
        rw [if_pos rfl]
        split at hstep
        · next hend =>
          obtain rfl := Option.some.inj hstep
          rw [if_pos hend]
          have hdrawn : SameWorker html
              { w with
                phase := .pass job' passes
                engine := { asked.foldl Engine.loadImage w.engine with pendingImages := [] } }
              { v.drawPass asked with
                engine := { asked.foldl Engine.loadImage w.engine with pendingImages := [] } } :=
            { h with phase := congrArg some hphase.symm, engine := rfl }
          exact ⟨_, rfl, hdrawn.emitFrame job'⟩
        · next hend =>
          obtain rfl := Option.some.inj hstep
          rw [if_neg hend]
          refine ⟨_, rfl, { h with phase := rfl, engine := rfl, passes := ?_ }⟩
          rintro job passes' (hpass | ⟨pending, hloading⟩)
          · exact absurd hpass (by simp)
          · obtain ⟨-, rfl, -⟩ := Phase.loading.inj hloading
            exact Nat.lt_of_le_of_ne hpasses (not_or.mp hend).2
    · rw [if_pos (mt hlatest.mp hid)] at hstep
      obtain rfl := Option.some.inj hstep
      rw [if_pos hid]
      exact ⟨_, rfl, { h with phase := rfl, resetImagesNext := rfl, passes := not_pass_idle }⟩
  · exact absurd hstep (by simp)

/-! ## 3. The images of a pass -/

variable {decodeDataUri : String → Option Bytes} {decodes : Bytes → Bool} {isDataUri : String → Bool}

/-- One step of the viewer, whichever. -/
def Steps (isDataUri : String → Bool) (w w' : Viewer) : Prop := ∃ a, w.step isDataUri a = some w'

/-- The loop over the images, one after the other.  The induction is on the images that are left. -/
theorem steps_loadAll (hdata : ∀ url, isDataUri url = (decodeDataUri url).isSome) {get : String → Option Bytes}
    {job : Esmail.RenderJob} {passes : Nat} {fetcher : Bool} {pending : List String} :
    ∀ {loaded : Bool} {w : Viewer} {engine : Engine} {loaded' : Bool},
      w.phase = .loading job passes fetcher pending loaded →
      View.loadAll decodes (View.bytesFor decodeDataUri fetcher get) w.engine loaded pending =
        some (engine, loaded') →
      ∃ fetched, Relation.ReflTransGen (Steps isDataUri) w { w with
        phase := .loading job passes fetcher [] loaded', engine := engine, fetched := fetched } := by
  induction pending with
  | nil =>
    intro loaded w engine loaded' hphase hload
    obtain ⟨rfl, rfl⟩ := Prod.mk.inj (Option.some.inj hload)
    refine ⟨w.fetched, ?_⟩
    rw [← hphase]
  | cons url rest ih =>
    intro loaded w engine loaded' hphase hload
    -- One image: its bytes, if there are any, are given to the engine.
    have hstep : ∀ bytes decodes : Bool, ∃ w₁, Steps isDataUri w w₁ ∧
        w₁.phase = .loading job passes fetcher rest (loaded || (isDataUri url || (fetcher && bytes))) ∧
        w₁.engine = (if isDataUri url || (fetcher && bytes) then w.engine.loadImageData url decodes
          else w.engine) ∧
        ∀ phase engine fetched, { w₁ with phase := phase, engine := engine, fetched := fetched } =
          { w with phase := phase, engine := engine, fetched := fetched } := by
      intro bytes decodes
      refine ⟨_, ⟨.loadNext bytes decodes, by simp only [Viewer.step, Viewer.loadNext, hphase]; rfl⟩, ?_⟩
      exact ⟨rfl, rfl, fun _ _ _ => rfl⟩
    unfold View.loadAll at hload
    split at hload
    · exact absurd hload (by simp)
    · next hnone =>
      have hgot : (isDataUri url || (fetcher && false)) = false := by
        rw [hdata, Bool.and_false, Bool.or_false]
        cases huri : decodeDataUri url with
        | none => rfl
        | some bytes => simp [View.bytesFor, huri] at hnone
      obtain ⟨w₁, hfirst, hphase₁, hengine₁, hsame⟩ := hstep false false
      rw [hgot, Bool.or_false] at hphase₁
      rw [hgot, if_neg Bool.false_ne_true] at hengine₁
      rw [← hengine₁] at hload
      obtain ⟨fetched, hrest⟩ := ih hphase₁ hload
      exact ⟨fetched, .head hfirst (hsame _ _ _ ▸ hrest)⟩
    · next data hsome =>
      have hgot : (isDataUri url || (fetcher && true)) = true := by
        rw [hdata, Bool.and_true, Bool.or_eq_true]
        cases huri : decodeDataUri url with
        | some bytes => exact .inl rfl
        | none =>
          refine .inr ?_
          cases fetcher with
          | true => rfl
          | false => simp [View.bytesFor, huri] at hsome
      obtain ⟨w₁, hfirst, hphase₁, hengine₁, hsame⟩ := hstep true (decodes data)
      rw [hgot, Bool.or_true] at hphase₁
      rw [hgot, if_pos rfl] at hengine₁
      rw [← hengine₁] at hload
      obtain ⟨fetched, hrest⟩ := ih hphase₁ hload
      exact ⟨fetched, .head hfirst (hsame _ _ _ ▸ hrest)⟩

theorem SameWorker.fill (hdata : ∀ url, isDataUri url = (decodeDataUri url).isSome)
    (h : SameWorker html w v) {get : String → Option Bytes} (hstep : v.fill decodeDataUri decodes get = some v')
    (halive : v'.phase ≠ .dead) :
    ∃ w', Relation.ReflTransGen (Steps isDataUri) w w' ∧ SameWorker html w' v' := by
  obtain ⟨job, passes, pending, hphase, hfilled⟩ := View.fill_cases decodeDataUri decodes hstep
  obtain ⟨job', hphase', rfl⟩ := phase_of_loading h hphase
  have hpasses := h.passes _ _ (.inr ⟨_, hphase⟩)
  -- The slot is read, the images are gone through, and the pass is over.
  have hread : Steps isDataUri w { w with phase := .loading job' passes w.pane.fetcher pending false } :=
    ⟨.readFetcher, by simp only [Viewer.step, Viewer.readFetcher, hphase']⟩
  have hloads : ∀ {engine loaded},
      View.loadAll decodes (View.bytesFor decodeDataUri v.fetcher get) v.engine false pending =
        some (engine, loaded) → ∃ fetched, Relation.ReflTransGen (Steps isDataUri) w { w with
          phase := .loading job' passes w.pane.fetcher [] loaded, engine := engine, fetched := fetched } := by
    intro engine loaded hload
    rw [h.fetcher, h.engine] at hload
    obtain ⟨fetched, hsteps⟩ := steps_loadAll hdata
      (w := { w with phase := .loading job' passes w.pane.fetcher pending false }) rfl hload
    exact ⟨fetched, .head hread hsteps⟩
  cases hfilled with
  | panicked hload => exact absurd rfl halive
  | again engine hload =>
    obtain ⟨fetched, hsteps⟩ := hloads hload
    refine ⟨{ w with phase := .pass job' passes, engine := engine, fetched := fetched },
      hsteps.tail ⟨.finishPass, rfl⟩, { h with phase := rfl, engine := rfl, passes := ?_ }⟩
    rintro job passes' (hpass | ⟨pending, hloading⟩)
    · obtain ⟨-, rfl⟩ := Phase.pass.inj hpass
      exact hpasses
    · exact absurd hloading (by simp)
  | framed engine hload =>
    obtain ⟨fetched, hsteps⟩ := hloads hload
    have hfilled : SameWorker html { w with engine := engine, fetched := fetched }
        { v with engine := engine } := { h with engine := rfl }
    exact ⟨_, hsteps.tail ⟨.finishPass, rfl⟩, hfilled.emitFrame job'⟩

/-! ## 4. Every step of the worker -/

/-- What the worker does in a step of the view, the worker of the viewer does in one or several, unless
it panics: the two then are at the same point again. -/
theorem worker_steps (hdata : ∀ url, isDataUri url = (decodeDataUri url).isSome) (h : SameWorker html w v)
    {a : Action} (ha : a = .take ∨ (∃ parses asked, a = .draw parses asked) ∨ ∃ get, a = .fill get)
    (hstep : v.step decodeDataUri decodes a = some v') (halive : v'.phase ≠ .dead) :
    ∃ w', Relation.ReflTransGen (Steps isDataUri) w w' ∧ SameWorker html w' v' := by
  rcases ha with rfl | ⟨parses, asked, rfl⟩ | ⟨get, rfl⟩
  · obtain ⟨w', hw', hsame⟩ := h.take hstep
    exact ⟨w', .single ⟨.takeJobs, hw'⟩, hsame⟩
  · obtain ⟨w', hw', hsame⟩ := h.draw hstep
    exact ⟨w', .single ⟨.draw parses asked, hw'⟩, hsame⟩
  · exact h.fill hdata hstep halive

end Esmail.HtmlView
