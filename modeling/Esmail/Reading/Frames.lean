/-
# The frames that are shown

Three things about the view, over every order of loads, resizes and steps of the worker, are put together in
`superseded_renders_lose_nothing`:

* a frame that is shown is of the page that is loaded: results carry the number of their job, and a paint
  submits the loaded page before it looks at results (`Honest`);
* once the worker has nothing to do, the newest job has its answer, shown or under way (`Delivered`);
* a frame has every image that its page asks for and that is a `data:` URI with an image in it
  (`Complete`), as long as the passes of one job ask for the same images (`asksAlike`).

The third rests on the container: an image that has been asked for and is to be had is there, or pending
(`Remembered`), however many jobs have been begun, collapsed or given up in between.  What the loop over
the pending images leaves is said once (`Loaded`), by induction on them.

For the other two a step of the worker is one of four (`Fate`): the job in hand goes on, ends with an
output, is given up as superseded, or the worker panics.  A job that is given up has a newer one behind
it, so that nothing is owed to it any more.

Images that come over the network are not among these: whether they arrive is up to the server.
-/
import Esmail.Reading.View

namespace Esmail.HtmlView

open Transition Images

/-- In the middle of a job: after its first draw pass. -/
def Phase.drawn : Phase → Bool
  | .pass _ passes => 0 < passes
  | .loading _ _ _ => true
  | .idle | .dead => false

/-- The job that the worker has in hand. -/
def Phase.job : Phase → Option RenderJob
  | .pass job _ | .loading job _ _ => some job
  | .idle | .dead => none

def Output.id : Output → Nat
  | .frame f => f.id
  | .failed id => id

/-- The newest job of the widget has its answer: a frame that is shown, or a failure. -/
def Widget.Answered (w : Widget) : Prop :=
  w.failed = true ∨ ∃ f, w.frame = some f ∧ f.id = w.submittedId

namespace View

/-! ## 1. The container -/

section Container

variable {asked : List String}

@[simp] theorem images_loadImage (e : Engine) (src : String) : (e.loadImage src).images = e.images := by
  unfold Engine.loadImage
  split <;> rfl

theorem images_asked (e : Engine) : (asked.foldl Engine.loadImage e).images = e.images := by
  induction asked generalizing e with
  | nil => rfl
  | cons src asked ih => rw [List.foldl_cons, ih, images_loadImage]

theorem mem_requested_loadImage {e : Engine} {src url : String} :
    url ∈ (e.loadImage src).requestedImages ↔
      url ∈ e.requestedImages ∨ url = src ∧ src ≠ "" ∧ src ∉ e.images := by
  unfold Engine.loadImage
  by_cases hreq : src ∈ e.requestedImages
  · rw [if_pos (by simp [hreq])]
    exact ⟨.inl, by rintro (h | ⟨rfl, -, -⟩) <;> assumption⟩
  · split
    · rename_i h
      simp only [List.contains_eq_mem, decide_eq_true_eq, hreq, or_false] at h
      rcases h with rfl | h <;> simp_all
    · rename_i h
      simp only [List.contains_eq_mem, decide_eq_true_eq, not_or] at h
      simp [h.1, h.2.1, or_comm]

theorem mem_pending_loadImage {e : Engine} {src url : String} :
    url ∈ (e.loadImage src).pendingImages ↔
      url ∈ e.pendingImages ∨ url = src ∧ src ≠ "" ∧ src ∉ e.images ∧ src ∉ e.requestedImages := by
  unfold Engine.loadImage
  split
  · rename_i h
    simp only [List.contains_eq_mem, decide_eq_true_eq] at h
    rcases h with rfl | h | h <;> simp_all
  · rename_i h
    simp only [List.contains_eq_mem, decide_eq_true_eq, not_or] at h
    simp [h.1, h.2.1, h.2.2]

/-- What is asked for is remembered, unless it is there. -/
theorem mem_requested_asked {e : Engine} {url : String} :
    url ∈ (asked.foldl Engine.loadImage e).requestedImages ↔
      url ∈ e.requestedImages ∨ url ∈ asked ∧ url ≠ "" ∧ url ∉ e.images := by
  induction asked generalizing e with
  | nil => simp
  | cons src asked ih =>
    rw [List.foldl_cons, ih, mem_requested_loadImage, images_loadImage]
    by_cases hsrc : url = src
    · subst hsrc
      simp only [List.mem_cons, true_or, true_and]
      tauto
    · simp [hsrc]

/-- And it is pending, if it was not remembered before. -/
theorem mem_pending_asked {e : Engine} {url : String} :
    url ∈ (asked.foldl Engine.loadImage e).pendingImages ↔
      url ∈ e.pendingImages ∨
        url ∈ asked ∧ url ≠ "" ∧ url ∉ e.images ∧ url ∉ e.requestedImages := by
  induction asked generalizing e with
  | nil => simp
  | cons src asked ih =>
    rw [List.foldl_cons, ih, mem_pending_loadImage, images_loadImage, mem_requested_loadImage]
    by_cases hsrc : url = src
    · subst hsrc
      simp only [List.mem_cons, true_or, true_and]
      tauto
    · simp [hsrc]

end Container

/-! ## 2. Images that are to be had -/

variable (decodeDataUri : String → Option Bytes) (decodes : Bytes → Bool)

/-- The URL has bytes of its own, and they are an image. -/
def Decodable (url : String) : Prop :=
  url ≠ "" ∧ ∃ bytes, decodeDataUri url = some bytes ∧ decodes bytes = true

/-- Every image the frame's page asks for and that is to be had is in it. -/
def Complete (f : Frame) : Prop :=
  ∀ url ∈ f.asked, Decodable decodeDataUri decodes url → url ∈ f.pictures

variable {decodeDataUri decodes}

theorem images_loadImageData {e : Engine} {src url : String} {ok : Bool} :
    url ∈ (e.loadImageData src ok).images ↔ url ∈ e.images ∨ url = src ∧ ok = true := by
  unfold Engine.loadImageData
  split
  · rename_i h
    simp only [List.contains_eq_mem, decide_eq_true_eq, Bool.not_eq_true] at h
    rcases h with h | rfl
    · exact ⟨.inl, by rintro (h' | ⟨rfl, -⟩) <;> assumption⟩
    · simp
  · rename_i h
    simp only [List.contains_eq_mem, decide_eq_true_eq, not_or, not_not] at h
    simp [h.2, or_comm]

@[simp] theorem requested_loadImageData (e : Engine) (src : String) (ok : Bool) :
    (e.loadImageData src ok).requestedImages = e.requestedImages := by
  unfold Engine.loadImageData
  split <;> rfl

@[simp] theorem pending_loadImageData (e : Engine) (src : String) (ok : Bool) :
    (e.loadImageData src ok).pendingImages = e.pendingImages := by
  unfold Engine.loadImageData
  split <;> rfl

/-- What the loop over the pending images leaves: nothing is forgotten, what is there stays, and
what has bytes that are an image is there. -/
structure Loaded (e e' : Engine) : Prop where
  requested : e'.requestedImages = e.requestedImages
  pending : e'.pendingImages = e.pendingImages
  kept : ∀ url ∈ e.images, url ∈ e'.images

theorem Loaded.trans {e1 e2 e3 : Engine} (h : Loaded e1 e2) (h' : Loaded e2 e3) : Loaded e1 e3 :=
  ⟨h'.requested.trans h.requested, h'.pending.trans h.pending,
    fun url hurl => h'.kept url (h.kept url hurl)⟩

theorem loaded_loadImageData (e : Engine) (src : String) (ok : Bool) :
    Loaded e (e.loadImageData src ok) :=
  ⟨requested_loadImageData e src ok, pending_loadImageData e src ok,
    fun _ hurl => images_loadImageData.mpr (.inl hurl)⟩

theorem loadAll_loaded {bytes : String → Option (Option Bytes)} :
    ∀ {pending : List String} {e e' : Engine} {loaded loaded' : Bool},
      loadAll decodes bytes e loaded pending = some (e', loaded') →
        Loaded e e' ∧ ∀ url ∈ pending, ∀ data, bytes url = some (some data) →
          decodes data = true → url ∈ e'.images
  | [], e, e', loaded, loaded', h => by
    obtain ⟨rfl, -⟩ : e = e' ∧ loaded = loaded' := by simpa [loadAll] using h
    exact ⟨⟨rfl, rfl, fun _ hurl => hurl⟩, by simp⟩
  | src :: rest, e, e', loaded, loaded', h => by
    rw [loadAll] at h
    cases hb : bytes src with
    | none => simp [hb] at h
    | some data? =>
      cases data? with
      | none =>
        simp only [hb] at h
        obtain ⟨hl, hall⟩ := loadAll_loaded h
        refine ⟨hl, fun url hurl data hdata hok => ?_⟩
        rcases List.mem_cons.mp hurl with rfl | hurl
        · simp [hb] at hdata
        · exact hall url hurl data hdata hok
      | some data =>
        simp only [hb] at h
        obtain ⟨hl, hall⟩ := loadAll_loaded h
        refine ⟨(loaded_loadImageData e src _).trans hl, fun url hurl data' hdata hok => ?_⟩
        rcases List.mem_cons.mp hurl with rfl | hurl
        · obtain rfl : data = data' := by simpa [hb] using hdata
          exact hl.kept url (images_loadImageData.mpr (.inr ⟨rfl, hok⟩))
        · exact hall url hurl data' hdata hok

/-- Where nothing was loaded, there were bytes for nothing, and nothing has changed. -/
theorem loadAll_nothing {bytes : String → Option (Option Bytes)} :
    ∀ {pending : List String} {e e' : Engine} {loaded : Bool},
      loadAll decodes bytes e loaded pending = some (e', false) →
        loaded = false ∧ e' = e ∧ ∀ url ∈ pending, bytes url = some none
  | [], e, e', loaded, h => by
    obtain ⟨rfl, rfl⟩ : e = e' ∧ loaded = false := by simpa [loadAll] using h
    exact ⟨rfl, rfl, by simp⟩
  | src :: rest, e, e', loaded, h => by
    rw [loadAll] at h
    cases hb : bytes src with
    | none => simp [hb] at h
    | some data? =>
      cases data? with
      | none =>
        simp only [hb] at h
        obtain ⟨hl, he, hall⟩ := loadAll_nothing h
        exact ⟨hl, he, List.forall_mem_cons.mpr ⟨hb, hall⟩⟩
      | some data =>
        simp only [hb] at h
        exact absurd (loadAll_nothing h).1 (by simp)

theorem bytesFor_decodable {fetcher : Bool} {get : String → Option Bytes} {url : String}
    (h : Decodable decodeDataUri decodes url) :
    ∃ data, bytesFor decodeDataUri fetcher get url = some (some data) ∧ decodes data = true := by
  obtain ⟨-, data, hdata, hok⟩ := h
  exact ⟨data, by simp [bytesFor, hdata], hok⟩

/-! ## 3. What the container remembers -/

variable (decodeDataUri decodes)

/-- Every image that was asked for and is to be had is there or pending, as long as the worker is
alive; after a pass nothing is left
pending but what the worker has in hand, and what the pass asked for is remembered or there; what
was recorded is all that was there.  And no frame lacks anything. -/
structure Remembered (v : View) : Prop where
  known : v.phase ≠ .dead → ∀ url ∈ v.engine.requestedImages, Decodable decodeDataUri decodes url →
    url ∈ v.engine.images ∨ url ∈ v.engine.pendingImages ∨ url ∈ v.phase.pending
  taken : v.phase.drawn = true → v.engine.pendingImages = []
  asked : v.phase.drawn = true → ∀ url ∈ v.asked, url ≠ "" →
    url ∈ v.engine.images ∨ url ∈ v.engine.requestedImages
  recorded : ∀ job passes pending, v.phase = .loading job passes pending →
    ∀ url ∈ v.asked, url ∈ v.engine.images → url ∈ v.recorded
  shown : ∀ f, v.widget.frame = some f → Complete decodeDataUri decodes f
  sent : ∀ f, .frame f ∈ v.outputs → Complete decodeDataUri decodes f

/-- The passes of one job ask for the same images. -/
def asksAlike (v : View) : Action → Prop
  | .draw true asked => v.phase.drawn = true →
      (∀ url ∈ asked, url ∈ v.asked) ∧ ∀ url ∈ v.asked, url ∈ asked
  | .draw false _ | .load _ | .paint _ | .setFetcher _ | .take | .fill _ => True

variable {decodeDataUri decodes}

/-- What `poll` makes of a widget: it shows a frame only after it was sent, for the newest job, and
once anything was sent for that job, the job has its answer. -/
structure Received (w w' : Widget) (outputs : List Output) : Prop where
  html : w'.html = w.html
  submittedId : w'.submittedId = w.submittedId
  dirty : w'.dirty = w.dirty
  frame : ∀ f, w'.frame = some f →
    w.frame = some f ∨ .frame f ∈ outputs ∧ f.id = w.submittedId
  answered : (w.Answered ∨ ∃ o ∈ outputs, o.id = w.submittedId) → w'.Answered

theorem received_one (w : Widget) (o : Output) : Received w (w.receive o) [o] := by
  cases o with
  | frame g =>
    simp only [Widget.receive]
    split
    · rename_i hid
      refine ⟨rfl, rfl, rfl, fun f hf => ?_, fun _ => .inr ⟨g, rfl, hid⟩⟩
      obtain rfl : g = f := by simpa using hf
      exact .inr ⟨by simp, hid⟩
    · rename_i hid
      refine ⟨rfl, rfl, rfl, fun f hf => .inl hf, ?_⟩
      rintro (h | ⟨o, ho, hoid⟩)
      · exact h
      · obtain rfl : o = .frame g := by simpa using ho
        exact absurd hoid hid
  | failed id =>
    simp only [Widget.receive]
    split
    · exact ⟨rfl, rfl, rfl, fun f hf => .inl hf, fun _ => .inl rfl⟩
    · rename_i hid
      refine ⟨rfl, rfl, rfl, fun f hf => .inl hf, ?_⟩
      rintro (h | ⟨o, ho, hoid⟩)
      · exact h
      · obtain rfl : o = .failed id := by simpa using ho
        exact absurd hoid hid

theorem received_poll : ∀ (outputs : List Output) (w : Widget),
    Received w (outputs.foldl Widget.receive w) outputs
  | [], w => ⟨rfl, rfl, rfl, fun _ hf => .inl hf, by simp⟩
  | o :: outputs, w => by
    have h1 := received_one w o
    have h2 := received_poll outputs (w.receive o)
    refine ⟨h2.html.trans h1.html, h2.submittedId.trans h1.submittedId, h2.dirty.trans h1.dirty,
      fun f hf => ?_, fun h => h2.answered ?_⟩
    · rcases h2.frame f hf with hf | ⟨hmem, hid⟩
      · exact (h1.frame f hf).imp_right fun ⟨hmem, hid⟩ =>
          ⟨List.mem_cons.mpr (.inl (List.mem_singleton.mp hmem)), hid⟩
      · exact .inr ⟨List.mem_cons_of_mem _ hmem, hid.trans h1.submittedId⟩
    · rcases h with h | ⟨o', ho', hid⟩
      · exact .inl (h1.answered (.inl h))
      · rcases List.mem_cons.mp ho' with rfl | ho'
        · exact .inl (h1.answered (.inr ⟨o', List.mem_singleton_self _, hid⟩))
        · exact .inr ⟨o', ho', hid.trans h1.submittedId.symm⟩

/-- What a paint does: the newest job is submitted if there is need of one, and what has come is
polled. -/
inductive Paints (v : View) : View → Prop
  | polled (w : Widget) : v.widget.dirty = false → Received v.widget w v.outputs →
      Paints v { v with widget := { w with failed := w.failed || v.phase = .dead }, outputs := [] }
  | submitted (w : Widget) (width : Rat) :
      Received (v.widget.submit width (v.phase = .dead)).1 w v.outputs →
      Paints v { v with
        widget := { w with failed := w.failed || v.phase = .dead }
        latestId := v.widget.submittedId + 1
        jobs := if decide (v.phase = .dead) then v.jobs
          else v.jobs ++ [(v.widget.submit width (v.phase = .dead)).2]
        outputs := [] }

theorem paint_cases {v v' : View} {width : Rat} (h : v.paint width = v') : Paints v v' := by
  unfold paint at h
  dsimp only at h
  rw [← h]
  split
  · exact .submitted _ (max width 1) (received_poll v.outputs _)
  · rename_i hwants
    have hdirty : v.widget.dirty = false := by
      cases hd : v.widget.dirty with
      | false => rfl
      | true => exact absurd (by simp [Widget.wants, hd]) hwants
    exact .polled _ hdirty (received_poll v.outputs v.widget)

/-- A paint touches neither the container nor what the worker has in hand. -/
structure Painted (v v' : View) : Prop where
  engine : v'.engine = v.engine
  phase : v'.phase = v.phase
  asked : v'.asked = v.asked
  recorded : v'.recorded = v.recorded
  outputs : v'.outputs = []
  frame : ∀ f, v'.widget.frame = some f → v.widget.frame = some f ∨ .frame f ∈ v.outputs

theorem painted_paint {v v' : View} (h : Paints v v') : Painted v v' := by
  cases h with
  | polled w _ hw => exact ⟨rfl, rfl, rfl, rfl, rfl, fun f hf => (hw.frame f hf).imp_right And.left⟩
  | submitted w _ hw =>
    exact ⟨rfl, rfl, rfl, rfl, rfl, fun f hf => (hw.frame f hf).imp_right And.left⟩

theorem mem_pictures {v : View} {asked : List String} {url : String} :
    url ∈ (v.drawPass asked).recorded ↔ url ∈ asked ∧ url ∈ v.engine.images := by
  simp [drawPass]

/-- Before a pass nothing that is to be had is forgotten, and after it neither. -/
theorem known_drawPass {v : View} {job : RenderJob} {passes : Nat} {asked : List String}
    (hv : Remembered decodeDataUri decodes v) (hphase : v.phase = .pass job passes) {url : String}
    (hreq : url ∈ (v.drawPass asked).engine.requestedImages)
    (hd : Decodable decodeDataUri decodes url) :
    url ∈ v.engine.images ∨ url ∈ (v.drawPass asked).engine.pendingImages := by
  have hold : url ∈ v.engine.requestedImages →
      url ∈ v.engine.images ∨ url ∈ v.engine.pendingImages := by
    intro h
    simpa [hphase, Phase.pending] using hv.known (by simp [hphase]) url h hd
  by_cases hthere : url ∈ v.engine.images
  · exact .inl hthere
  refine .inr (mem_pending_asked.mpr ?_)
  by_cases hbefore : url ∈ v.engine.requestedImages
  · exact .inl ((hold hbefore).resolve_left hthere)
  · obtain ⟨hasked, hne, -⟩ := (mem_requested_asked.mp hreq).resolve_left hbefore
    exact .inr ⟨hasked, hne, hthere, hbefore⟩

/-- Where a pass ends the job with a frame, what it asked for and is to be had was there. -/
theorem there_of_framed {v : View} {job : RenderJob} {passes : Nat} {asked : List String}
    (hv : Remembered decodeDataUri decodes v) (hphase : v.phase = .pass job passes)
    (hok : asksAlike v (.draw true asked))
    (hend : (v.drawPass asked).engine.pendingImages = [] ∨ passes + 1 = maxPasses)
    {url : String} (hreq : url ∈ (v.drawPass asked).engine.requestedImages ∨
      url ∈ asked ∧ url ∈ v.engine.images)
    (hd : Decodable decodeDataUri decodes url) : url ∈ v.engine.images := by
  rcases hreq with hreq | ⟨-, hthere⟩
  swap
  · exact hthere
  by_cases hpend : (v.drawPass asked).engine.pendingImages = []
  · simpa [hpend] using known_drawPass hv hphase hreq hd
  · -- the last pass: the one before has asked for the same, and left nothing pending
    have hpos : 0 < passes := by
      have := hend.resolve_left hpend
      simp only [maxPasses] at this
      omega
    have hdrawn : v.phase.drawn = true := by simp [hphase, Phase.drawn, hpos]
    have hknown : url ∈ v.engine.requestedImages → url ∈ v.engine.images := by
      intro h
      simpa [hphase, Phase.pending, hv.taken hdrawn] using hv.known (by simp [hphase]) url h hd
    rcases mem_requested_asked.mp hreq with h | ⟨hasked, hne, -⟩
    · exact hknown h
    · have hbefore : url ∈ v.asked := (hok hdrawn).1 url hasked
      exact (hv.asked hdrawn url hbefore hne).elim id hknown

theorem remembered_draw {v v' : View} {parses : Bool} {asked : List String}
    (hv : Remembered decodeDataUri decodes v) (hok : asksAlike v (.draw parses asked))
    (h : v.draw parses asked = some v') : Remembered decodeDataUri decodes v' := by
  obtain ⟨job, passes, hphase, hdrawn⟩ := draw_cases h
  have himages : (v.drawPass asked).engine.images = v.engine.images := images_asked v.engine
  cases hdrawn with
  | overrun =>
    exact ⟨fun _ => by simpa [hphase, Phase.pending] using hv.known (by simp [hphase]), by simp [Phase.drawn],
      by simp [Phase.drawn], by simp, hv.shown, hv.sent⟩
  | superseded =>
    exact ⟨fun _ => by simpa [hphase, Phase.pending] using hv.known (by simp [hphase]), by simp [Phase.drawn],
      by simp [Phase.drawn], by simp, hv.shown, hv.sent⟩
  | unparsed =>
    refine ⟨fun _ url hreq hd => ?_, by simp [Phase.drawn], by simp [Phase.drawn], by simp, hv.shown,
      fun f hf => hv.sent f (by simpa using hf)⟩
    change url ∈ (v.drawPass asked).engine.images ∨ url ∈ (v.drawPass asked).engine.pendingImages ∨ _
    rw [himages]
    exact (known_drawPass hv hphase hreq hd).imp_right .inl
  | framed _ _ hparses hend =>
    subst hparses
    refine ⟨fun _ url hreq hd => ?_, by simp [Phase.drawn, emitFrame], by simp [Phase.drawn, emitFrame],
      by simp [emitFrame], hv.shown, fun f hf => ?_⟩
    · refine .inl ?_
      change url ∈ (v.drawPass asked).engine.images
      rw [himages]
      exact there_of_framed hv hphase hok hend (.inl hreq) hd
    · rcases List.mem_append.mp hf with hf | hf
      · exact hv.sent f hf
      · obtain rfl : f = ⟨job.id, job.html, job.width, (v.drawPass asked).recorded, asked⟩ := by
          simpa [emitFrame, laidOut, drawPass] using hf
        intro url hurl hd
        refine mem_pictures.mpr ⟨hurl, ?_⟩
        by_cases hthere : url ∈ v.engine.images
        · exact hthere
        · have hreq : url ∈ (v.drawPass asked).engine.requestedImages :=
            mem_requested_asked.mpr (.inr ⟨hurl, hd.1, hthere⟩)
          exact there_of_framed hv hphase hok hend (.inl hreq) hd
  | going =>
    refine ⟨fun _ url hreq hd => ?_, fun _ => rfl, fun _ url hurl hne => ?_, ?_, hv.shown, hv.sent⟩
    · change url ∈ (v.drawPass asked).engine.images ∨ _ ∨
        url ∈ (v.drawPass asked).engine.pendingImages
      rw [himages]
      exact (known_drawPass hv hphase hreq hd).imp_right .inr
    · change url ∈ (v.drawPass asked).engine.images ∨ _
      rw [himages]
      by_cases hthere : url ∈ v.engine.images
      · exact .inl hthere
      · exact .inr (mem_requested_asked.mpr (.inr ⟨hurl, hne, hthere⟩))
    · intro _ _ _ _ url hurl hthere
      change url ∈ (v.drawPass asked).engine.images at hthere
      rw [himages] at hthere
      exact mem_pictures.mpr ⟨hurl, hthere⟩

theorem remembered_fill {v v' : View} {get : String → Option Bytes}
    (hv : Remembered decodeDataUri decodes v) (h : v.fill decodeDataUri decodes get = some v') :
    Remembered decodeDataUri decodes v' := by
  obtain ⟨job, passes, pending, hphase, hfilled⟩ := fill_cases decodeDataUri decodes h
  have hdrawn : v.phase.drawn = true := by simp [hphase, Phase.drawn]
  have hknown : ∀ url ∈ v.engine.requestedImages, Decodable decodeDataUri decodes url →
      url ∈ v.engine.images ∨ url ∈ pending := by
    intro url hurl hd
    simpa [hphase, Phase.pending, hv.taken hdrawn] using hv.known (by simp [hphase]) url hurl hd
  cases hfilled with
  | panicked =>
    exact ⟨by simp, by simp [Phase.drawn], by simp [Phase.drawn], by simp, hv.shown, hv.sent⟩
  | again engine hload =>
    obtain ⟨hl, hall⟩ := loadAll_loaded hload
    refine ⟨fun _ url hurl hd => .inl ?_, fun _ => ?_, fun _ url hurl hne => ?_, by simp, hv.shown,
      hv.sent⟩
    · rcases hknown url (by rwa [← hl.requested]) hd with hthere | hpend
      · exact hl.kept url hthere
      · obtain ⟨data, hdata, hdec⟩ := bytesFor_decodable hd
        exact hall url hpend data hdata hdec
    · exact hl.pending.trans (hv.taken hdrawn)
    · rcases hv.asked hdrawn url hurl hne with hthere | hreq
      · exact .inl (hl.kept url hthere)
      · exact .inr (by rwa [hl.requested])
  | framed engine hload =>
    obtain ⟨-, rfl, hnone⟩ := loadAll_nothing hload
    have hthere : ∀ url ∈ v.engine.requestedImages, Decodable decodeDataUri decodes url →
        url ∈ v.engine.images := by
      intro url hurl hd
      refine (hknown url hurl hd).resolve_right fun hpend => ?_
      obtain ⟨data, hdata, -⟩ := bytesFor_decodable hd
      rw [hnone url hpend] at hdata
      cases hdata
    refine ⟨fun _ url hurl hd => .inl (hthere url hurl hd), by simp [Phase.drawn, emitFrame],
      by simp [Phase.drawn, emitFrame], by simp [emitFrame], hv.shown, fun f hf => ?_⟩
    rcases List.mem_append.mp hf with hf | hf
    · exact hv.sent f hf
    · obtain rfl : f = ⟨job.id, job.html, job.width, v.recorded, v.asked⟩ := by simpa using hf
      intro url hurl hd
      refine hv.recorded job passes pending hphase url hurl ?_
      exact (hv.asked hdrawn url hurl hd.1).elim id fun hreq => hthere url hreq hd

theorem remembered_step {v v' : View} {a : Action} (hv : Remembered decodeDataUri decodes v)
    (hok : asksAlike v a) (h : v.step decodeDataUri decodes a = some v') :
    Remembered decodeDataUri decodes v' := by
  cases a with
  | load html =>
    obtain rfl := Option.some.inj h
    exact ⟨hv.known, hv.taken, hv.asked, hv.recorded, by simp [Widget.load], hv.sent⟩
  | paint width =>
    obtain ⟨hengine, hphase, hasked, hrecorded, houtputs, hframe⟩ :=
      painted_paint (paint_cases (Option.some.inj h))
    refine ⟨?_, ?_, ?_, ?_, fun f hf => ?_, by simp [houtputs]⟩
    · rw [hengine, hphase]
      exact hv.known
    · rw [hengine, hphase]
      exact hv.taken
    · rw [hengine, hphase, hasked]
      exact hv.asked
    · rw [hengine, hphase, hasked, hrecorded]
      exact hv.recorded
    · rcases hframe f hf with hf | hf
      · exact hv.shown f hf
      · exact hv.sent f hf
  | setFetcher installed =>
    obtain rfl := Option.some.inj h
    exact ⟨hv.known, hv.taken, hv.asked, hv.recorded, hv.shown, hv.sent⟩
  | take =>
    obtain ⟨job, hphase, -, rfl⟩ := take_cases h
    refine ⟨fun _ url hreq hd => ?_, by simp [Phase.drawn], by simp [Phase.drawn], by simp, hv.shown,
      hv.sent⟩
    dsimp only at hreq ⊢
    split at hreq
    · simp [Engine.clearPendingImages] at hreq
    · rename_i hclear
      rw [if_neg hclear]
      simpa [hphase, Phase.pending] using hv.known (by simp [hphase]) url hreq hd
  | draw parses asked => exact remembered_draw hv hok h
  | fill get => exact remembered_fill hv h

theorem remembered_of_reach {v : View} (h : (machine decodeDataUri decodes).Reach asksAlike v) :
    Remembered decodeDataUri decodes v := by
  refine Machine.Reach.invariant (P := Remembered decodeDataUri decodes) ?_
    (fun v a v' _ hv hok hst => remembered_step hv hok hst) h
  rintro _ ⟨html, rfl⟩
  exact ⟨by simp, by simp [Phase.drawn], by simp [Phase.drawn], by simp, by simp, by simp⟩

/-! ## 4. Which page a frame shows -/

/-- Numbered at most as the newest job, and of the loaded page if it is the newest job's and the page
has not changed since. -/
def Current (w : Widget) (id : Nat) (html : String) : Prop :=
  id ≤ w.submittedId ∧ (id = w.submittedId → w.dirty = false → html = w.html)

/-- Every job and every frame under way is current, and the frame that is shown is of the page that is
loaded. -/
structure Honest (v : View) : Prop where
  latest : v.latestId = v.widget.submittedId
  jobs : ∀ job, (job ∈ v.jobs ∨ v.phase.job = some job) → Current v.widget job.id job.html
  sent : ∀ f, .frame f ∈ v.outputs → Current v.widget f.id f.html
  shown : ∀ f, v.widget.frame = some f → f.html = v.widget.html

/-- As long as the page does not change, the newest job is queued or in hand or has its answer, shown or
under way, unless the worker is gone. -/
def Delivered (v : View) : Prop :=
  v.widget.dirty = false → v.phase = .dead ∨ v.widget.Answered ∨
    (∃ job, v.jobs.getLast? = some job ∧ job.id = v.widget.submittedId) ∨
    (∃ job, v.phase.job = some job ∧ job.id = v.widget.submittedId) ∨
    ∃ o ∈ v.outputs, o.id = v.widget.submittedId

theorem Current.load {w : Widget} {id : Nat} {html : String} (h : Current w id html)
    (page : String) : Current (w.load page) id html :=
  ⟨h.1, fun _ hdirty => by simp [Widget.load] at hdirty⟩

theorem honest_paint {v v' : View} (hv : v.Honest) (h : Paints v v') : v'.Honest := by
  cases h with
  | polled w hdirty hw =>
    have hcurrent : ∀ {id html}, Current v.widget id html →
        Current { w with failed := w.failed || v.phase = .dead } id html := by
      rintro id html ⟨hid, hpage⟩
      exact ⟨hw.submittedId ▸ hid, fun heq _ => (hpage (heq.trans hw.submittedId) hdirty).trans
        hw.html.symm⟩
    refine ⟨hv.latest.trans hw.submittedId.symm, fun job hjob => hcurrent (hv.jobs job hjob), by simp,
      fun f hf => ?_⟩
    refine Eq.trans ?_ hw.html.symm
    rcases hw.frame f hf with hf | ⟨hsent, hid⟩
    · exact hv.shown f hf
    · exact (hv.sent f hsent).2 hid hdirty
  | submitted w width hw =>
    -- the number is a new one, so nothing that is under way has it
    have hcurrent : ∀ {id html}, Current v.widget id html →
        Current { w with failed := w.failed || v.phase = .dead } id html := by
      rintro id html ⟨hid, -⟩
      have hnew : w.submittedId = v.widget.submittedId + 1 := hw.submittedId
      exact ⟨by change id ≤ w.submittedId; omega,
        fun heq => by change id = w.submittedId at heq; omega⟩
    refine ⟨hw.submittedId.symm, fun job hjob => ?_, by simp, fun f hf => ?_⟩
    · rcases hjob with hjob | hjob
      · dsimp only at hjob
        split at hjob
        · exact hcurrent (hv.jobs job (.inl hjob))
        · rcases List.mem_append.mp hjob with hjob | hjob
          · exact hcurrent (hv.jobs job (.inl hjob))
          · rw [List.mem_singleton.mp hjob]
            exact ⟨Nat.le_of_eq hw.submittedId.symm, fun _ _ => hw.html.symm⟩
      · exact hcurrent (hv.jobs job (.inr hjob))
    · refine Eq.trans ?_ hw.html.symm
      rcases hw.frame f hf with hf | ⟨hsent, hid⟩
      · exact hv.shown f hf
      · have hold := (hv.sent f hsent).1
        have hnew : f.id = v.widget.submittedId + 1 := hid
        omega

theorem newestJob_eq_some {jobs : List RenderJob} {job : RenderJob} (h : newestJob jobs = some job) :
    ∃ last, jobs.getLast? = some last ∧ job.id = last.id ∧ job.html = last.html := by
  obtain ⟨last, hlast, rfl⟩ := Option.map_eq_some_iff.mp h
  exact ⟨last, hlast, rfl, rfl⟩

/-- What becomes of the job in hand in a step of the worker: it goes on, it ends with an output, it is
given up as superseded, or the worker panics. -/
inductive Fate (v v' : View) (job : RenderJob) : Prop
  | goesOn : v'.phase.job = some job → v'.outputs = v.outputs → Fate v v' job
  | ends (o : Output) : v'.phase = .idle → v'.outputs = v.outputs ++ [o] → o.id = job.id →
      (∀ f, o = .frame f → f.html = job.html) → Fate v v' job
  | superseded : v'.phase = .idle → v'.outputs = v.outputs → v.latestId ≠ job.id → Fate v v' job
  | panicked : v'.phase = .dead → v'.outputs = v.outputs → Fate v v' job

/-- A step of the worker with a job in hand. -/
structure Worked (v v' : View) : Prop where
  widget : v'.widget = v.widget
  latest : v'.latestId = v.latestId
  jobs : v'.jobs = v.jobs
  fate : ∃ job, v.phase.job = some job ∧ Fate v v' job

/-- The number of passes of the job in hand leaves room for another. -/
def InTime (v : View) : Prop :=
  ∀ job passes, (v.phase = .pass job passes ∨ ∃ pending, v.phase = .loading job passes pending) →
    passes < maxPasses

theorem worked_draw {v v' : View} {parses : Bool} {asked : List String} (hv : v.InTime)
    (h : v.draw parses asked = some v') : Worked v v' ∧ v'.InTime := by
  obtain ⟨job, passes, hphase, hdrawn⟩ := draw_cases h
  have hjob : v.phase.job = some job := by simp [hphase, Phase.job]
  cases hdrawn with
  | overrun hmax =>
    have := hv job passes (.inl hphase)
    omega
  | superseded hid => exact ⟨⟨rfl, rfl, rfl, job, hjob, .superseded rfl rfl hid⟩, by simp [InTime]⟩
  | unparsed =>
    exact ⟨⟨rfl, rfl, rfl, job, hjob, .ends (.failed job.id) rfl rfl rfl (by simp)⟩,
      by simp [InTime]⟩
  | framed =>
    exact ⟨⟨rfl, rfl, rfl, job, hjob, .ends _ rfl rfl rfl fun f hf => by rw [← Output.frame.inj hf]⟩,
      by simp [InTime, emitFrame]⟩
  | going hlt =>
    refine ⟨⟨rfl, rfl, rfl, job, hjob, .goesOn rfl rfl⟩, ?_⟩
    rintro job' passes' (h | ⟨pending, h⟩)
    · cases h
    · obtain ⟨-, rfl, -⟩ := Phase.loading.inj h
      exact hlt

theorem worked_fill {v v' : View} {get : String → Option Bytes} (hv : v.InTime)
    (h : v.fill decodeDataUri decodes get = some v') : Worked v v' ∧ v'.InTime := by
  obtain ⟨job, passes, pending, hphase, hfilled⟩ := fill_cases decodeDataUri decodes h
  have hjob : v.phase.job = some job := by simp [hphase, Phase.job]
  cases hfilled with
  | panicked => exact ⟨⟨rfl, rfl, rfl, job, hjob, .panicked rfl rfl⟩, by simp [InTime]⟩
  | again =>
    refine ⟨⟨rfl, rfl, rfl, job, hjob, .goesOn rfl rfl⟩, ?_⟩
    rintro job' passes' (h | ⟨pending', h⟩)
    · obtain ⟨-, rfl⟩ := Phase.pass.inj h
      exact hv job _ (.inr ⟨pending, hphase⟩)
    · cases h
  | framed =>
    exact ⟨⟨rfl, rfl, rfl, job, hjob, .ends _ rfl rfl rfl fun f hf => by rw [← Output.frame.inj hf]⟩,
      by simp [InTime, emitFrame]⟩

theorem honest_worked {v v' : View} (hv : v.Honest) (h : Worked v v') : v'.Honest := by
  obtain ⟨hwidget, hlatest, hjobs, job, hjob, hfate⟩ := h
  have hcurrent : Current v.widget job.id job.html := hv.jobs job (.inr hjob)
  have hhand : ∀ job', v'.phase.job = some job' → job' = job := by
    intro job' h'
    cases hfate with
    | goesOn hsame => exact Option.some.inj (h'.symm.trans hsame)
    | ends o hidle => simp [hidle, Phase.job] at h'
    | superseded hidle => simp [hidle, Phase.job] at h'
    | panicked hdead => simp [hdead, Phase.job] at h'
  have hsent : ∀ f, .frame f ∈ v'.outputs →
      .frame f ∈ v.outputs ∨ f.id = job.id ∧ f.html = job.html := by
    intro f hf
    cases hfate with
    | goesOn _ houtputs => exact .inl (houtputs ▸ hf)
    | ends o _ houtputs hid hhtml =>
      rw [houtputs, List.mem_append, List.mem_singleton] at hf
      exact hf.imp_right fun h => ⟨by rw [← hid, ← h]; rfl, hhtml f h.symm⟩
    | superseded _ houtputs => exact .inl (houtputs ▸ hf)
    | panicked _ houtputs => exact .inl (houtputs ▸ hf)
  refine ⟨by rw [hlatest, hwidget, hv.latest], fun job' h' => ?_, fun f hf => ?_, ?_⟩
  · rw [hwidget]
    rcases h' with h' | h'
    · exact hv.jobs job' (.inl (hjobs ▸ h'))
    · rw [hhand job' h']
      exact hcurrent
  · rw [hwidget]
    rcases hsent f hf with hf | ⟨hid, hhtml⟩
    · exact hv.sent f hf
    · rw [hid, hhtml]
      exact hcurrent
  · rw [hwidget]
    exact hv.shown

theorem honest_step {v v' : View} {a : Action} (hv : v.Honest) (ht : v.InTime)
    (h : v.step decodeDataUri decodes a = some v') : v'.Honest := by
  cases a with
  | load html =>
    obtain rfl := Option.some.inj h
    exact ⟨hv.latest, fun job hjob => (hv.jobs job hjob).load html,
      fun f hf => (hv.sent f hf).load html, by simp [Widget.load]⟩
  | paint width => exact honest_paint hv (paint_cases (Option.some.inj h))
  | setFetcher installed =>
    obtain rfl := Option.some.inj h
    exact ⟨hv.latest, hv.jobs, hv.sent, hv.shown⟩
  | take =>
    obtain ⟨job, -, hjob, rfl⟩ := take_cases h
    obtain ⟨last, hlast, hid, hhtml⟩ := newestJob_eq_some hjob
    refine ⟨hv.latest, fun job' hjob' => ?_, hv.sent, hv.shown⟩
    obtain rfl : job = job' := by simpa [Phase.job] using hjob'
    rw [hid, hhtml]
    exact hv.jobs last (.inl (List.mem_of_getLast? hlast))
  | draw parses asked => exact honest_worked hv (worked_draw ht h).1
  | fill get => exact honest_worked hv (worked_fill ht h).1

theorem inTime_step {v v' : View} {a : Action} (hv : v.InTime)
    (h : v.step decodeDataUri decodes a = some v') : v'.InTime := by
  cases a with
  | load html =>
    obtain rfl := Option.some.inj h
    exact hv
  | paint width =>
    unfold InTime
    rw [(painted_paint (paint_cases (Option.some.inj h))).phase]
    exact hv
  | setFetcher installed =>
    obtain rfl := Option.some.inj h
    exact hv
  | take =>
    obtain ⟨job, -, -, rfl⟩ := take_cases h
    rintro job' passes (h | ⟨pending, h⟩)
    · obtain ⟨-, rfl⟩ := Phase.pass.inj h
      decide
    · cases h
  | draw parses asked => exact (worked_draw hv h).2
  | fill get => exact (worked_fill hv h).2

theorem answered_failed {w : Widget} (h : w.Answered) (gone : Bool) :
    { w with failed := w.failed || gone }.Answered :=
  h.imp_left fun h => by simp [h]

theorem delivered_paint {v v' : View} (hv : v.Delivered) (h : Paints v v') : v'.Delivered := by
  cases h with
  | polled w hdirty hw =>
    intro _
    rcases hv hdirty with hdead | hanswered | hqueued | hhand | houtputs
    · exact .inl hdead
    · exact .inr (.inl (answered_failed (hw.answered (.inl hanswered)) _))
    · exact .inr (.inr (.inl (hw.submittedId ▸ hqueued)))
    · exact .inr (.inr (.inr (.inl (hw.submittedId ▸ hhand))))
    · exact .inr (.inl (answered_failed (hw.answered (.inr houtputs)) _))
  | submitted w width hw =>
    intro _
    by_cases hdead : v.phase = .dead
    · exact .inl hdead
    · exact .inr (.inr (.inl ⟨_, by simp [hdead]; rfl, hw.submittedId.symm⟩))

theorem delivered_worked {v v' : View} (hv : v.Delivered) (hh : v.Honest) (h : Worked v v') :
    v'.Delivered := by
  obtain ⟨hwidget, -, hjobs, job, hjob, hfate⟩ := h
  unfold Delivered
  rw [hwidget, hjobs]
  intro hdirty
  have houtputs : (∃ o ∈ v.outputs, o.id = v.widget.submittedId) →
      ∃ o ∈ v'.outputs, o.id = v.widget.submittedId := by
    rintro ⟨o, ho, hid⟩
    cases hfate with
    | goesOn _ hsame => exact ⟨o, hsame ▸ ho, hid⟩
    | ends o' _ happ => exact ⟨o, by rw [happ]; exact List.mem_append_left _ ho, hid⟩
    | superseded _ hsame => exact ⟨o, hsame ▸ ho, hid⟩
    | panicked _ hsame => exact ⟨o, hsame ▸ ho, hid⟩
  rcases hv hdirty with hdead | hanswered | hqueued | ⟨job', hjob', hid⟩ | hsent
  · rw [hdead] at hjob
    cases hjob
  · exact .inr (.inl hanswered)
  · exact .inr (.inr (.inl hqueued))
  · obtain rfl : job = job' := Option.some.inj (hjob.symm.trans hjob')
    cases hfate with
    | goesOn hsame => exact .inr (.inr (.inr (.inl ⟨job, hsame, hid⟩)))
    | ends o _ happ hoid =>
      exact .inr (.inr (.inr (.inr ⟨o, by simp [happ], hoid.trans hid⟩)))
    | superseded _ _ hold => exact absurd (hh.latest.trans hid.symm) hold
    | panicked hdead => exact .inl hdead
  · exact .inr (.inr (.inr (.inr (houtputs hsent))))

theorem delivered_step {v v' : View} {a : Action} (hv : v.Delivered) (hh : v.Honest) (ht : v.InTime)
    (h : v.step decodeDataUri decodes a = some v') : v'.Delivered := by
  cases a with
  | load html =>
    obtain rfl := Option.some.inj h
    intro hdirty
    simp [Widget.load] at hdirty
  | paint width => exact delivered_paint hv (paint_cases (Option.some.inj h))
  | setFetcher installed =>
    obtain rfl := Option.some.inj h
    exact hv
  | take =>
    obtain ⟨job, hphase, hjob, rfl⟩ := take_cases h
    obtain ⟨last, hlast, hlastid, -⟩ := newestJob_eq_some hjob
    intro hdirty
    rcases hv hdirty with hdead | hanswered | ⟨job', hjob', hid⟩ | ⟨job', hjob', -⟩ | hsent
    · rw [hphase] at hdead
      cases hdead
    · exact .inr (.inl hanswered)
    · obtain rfl : last = job' := Option.some.inj (hlast.symm.trans hjob')
      exact .inr (.inr (.inr (.inl ⟨job, rfl, hlastid.trans hid⟩)))
    · rw [hphase] at hjob'
      cases hjob'
    · exact .inr (.inr (.inr (.inr hsent)))
  | draw parses asked => exact delivered_worked hv hh (worked_draw ht h).1
  | fill get => exact delivered_worked hv hh (worked_fill ht h).1

theorem honest_of_reach {ok : View → Action → Prop} {v : View}
    (h : (machine decodeDataUri decodes).Reach ok v) : v.InTime ∧ v.Honest ∧ v.Delivered := by
  refine Machine.Reach.invariant (P := fun v => v.InTime ∧ v.Honest ∧ v.Delivered) ?_ ?_ h
  · rintro _ ⟨html, rfl⟩
    exact ⟨by simp [InTime], ⟨rfl, by simp [Phase.job], by simp, by simp⟩, fun h => by simp at h⟩
  · rintro v a v' _ ⟨ht, hh, hd⟩ _ hst
    exact ⟨inTime_step ht hst, honest_step hh ht hst, delivered_step hd hh ht hst⟩

variable (decodeDataUri decodes)

/-- Whatever is loaded and resized, and wherever a render is given up: a frame that is shown is of the
page that is loaded; once the worker has nothing to do, the newest job has its answer, shown or under
way; and every frame has every image that its page asks for and that is a `data:` URI with an image
in it. -/
theorem superseded_renders_lose_nothing :
    (∀ v, (machine decodeDataUri decodes).Reach Machine.any v →
      ∀ f, v.widget.frame = some f → f.html = v.widget.html) ∧
    (∀ v, (machine decodeDataUri decodes).Reach Machine.any v → v.phase = .idle → v.jobs = [] →
      v.widget.dirty = false → v.widget.Answered ∨ ∃ o ∈ v.outputs, o.id = v.widget.submittedId) ∧
    ∀ v, (machine decodeDataUri decodes).Reach asksAlike v →
      ∀ f, (v.widget.frame = some f ∨ .frame f ∈ v.outputs) →
        ∀ url ∈ f.asked, Decodable decodeDataUri decodes url → url ∈ f.pictures := by
  refine ⟨fun v h => (honest_of_reach h).2.1.shown, fun v h hidle hjobs hdirty => ?_,
    fun v h f hf => ?_⟩
  · rcases (honest_of_reach h).2.2 hdirty with hdead | hanswered | ⟨job, hjob, -⟩ | ⟨job, hjob, -⟩ | hsent
    · rw [hidle] at hdead
      cases hdead
    · exact .inl hanswered
    · rw [hjobs] at hjob
      cases hjob
    · rw [hidle] at hjob
      cases hjob
    · exact .inr hsent
  · have hv := remembered_of_reach h
    rcases hf with hf | hf
    · exact hv.shown f hf
    · exact hv.sent f hf

instance (v : View) : (a : Action) → Decidable (asksAlike v a)
  | .draw true _ => inferInstanceAs (Decidable (_ → _ ∧ _))
  | .draw false _ | .load _ | .paint _ | .setFetcher _ | .take | .fill _ => isTrue trivial

/-- A page with a picture of its own, resized while the picture is being loaded: the first render is
given up, and the second has the picture. -/
theorem superseded_renders_lose_nothing_resized : ∃ f : Frame, f.id = 2 ∧ f.width = 700 ∧
    "data:a" ∈ f.pictures := by
  let decode : String → Option Bytes := fun url => if url = "data:a" then some [1] else none
  obtain ⟨v, hr, hp⟩ := Machine.exists_reach_of_trace (machine decode fun _ => true) asksAlike
    [.paint 600, .take, .draw true ["data:a"], .paint 700, .fill fun _ => none,
      .draw true ["data:a"], .take, .draw true ["data:a"], .paint 700]
    (fun v => v.widget.frame.any fun f => f.id = 2 && f.width = 700 && f.asked.contains "data:a")
    ⟨"<img src=\"data:a\">", rfl⟩ (by decide +kernel)
  cases hf : v.widget.frame with
  | none => simp [hf] at hp
  | some f =>
    simp only [hf, Option.any_some, Bool.and_eq_true, decide_eq_true_eq, List.contains_eq_mem] at hp
    exact ⟨f, hp.1.1, hp.1.2, (superseded_renders_lose_nothing decode fun _ => true).2.2 v hr f
      (.inl hf) "data:a" hp.2 ⟨by decide, [1], rfl, rfl⟩⟩

end View

end Esmail.HtmlView
