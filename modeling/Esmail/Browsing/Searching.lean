/-
# The search box, its timer and the cache's answers

`app/search.rs`: typing starts a timer, the timer or Enter sends the query of the box to the cache, and
the answer replaces the list.  An answer does not say which query it is for: it is shown for the text in
the box when it arrives, and old results stay until the next answer.

`Searching` has the window, the timer, what the status line says, and two things the program does not
keep: the queries the cache has not answered, and its last answer.  The queue of the cache is shared with
its other commands, so whether it has room for a query (`room`) comes from outside; so does whether the
timer could be started (`started`).

So results need not be those of the text in the box (`old_results_stay`).  `results_answer` says that they
are, once no timer runs and nothing is unanswered, in the runs that `asksAgain` allows: each step that
leaves the box with another query than the one asked last starts a timer, or asks, or needs no search.

The argument is about the NEWEST query, as answers come in the order the queries were sent: `Sound` says
that it is the one of the box unless the timer runs, and that what is shown is the last answer, with a
status line that counts it.  When nothing is unanswered the newest query is the one answered last.
-/
import Esmail.Browsing.Window
import Esmail.Cache.Query

namespace Esmail.Browsing

open Transition

variable {zone : LocalDateTime}

/-! ## 1. What the window keeps of a search -/

namespace Window

theorem notice_keeps (w : Window) : w.notice.search = w.search ∧ w.notice.core = w.core := by
  unfold notice
  split <;> exact ⟨rfl, rfl⟩

theorem search_requestPage (w : Window) : w.requestPage.search = w.search := by
  unfold requestPage
  split
  · rfl
  · next folder opened _ =>
    split
    · rfl
    · simp only
      split
      · rfl
      · exact (notice_keeps { w with opened := some (folder, OpenFolder.pageFailed _) }).1

/-- A folder is opened without a search. -/
theorem search_openFolder (w : Window) (folder : FolderRef) : (w.openFolder folder).search = {} := by
  unfold openFolder
  exact search_requestPage _

theorem showFolderAgain_keeps (w : Window) :
    w.showFolderAgain.search = { w.search with results := none } ∧ w.showFolderAgain.core = w.core := by
  unfold showFolderAgain
  split
  · next hnone => exact ⟨by rw [← hnone], rfl⟩
  · exact ⟨rfl, rfl⟩

theorem search_clearSearch (w : Window) : w.clearSearch.search = {} := by
  unfold clearSearch
  split
  · next hidle =>
    obtain ⟨htext, hactive⟩ := Bool.and_eq_true_iff.mp hidle
    have hnone : w.search.results = none := by
      simpa [SearchState.active] using hactive
    rw [← hnone, ← of_decide_eq_true htext]
  · exact (showFolderAgain_keeps _).1

/-- The results stay while something is in the box. -/
theorem searchChanged_keeps {w : Window} {text : String} (hother : text ≠ w.search.text) :
    (w.searchChanged text).search =
      ⟨text, if blank text then none else w.search.results⟩ ∧
    (w.searchChanged text).core = w.core := by
  unfold searchChanged
  rw [if_neg hother]
  simp only
  split
  · exact showFolderAgain_keeps _
  · exact ⟨rfl, rfl⟩

theorem searchArrived_keeps (zone : LocalDateTime) {w : Window} (htext : blank w.search.text = false)
    (hits : List SearchHit) :
    (w.searchArrived zone hits).search =
      ⟨w.search.text, some (SearchResults.new zone hits w.core.accounts)⟩ ∧
    (w.searchArrived zone hits).core = w.core := by
  unfold searchArrived
  rw [htext, if_neg Bool.false_ne_true]
  exact ⟨rfl, rfl⟩

end Window

/-! ## 2. The search -/

/-- The status line, when a search set it; `found` names a text and a number of messages. -/
inductive StatusLine
  | nothing
  | searching
  | found (count : Nat) (text : String)
  | other
  deriving DecidableEq, Repr

/-- The text it names. -/
def StatusLine.text : StatusLine → Option String
  | .found _ text => some text
  | _ => none

/-- The number it gives. -/
def StatusLine.count : StatusLine → Option Nat
  | .found count _ => some count
  | _ => none

/-- `str::trim`, as the status line has it. -/
def trimmed (text : String) : String := String.ofList (RustText.trim text.toList)

/-- What the cache found for a query. -/
structure Reply where
  query : ParsedQuery
  hits : List SearchHit
  deriving DecidableEq, Repr

/-- The window with its search, the queries that were sent and are not answered, and the last answer. -/
structure Searching where
  window : Window
  timer : Bool := false
  status : StatusLine := .other
  unanswered : List ParsedQuery := []
  reply : Option Reply := none
  deriving DecidableEq

namespace Searching

/-- The text in the box. -/
def text (s : Searching) : String := s.window.search.text

/-- The results on screen. -/
def results (s : Searching) : Option SearchResults := s.window.search.results

/-- The status after `show_folder_again`, which calls `folder_status`. -/
def folderStatus (s : Searching) : StatusLine :=
  if s.results.isSome && s.window.opened.isSome then .other else s.status

/-- `App::search_changed`. -/
def searchChanged (s : Searching) (text : String) (started : Bool) : Searching :=
  if text = s.text then s
  else
    { s with
      window := s.window.searchChanged text
      timer := !blank text && started
      status := if blank text then s.folderStatus else s.status }

/-- `App::run_search`, and `Cache::search`. -/
def runSearch (s : Searching) (room : Bool) : Searching :=
  let query := ParsedQuery.parse s.text
  if query.isEmpty then { s with timer := false, status := .nothing }
  else
    { s with
      timer := false
      status := .searching
      unanswered := if room then s.unanswered ++ [query] else s.unanswered }

variable (zone : LocalDateTime)

/-- `App::search_arrived`. -/
def searchArrived (s : Searching) (hits : List SearchHit) : Searching :=
  if blank s.text then s
  else
    { s with
      window := s.window.searchArrived zone hits
      status := .found (SearchResults.new zone hits s.window.core.accounts).hits.length (trimmed s.text) }

/-- `App::clear_search`. -/
def clearSearch (s : Searching) : Searching :=
  if s.text = "" && s.results.isNone then s
  else { s with window := s.window.clearSearch, timer := false, status := s.folderStatus }

/-- `App::open_folder`. -/
def openFolder (s : Searching) (folder : FolderRef) : Searching :=
  { s with window := s.window.openFolder folder, timer := false, status := .other }

/-- What the user does, the timer, and what the cache answers; `status` is a status line of something
else. -/
inductive Event
  | searchChanged (text : String) (started : Bool)
  | tick (room : Bool)
  | enter (focused room : Bool)
  | openFolder (folder : FolderRef)
  | clearSearch
  | answer (hits : List SearchHit)
  | fail
  | status

/-- Searches are answered in the order they were sent. -/
def step (s : Searching) : Event → Option Searching
  | .searchChanged text started => some (s.searchChanged text started)
  | .tick room => if s.timer then some (s.runSearch room) else none
  | .enter focused room => some (if focused then s.runSearch room else s)
  | .openFolder folder => some (s.openFolder folder)
  | .clearSearch => some s.clearSearch
  | .answer hits =>
    match s.unanswered with
    | [] => none
    | query :: rest =>
      some ({ s with unanswered := rest, reply := some ⟨query, hits⟩ }.searchArrived zone hits)
  | .fail =>
    match s.unanswered with
    | [] => none
    | _ :: rest => some { s with window := s.window.notice, status := .other, unanswered := rest }
  | .status => some { s with status := .other }

def machine : Machine Searching Event :=
  ⟨fun s => ∃ accounts credentials, s = { window := Window.built accounts credentials }, step zone⟩

variable {zone}

/-! ## 3. The newest query -/

/-- The newest query the cache has answered, or will. -/
def newest (s : Searching) : Option ParsedQuery := s.unanswered.getLast?.or (s.reply.map Reply.query)

/-- The text needs no search: it is blank, or nothing is shown and nothing will be, or the newest query is
the one it has. -/
def Answered (s : Searching) (text : String) : Prop :=
  blank text = true ∨ (s.results = none ∧ s.unanswered = []) ∨ s.newest = some (ParsedQuery.parse text)

/-- No results are shown under a status line that names another text. -/
def Named (s : Searching) (text : String) : Prop :=
  s.results = none ∨ ∀ named ∈ s.status.text, named = trimmed text

/-- The steps after which results of another query may stay are not taken: the timer can be started; a
query that narrows nothing, or that the cache has no room for, is the one that was sent last; and a search
fails only when a newer one is to be answered. -/
def asksAgain (s : Searching) : Event → Prop
  | .searchChanged text started =>
    text = s.text ∨ blank text = true ∨ started = true ∨ (s.Answered text ∧ s.Named text)
  | .tick room | .enter true room =>
    ((ParsedQuery.parse s.text).isEmpty = true ∨ room = false) → s.Answered s.text
  | .fail => s.timer = true ∨ { s with unanswered := s.unanswered.tail }.Answered s.text
  | _ => True

/-- What is shown is the last answer, counted by the status line; and unless the timer runs the query of
the box was asked. -/
structure Sound (zone : LocalDateTime) (s : Searching) : Prop where
  shown : ∀ r ∈ s.results, blank s.text = false ∧
    (∃ reply ∈ s.reply, r = SearchResults.new zone reply.hits s.window.core.accounts) ∧
    ∀ count ∈ s.status.count, count = r.hits.length
  asked : s.timer = false → s.Answered s.text ∧ s.Named s.text

/-! ## 4. What each step keeps -/

variable {s : Searching}

theorem blank_empty : blank "" = true := by decide

/-- Nothing is shown, and the box is blank. -/
theorem Sound.of_blank {text : String} (hsearch : s.window.search = ⟨text, none⟩)
    (hblank : blank text = true) : Sound zone s := by
  have hnone : s.results = none := by rw [results, hsearch]
  have htext : blank s.text = true := by rw [Searching.text, hsearch, hblank]
  refine ⟨fun r hr => ?_, fun _ => ⟨.inl htext, .inl hnone⟩⟩
  rw [hnone] at hr
  cases hr

/-- The status line says something that names no text. -/
theorem Sound.says (h : s.Sound zone) {w : Window} (hsearch : w.search = s.window.search)
    (hcore : w.core = s.window.core) {status : StatusLine} (htext : status.text = none)
    (hcount : status.count = none) {timer : Bool} {unanswered : List ParsedQuery}
    (hanswered : timer = false → Answered { s with unanswered := unanswered } s.text) :
    Sound zone
      { s with window := w, timer := timer, status := status, unanswered := unanswered } := by
  refine ⟨fun r hr => ?_, fun htimer => ⟨?_, .inr ?_⟩⟩
  · rw [results, hsearch] at hr
    obtain ⟨hblank, hreply, -⟩ := h.shown r hr
    rw [Searching.text, hsearch, hcore, hcount]
    exact ⟨hblank, hreply, fun _ hcount => (Option.not_mem_none _ hcount).elim⟩
  · rw [Answered, newest, results, Searching.text, hsearch]
    exact hanswered htimer
  · rw [htext]
    exact fun _ hnamed => (Option.not_mem_none _ hnamed).elim

theorem Sound.runSearch (h : s.Sound zone) {room : Bool}
    (hok : ((ParsedQuery.parse s.text).isEmpty = true ∨ room = false) → s.Answered s.text) :
    (s.runSearch room).Sound zone := by
  unfold Searching.runSearch
  simp only
  split
  · next hempty => exact h.says rfl rfl rfl rfl fun _ => hok (.inl hempty)
  · cases room with
    | false => exact h.says rfl rfl rfl rfl fun _ => hok (.inr rfl)
    | true =>
      have hnewest : newest { s with unanswered := s.unanswered ++ [ParsedQuery.parse s.text] } =
          some (ParsedQuery.parse s.text) := by
        rw [newest, List.getLast?_append, List.getLast?_singleton, Option.some_or, Option.some_or]
      exact h.says rfl rfl rfl rfl fun _ => .inr (.inr hnewest)

/-- A text was typed, and what is shown is still shown. -/
theorem Sound.typed (h : s.Sound zone) {w : Window} {text : String}
    (hsearch : w.search = ⟨text, s.results⟩) (hcore : w.core = s.window.core)
    (hblank : blank text = false) {timer : Bool}
    (hasked : timer = false → s.Answered text ∧ s.Named text) :
    Sound zone { s with window := w, timer := timer } := by
  refine ⟨fun r hr => ?_, fun htimer => ?_⟩
  · rw [results, hsearch] at hr
    obtain ⟨-, hreply, hcount⟩ := h.shown r hr
    rw [Searching.text, hsearch, hcore]
    exact ⟨hblank, hreply, hcount⟩
  · rw [Answered, Named, newest, results, Searching.text, hsearch]
    exact hasked htimer

theorem Sound.searchChanged (h : s.Sound zone) {text : String} {started : Bool}
    (hok : text = s.text ∨ blank text = true ∨ started = true ∨ (s.Answered text ∧ s.Named text)) :
    (s.searchChanged text started).Sound zone := by
  unfold Searching.searchChanged
  split
  · exact h
  · next hother =>
    obtain ⟨hsearch, hcore⟩ := Window.searchChanged_keeps hother
    cases hblank : blank text with
    | true =>
      rw [hblank, if_pos rfl] at hsearch
      exact Sound.of_blank hsearch hblank
    | false =>
      rw [hblank, if_neg Bool.false_ne_true] at hsearch
      refine h.typed hsearch hcore hblank fun htimer => ?_
      rcases hok with hsame | hempty | hstarted | hasked
      · exact absurd hsame hother
      · rw [hempty] at hblank
        cases hblank
      · rw [hstarted] at htimer
        cases htimer
      · exact hasked

theorem Sound.clearSearch (h : s.Sound zone) : s.clearSearch.Sound zone := by
  unfold Searching.clearSearch
  split
  · exact h
  · exact Sound.of_blank (Window.search_clearSearch s.window) blank_empty

theorem Sound.openFolder (s : Searching) (folder : FolderRef) : (s.openFolder folder).Sound zone :=
  Sound.of_blank (Window.search_openFolder s.window folder) blank_empty

/-- The oldest query is answered, and the newest one is the same. -/
theorem newest_answer {query : ParsedQuery} {rest : List ParsedQuery}
    (hwaits : s.unanswered = query :: rest) (hits : List SearchHit) :
    newest { s with unanswered := rest, reply := some ⟨query, hits⟩ } = s.newest := by
  rw [newest, newest, hwaits]
  cases rest with
  | nil => rfl
  | cons next rest =>
    rw [List.getLast?_cons_cons]
    rfl

theorem Sound.searchArrived (h : s.Sound zone) {query : ParsedQuery} {rest : List ParsedQuery}
    (hwaits : s.unanswered = query :: rest) (hits : List SearchHit) :
    Sound zone ({ s with unanswered := rest, reply := some ⟨query, hits⟩ }.searchArrived zone hits) := by
  unfold Searching.searchArrived
  split
  · next hblank =>
    cases hresults : s.results with
    | none =>
      have hsearch : s.window.search = ⟨s.text, none⟩ := by rw [← hresults, results, Searching.text]
      exact Sound.of_blank hsearch hblank
    | some r =>
      obtain ⟨hfull, -⟩ := h.shown r hresults
      exact absurd (hblank.symm.trans hfull) (by decide)
  · next hfull =>
    have hblank : blank s.text = false := Bool.eq_false_iff.mpr hfull
    obtain ⟨hsearch, hcore⟩ := Window.searchArrived_keeps zone hblank hits
    refine ⟨fun r hr => ?_, fun htimer => ?_⟩
    · rw [results, hsearch] at hr
      obtain rfl := Option.mem_some.mp hr
      rw [Searching.text, hsearch, hcore]
      refine ⟨hblank, ⟨_, rfl, rfl⟩, fun count hcount => ?_⟩
      exact (Option.mem_some.mp hcount).symm
    · have hnewest := newest_answer hwaits hits
      rw [Answered, Named, Searching.text, hsearch]
      refine ⟨?_, .inr fun named hnamed => (Option.mem_some.mp hnamed).symm⟩
      rcases (h.asked htimer).1 with hempty | ⟨-, hnone⟩ | hasked
      · exact absurd hempty hfull
      · rw [hwaits] at hnone
        cases hnone
      · exact .inr (.inr (hnewest.trans hasked))

theorem Sound.step {s' : Searching} {event : Event} (h : s.Sound zone) (hok : s.asksAgain event)
    (hst : s.step zone event = some s') : s'.Sound zone := by
  cases event with
  | searchChanged text started => exact Option.some.inj hst ▸ h.searchChanged hok
  | tick room =>
    simp only [Searching.step] at hst
    split at hst
    · exact Option.some.inj hst ▸ h.runSearch hok
    · cases hst
  | enter focused room =>
    cases focused with
    | true => exact Option.some.inj hst ▸ h.runSearch hok
    | false => exact Option.some.inj hst ▸ h
  | openFolder folder => exact Option.some.inj hst ▸ Sound.openFolder s folder
  | clearSearch => exact Option.some.inj hst ▸ h.clearSearch
  | answer hits =>
    simp only [Searching.step] at hst
    split at hst
    · cases hst
    · next query rest hwaits => exact Option.some.inj hst ▸ h.searchArrived hwaits hits
  | fail =>
    simp only [Searching.step] at hst
    split at hst
    · cases hst
    · next query rest hwaits =>
      obtain rfl := Option.some.inj hst
      obtain ⟨hsearch, hcore⟩ := Window.notice_keeps s.window
      refine h.says hsearch hcore rfl rfl fun htimer => ?_
      rcases hok with hruns | hanswered
      · rw [htimer] at hruns
        cases hruns
      · rw [hwaits] at hanswered
        exact hanswered
  | status =>
    obtain rfl := Option.some.inj hst
    exact h.says rfl rfl rfl rfl fun htimer => (h.asked htimer).1

/-! ## 5. What is shown answers the box -/

/-- The results are the cache's answer to the query in the box, and a status line that names a text names
that one and counts them. -/
def AnswerBox (s : Searching) (zone : LocalDateTime) (r : SearchResults) : Prop :=
  (∃ hits, s.reply = some ⟨ParsedQuery.parse s.text, hits⟩ ∧
    r = SearchResults.new zone hits s.window.core.accounts) ∧
  ∀ count named, s.status = .found count named → named = trimmed s.text ∧ count = r.hits.length

/-- In a run without those steps, results on screen while no timer runs and nothing is unanswered answer
the box: they are what the cache returned for the query in it, and the status line counts them.

With nothing unanswered the newest query is the one answered last, and without a timer it is the one of the
box. -/
theorem results_answer {s : Searching} (h : (machine zone).Reach asksAgain s) {r : SearchResults}
    (hresults : s.results = some r) (htimer : s.timer = false) (hnone : s.unanswered = []) :
    s.AnswerBox zone r := by
  have hsound : Sound zone s := by
    refine h.invariant (P := Sound zone) ?_ fun s event s' _ hsound hok hst => hsound.step hok hst
    rintro s ⟨accounts, credentials, rfl⟩
    exact Sound.of_blank rfl blank_empty
  obtain ⟨hblank, ⟨reply, hreply, hr⟩, hcount⟩ := hsound.shown r hresults
  obtain ⟨hanswered, hnamed⟩ := hsound.asked htimer
  constructor
  · have hnewest : s.newest = some (ParsedQuery.parse s.text) := by
      rcases hanswered with hempty | ⟨hnothing, -⟩ | hnewest
      · rw [hempty] at hblank
        cases hblank
      · rw [hnothing] at hresults
        cases hresults
      · exact hnewest
    rw [newest, hnone, List.getLast?_nil, Option.none_or, Option.mem_def.mp hreply] at hnewest
    obtain ⟨query, hits⟩ := reply
    obtain rfl := Option.some.inj hnewest
    exact ⟨hits, hreply, hr⟩
  · intro count named hstatus
    rcases hnamed with hnothing | hnamed
    · rw [hnothing] at hresults
      cases hresults
    · rw [hstatus] at hnamed hcount
      exact ⟨hnamed named rfl, hcount count rfl⟩

instance (s : Searching) (text : String) : Decidable (s.Answered text) :=
  inferInstanceAs (Decidable (_ ∨ (_ ∧ _) ∨ _))

instance (s : Searching) (text : String) : Decidable (s.Named text) :=
  inferInstanceAs (Decidable (_ ∨ _))

instance (s : Searching) : (event : Event) → Decidable (s.asksAgain event)
  | .searchChanged text started =>
    inferInstanceAs (Decidable (text = s.text ∨ blank text = true ∨ started = true ∨
      (s.Answered text ∧ s.Named text)))
  | .tick room | .enter true room =>
    inferInstanceAs (Decidable
      (((ParsedQuery.parse s.text).isEmpty = true ∨ room = false) → s.Answered s.text))
  | .fail =>
    inferInstanceAs (Decidable
      (s.timer = true ∨ { s with unanswered := s.unanswered.tail }.Answered s.text))
  | .enter false _ | .openFolder _ | .clearSearch | .answer _ | .status => isTrue trivial

/-- A message of the only account. -/
def found : SearchHit := ⟨"me", "INBOX", ⟨7, "Report", "a@x", "me@x", "", "<7@x>", []⟩⟩

/-- Such a run: a word is typed and then another one, and the answers come after both were sent. -/
theorem results_answer_of_two : ∃ s : Searching, s.results.isSome = true ∧
    s.reply.map Reply.query = some (ParsedQuery.parse s.text) := by
  obtain ⟨s, hr, hp⟩ := Machine.exists_reach_of_trace (machine fun _ => none) asksAgain
    (s := { window := Window.built ["me"] fun _ => true })
    [.openFolder ⟨0, "INBOX"⟩, .searchChanged "rep" true, .tick true, .searchChanged "report" true,
      .enter true true, .answer [], .answer [found]]
    (fun s => decide (s.results.isSome = true ∧ s.timer = false ∧ s.unanswered = []))
    ⟨["me"], fun _ => true, rfl⟩ (by decide +kernel)
  obtain ⟨hshown, htimer, hnone⟩ := of_decide_eq_true hp
  obtain ⟨r, hresults⟩ := Option.isSome_iff_exists.mp hshown
  obtain ⟨⟨hits, hreply, -⟩, -⟩ := results_answer hr hresults htimer hnone
  exact ⟨s, hshown, by rw [hreply]; rfl⟩

/-- The box is changed to a query that narrows nothing, and the results of the old one stay. -/
theorem old_results_stay : ¬ ∀ (s : Searching) (r : SearchResults),
    (machine fun _ => none).Reach Machine.any s → s.results = some r → s.timer = false →
    s.unanswered = [] → s.AnswerBox (fun _ => none) r := by
  intro hall
  obtain ⟨s, hr, hp⟩ := Machine.exists_reach_of_trace (machine fun _ => none) Machine.any
    (s := { window := Window.built ["me"] fun _ => true })
    [.openFolder ⟨0, "INBOX"⟩, .searchChanged "report" true, .tick true, .answer [found],
      .searchChanged "has:attachment" true, .tick true]
    (fun s => decide (s.results.isSome = true ∧ s.timer = false ∧ s.unanswered = [] ∧
      s.reply.map Reply.query ≠ some (ParsedQuery.parse s.text)))
    ⟨["me"], fun _ => true, rfl⟩ (by decide +kernel)
  obtain ⟨hshown, htimer, hnone, hother⟩ := of_decide_eq_true hp
  obtain ⟨r, hresults⟩ := Option.isSome_iff_exists.mp hshown
  obtain ⟨⟨hits, hreply, -⟩, -⟩ := hall s r hr hresults htimer hnone
  refine hother ?_
  rw [hreply]
  rfl

end Searching

end Esmail.Browsing
