/-
# The redirect of a sign-in

`await_redirect` and `read_request_line` of `oauth.rs`: while a sign-in is open in the browser, a
local port takes connections, from anyone on this machine, one after another, until one of them
brings the answer.  What a connection sends comes in reads of at most 1024 bytes, and it may end, fail
or fall silent at any point.

`redirect_takes_its_answer` is what becomes of any sequence of connections: a code is returned exactly
where the first request that is not passed over has the right path and state and no error, and it is that
request's code; the sign-in fails exactly where that request has an error, or the listener does; and each
connection before has its own reply and leaves the loop as it was.

A request is judged by its first line: all of it up to 8192 bytes, and of a longer one as much as was read
by then, which is between 8192 and 9215 bytes (`lineOf_cut`).  So an error behind that is not seen
(`long_refusal_accepted`); the bound is there so that nobody can make the sign-in read for ever.

The loop over the reads and the loop over the connections are each taken to its end by one lemma
(`readLoop_cases`, `awaitRedirect_outcome`); between them a connection is no more than the URL it asks for
(`serve_eq`).

The URL of a request is read by the `url` crate, which is a parameter here (`parse`).  Everything else is
followed to the byte.
-/
import Mathlib.Data.List.TakeWhile
import Esmail.Library.RustSplit
import Esmail.Library.Utf8

namespace Esmail.OAuth

open RustText

/-! ## 1. What is read of a connection -/

/-- What one read brings, which is the size of its buffer at most. -/
abbrev Read := { bytes : List UInt8 // bytes ≠ [] ∧ bytes.length ≤ 1024 }

/-- How a connection goes on once it has sent what it sends: it is closed, it breaks, or it says no
more before `REDIRECT_READ_TIMEOUT`. -/
inductive Ending
  | closed
  | broken
  | silent
  deriving DecidableEq, Repr

structure Connection where
  reads : List Read
  ending : Ending
  deriving DecidableEq, Repr

/-- All the bytes of a connection. -/
def Connection.bytes (c : Connection) : List UInt8 := c.reads.flatMap Subtype.val

def newline : UInt8 := 10

/-- The loop of `read_request_line`; `none` is an error or the timeout. -/
def readLoop (buf : List UInt8) : List Read → Ending → Option (List UInt8)
  | [], ending =>
    if buf.length < 8192 ∧ newline ∉ buf then
      if ending = .closed then some buf else none
    else some buf
  | chunk :: reads, ending =>
    if buf.length < 8192 ∧ newline ∉ buf then readLoop (buf ++ chunk.val) reads ending else some buf

/-- The bytes before the first newline. -/
def firstLine (bytes : List UInt8) : List UInt8 := bytes.takeWhile (· ≠ newline)

/-- The bytes of the request line, as far as they are read. -/
def Connection.lineOf (c : Connection) : Option (List UInt8) :=
  (readLoop [] c.reads c.ending).map firstLine

/-- A line as text, without the carriage returns at its end. -/
def lineText (line : List UInt8) : List Char := trimEnd (· = '\r') (fromUtf8Lossy line)

/-- `read_request_line`. -/
def readRequestLine (c : Connection) : Option (List Char) := c.lineOf.map lineText

/-! ## 2. What is made of it -/

/-- `Url`: its path, and the pairs of its query in their order. -/
structure Url where
  path : List Char
  queryPairs : List (List Char × List Char)
  deriving DecidableEq, Repr

/-- The closure `param`: the first pair of the name. -/
def Url.param (url : Url) (name : String) : Option (List Char) :=
  (url.queryPairs.find? (·.1 = name.toList)).map Prod.snd

/-- `split_whitespace`. -/
def splitWhitespace (s : List Char) : List (List Char) := (s.splitOnP isWhitespace).filter (· ≠ [])

/-- A reply: the status, and the text of the page. -/
abbrev Reply := String × String

inductive Verdict
  | ignored
  | refused (error : List Char)
  | accepted (code : List Char)
  deriving DecidableEq, Repr

section Redirect

variable (parse : List Char → Option Url) (expectedState : List Char)

/-- The URL of a request line: its second word, on this machine. -/
def target (line : List Char) : Option Url :=
  match (splitWhitespace line)[1]? with
  | none => none
  | some target => parse ("http://127.0.0.1".toList ++ target)

/-- What the loop does with one URL. -/
def judge (url : Url) : Verdict × Reply :=
  if url.path ≠ ['/'] then (.ignored, ("404 Not Found", "Not found."))
  else if url.param "state" ≠ some expectedState then
    (.ignored, ("400 Bad Request", "This sign-in link does not match the request esmail made."))
  else
    match url.param "error" with
    | some error =>
      (.refused error,
        ("200 OK", "Sign-in was not completed. You can close this tab and return to esmail."))
    | none =>
      match url.param "code" with
      | none => (.ignored, ("400 Bad Request", "Missing authorization code."))
      | some code =>
        (.accepted code, ("200 OK", "Signed in. You can close this tab and return to esmail."))

/-- What the loop does with one connection, and what it answers. -/
def serve (c : Connection) : Verdict × Option Reply :=
  match readRequestLine c with
  | none => (.ignored, none)
  | some line =>
    match target parse line with
    | none => (.ignored, some ("400 Bad Request", "Bad request."))
    | some url => ((judge expectedState url).1, some (judge expectedState url).2)

/-- What `accept` gives. -/
inductive Accepted
  | stream (c : Connection)
  | failed (error : String)
  deriving DecidableEq, Repr

/-- Where `await_redirect` is once these have been accepted. -/
inductive Outcome
  | waiting
  | returned (code : List Char)
  | failed (error : String)
  deriving DecidableEq, Repr

/-- The error of a sign-in that was not completed. -/
def notCompleted (error : List Char) : String :=
  "Google sign-in was not completed (" ++ String.ofList error ++ ")"

/-- `await_redirect`, with the reply to each connection it has served. -/
def awaitRedirect : List Accepted → Outcome × List (Option Reply)
  | [] => (.waiting, [])
  | .failed error :: _ => (.failed error, [])
  | .stream c :: rest =>
    match serve parse expectedState c with
    | (.ignored, reply) => ((awaitRedirect rest).1, reply :: (awaitRedirect rest).2)
    | (.refused error, reply) => (.failed (notCompleted error), [reply])
    | (.accepted code, reply) => (.returned code, [reply])

end Redirect

/-! ## 3. How much of a request line is read -/

/-- What the loop stops with: a beginning of what is sent, which holds a newline, or has reached the
bound, or is all. -/
theorem readLoop_cases {ending : Ending} : ∀ (reads : List Read) {buf out : List UInt8},
    readLoop buf reads ending = some out → buf.length < 9216 →
      out <+: buf ++ reads.flatMap Subtype.val ∧ out.length < 9216 ∧
        (newline ∈ out ∨ 8192 ≤ out.length ∨ out = buf ++ reads.flatMap Subtype.val)
  | [], buf, out, h, hlen => by
    rw [readLoop] at h
    split at h
    · split at h
      · obtain rfl : buf = out := by simpa using h
        exact ⟨by simp, hlen, by simp⟩
      · simp at h
    · rename_i hstop
      obtain rfl : buf = out := by simpa using h
      exact ⟨by simp, hlen, by simp⟩
  | chunk :: reads, buf, out, h, hlen => by
    rw [readLoop] at h
    split at h
    · rename_i hgo
      have hlen' : (buf ++ chunk.val).length < 9216 := by
        have := chunk.property.2
        simp only [List.length_append]
        omega
      simpa using readLoop_cases reads h hlen'
    · rename_i hstop
      obtain rfl : buf = out := by simpa using h
      refine ⟨List.prefix_append .., hlen, ?_⟩
      by_cases hnl : newline ∈ buf
      · exact .inl hnl
      · exact .inr (.inl (by simpa [hnl] using hstop))

/-- Nothing is made of a connection that breaks or falls silent before its line is read. -/
theorem readLoop_eq_none {ending : Ending} : ∀ (reads : List Read) {buf : List UInt8},
    readLoop buf reads ending = none ↔ ending ≠ .closed ∧
      (buf ++ reads.flatMap Subtype.val).length < 8192 ∧
        newline ∉ buf ++ reads.flatMap Subtype.val
  | [], buf => by
    rw [readLoop]
    split
    · rename_i hgo
      simp [hgo]
    · rename_i hstop
      simpa using fun _ hlen => not_and_not_right.mp hstop hlen
  | chunk :: reads, buf => by
    rw [readLoop]
    split
    · rw [readLoop_eq_none reads]
      simp
    · rename_i hstop
      simp only [reduceCtorEq, List.flatMap_cons, List.length_append, List.mem_append, not_or,
        false_iff, not_and]
      intro _ hlen hnl
      exact absurd ⟨by omega, hnl⟩ hstop

theorem firstLine_of_mem {out all : List UInt8} (hpre : out <+: all) (hnl : newline ∈ out) :
    firstLine out = firstLine all := by
  obtain ⟨rest, rfl⟩ := hpre
  unfold firstLine
  rw [List.takeWhile_append]
  split
  · rename_i hlen
    have hall : out.takeWhile (· ≠ newline) = out := (List.takeWhile_prefix _).eq_of_length hlen
    have := List.mem_takeWhile_imp (hall ▸ hnl)
    simp at this
  · rfl

theorem firstLine_of_not_mem {out all : List UInt8} (hpre : out <+: all) (hnl : newline ∉ out) :
    firstLine out = out ∧ out <+: firstLine all := by
  have hself : ∀ b ∈ out, decide (b ≠ newline) = true := by
    intro b hb
    have hne : b ≠ newline := fun h => hnl (h ▸ hb)
    simpa using hne
  obtain ⟨rest, rfl⟩ := hpre
  unfold firstLine
  rw [List.takeWhile_append_of_pos hself]
  exact ⟨List.takeWhile_eq_self_iff.mpr hself, List.prefix_append ..⟩

theorem firstLine_append {line : List UInt8} (hnl : newline ∉ line) (more : List UInt8) :
    firstLine (line ++ newline :: more) = line := by
  have hself : ∀ b ∈ line, decide (b ≠ newline) = true := by
    intro b hb
    have hne : b ≠ newline := fun h => hnl (h ▸ hb)
    simpa using hne
  rw [firstLine, List.takeWhile_append_of_pos hself, List.takeWhile_cons_of_neg (by simp),
    List.append_nil]

/-- A request line of up to 8192 bytes is read whole, however it is sent; of a longer one, between
8192 and 9215 bytes are. -/
theorem lineOf_cut {c : Connection} {line : List UInt8} (h : c.lineOf = some line) :
    line <+: firstLine c.bytes ∧ line.length < 9216 ∧
      (line = firstLine c.bytes ∨ 8192 ≤ line.length) := by
  obtain ⟨out, hout, rfl⟩ := Option.map_eq_some_iff.mp h
  obtain ⟨hpre, hlen, hstop⟩ := readLoop_cases c.reads hout (by simp)
  have hpre : out <+: c.bytes := hpre
  by_cases hnl : newline ∈ out
  · have hle : (firstLine out).length ≤ out.length := (List.takeWhile_prefix _).length_le
    rw [firstLine_of_mem hpre hnl] at hle ⊢
    exact ⟨List.prefix_refl _, by omega, .inl rfl⟩
  · obtain ⟨hself, hline⟩ := firstLine_of_not_mem hpre hnl
    rw [hself]
    refine ⟨hline, hlen, ?_⟩
    rcases hstop with hin | hbound | hall
    · exact absurd hin hnl
    · exact .inr hbound
    · have hall : out = c.bytes := hall
      exact .inl (by rw [← hall, hself])

theorem lineOf_whole {c : Connection} {line : List UInt8} (h : c.lineOf = some line)
    (hshort : (firstLine c.bytes).length ≤ 8192) : line = firstLine c.bytes := by
  obtain ⟨hpre, -, hwhole | hbound⟩ := lineOf_cut h
  · exact hwhole
  · exact hpre.eq_of_length_le (by omega)

/-- A connection is passed over unread only where it breaks or falls silent too early. -/
theorem lineOf_eq_none {c : Connection} : c.lineOf = none ↔
    c.ending ≠ .closed ∧ c.bytes.length < 8192 ∧ newline ∉ c.bytes := by
  simp [Connection.lineOf, Connection.bytes, readLoop_eq_none]

/-! ## 4. What a connection is to the sign-in -/

section Redirect

variable (parse : List Char → Option Url) (expectedState : List Char)

/-- The URL a connection asks for, as far as its request line is read. -/
def request (c : Connection) : Option Url := (readRequestLine c).bind (target parse)

/-- The request comes with this code: its path and its state are right, and it has no error. -/
def Grants (url : Url) (code : List Char) : Prop :=
  url.path = ['/'] ∧ url.param "state" = some expectedState ∧
    (∀ pair ∈ url.queryPairs, pair.1 ≠ "error".toList) ∧ url.param "code" = some code

/-- The request comes with this error: its path and its state are right. -/
def Denies (url : Url) (error : List Char) : Prop :=
  url.path = ['/'] ∧ url.param "state" = some expectedState ∧ url.param "error" = some error

/-- The connection is not the answer that is waited for. -/
def Passed (c : Connection) : Prop :=
  ∀ url, request parse c = some url →
    (∀ code, ¬ Grants expectedState url code) ∧ ∀ error, ¬ Denies expectedState url error

theorem param_eq_none {url : Url} {name : String} :
    url.param name = none ↔ ∀ pair ∈ url.queryPairs, pair.1 ≠ name.toList := by
  simp [Url.param]

theorem judge_accepted {url : Url} {code : List Char} :
    (judge expectedState url).1 = .accepted code ↔ Grants expectedState url code := by
  unfold judge Grants
  rw [← param_eq_none]
  by_cases hpath : url.path = ['/']
  · by_cases hstate : url.param "state" = some expectedState
    · cases herror : url.param "error" with
      | some error => simp [hpath, hstate]
      | none => cases hcode : url.param "code" <;> simp [hpath, hstate]
    · simp [hpath, hstate]
  · simp [hpath]

theorem judge_refused {url : Url} {error : List Char} :
    (judge expectedState url).1 = .refused error ↔ Denies expectedState url error := by
  unfold judge Denies
  by_cases hpath : url.path = ['/']
  · by_cases hstate : url.param "state" = some expectedState
    · cases herror : url.param "error" with
      | some error => simp [hpath, hstate]
      | none => cases hcode : url.param "code" <;> simp [hpath, hstate]
    · simp [hpath, hstate]
  · simp [hpath]

/-- What is made of a connection is what is made of the URL it asks for, if it asks for one. -/
theorem serve_eq (c : Connection) : (serve parse expectedState c).1 =
    match request parse c with
    | none => .ignored
    | some url => (judge expectedState url).1 := by
  unfold serve request
  cases readRequestLine c with
  | none => rfl
  | some line =>
    rw [Option.bind_some]
    dsimp only
    cases target parse line <;> rfl

theorem serve_accepted {c : Connection} {code : List Char} :
    (serve parse expectedState c).1 = .accepted code ↔
      ∃ url, request parse c = some url ∧ Grants expectedState url code := by
  rw [serve_eq]
  cases request parse c with
  | none => simp
  | some url => simp [judge_accepted]

theorem serve_refused {c : Connection} {error : List Char} :
    (serve parse expectedState c).1 = .refused error ↔
      ∃ url, request parse c = some url ∧ Denies expectedState url error := by
  rw [serve_eq]
  cases request parse c with
  | none => simp
  | some url => simp [judge_refused]

theorem serve_ignored {c : Connection} :
    (serve parse expectedState c).1 = .ignored ↔ Passed parse expectedState c := by
  constructor
  · intro h url hurl
    refine ⟨fun code hg => ?_, fun error hd => ?_⟩
    · rw [(serve_accepted parse expectedState).mpr ⟨url, hurl, hg⟩] at h
      cases h
    · rw [(serve_refused parse expectedState).mpr ⟨url, hurl, hd⟩] at h
      cases h
  · intro hp
    cases hv : (serve parse expectedState c).1 with
    | ignored => rfl
    | accepted code =>
      obtain ⟨url, hurl, hg⟩ := (serve_accepted parse expectedState).mp hv
      exact absurd hg ((hp url hurl).1 code)
    | refused error =>
      obtain ⟨url, hurl, hd⟩ := (serve_refused parse expectedState).mp hv
      exact absurd hd ((hp url hurl).2 error)

/-! ## 5. What becomes of a sequence of connections -/

/-- How the loop ends at what it accepts, if it does. -/
def stop : Accepted → Option Outcome
  | .failed error => some (.failed error)
  | .stream c =>
    match (serve parse expectedState c).1 with
    | .ignored => none
    | .refused error => some (.failed (notCompleted error))
    | .accepted code => some (.returned code)

theorem stop_eq_none {x : Accepted} :
    stop parse expectedState x = none ↔ ∃ c, x = .stream c ∧ Passed parse expectedState c := by
  cases x with
  | failed error => simp [stop]
  | stream c =>
    simp only [Accepted.stream.injEq, exists_eq_left', ← serve_ignored]
    cases hv : (serve parse expectedState c).1 <;> simp [stop, hv]

theorem stop_returned {x : Accepted} {code : List Char} :
    stop parse expectedState x = some (.returned code) ↔
      ∃ c url, x = .stream c ∧ request parse c = some url ∧ Grants expectedState url code := by
  cases x with
  | failed error => simp [stop]
  | stream c =>
    simp only [Accepted.stream.injEq, exists_and_left, exists_eq_left', ← serve_accepted]
    cases hv : (serve parse expectedState c).1 <;> simp [stop, hv]

theorem stop_failed {x : Accepted} {error : String} :
    stop parse expectedState x = some (.failed error) ↔ x = .failed error ∨
      ∃ c url denied, x = .stream c ∧ request parse c = some url ∧
        Denies expectedState url denied ∧ error = notCompleted denied := by
  cases x with
  | failed error' => simp [stop]
  | stream c =>
    have hden : (∃ c' url denied, Accepted.stream c = .stream c' ∧ request parse c' = some url ∧
        Denies expectedState url denied ∧ error = notCompleted denied) ↔
        ∃ denied, (serve parse expectedState c).1 = .refused denied ∧
          error = notCompleted denied := by
      simp only [serve_refused]
      constructor
      · rintro ⟨c', url, denied, hc, hurl, hd, herr⟩
        obtain rfl := Accepted.stream.inj hc
        exact ⟨denied, ⟨url, hurl, hd⟩, herr⟩
      · rintro ⟨denied, ⟨url, hurl, hd⟩, herr⟩
        exact ⟨c, url, denied, rfl, hurl, hd, herr⟩
    rw [hden]
    cases hv : (serve parse expectedState c).1 <;> simp [stop, hv, eq_comm]

/-- The loop ends at the first that ends it. -/
theorem awaitRedirect_outcome : ∀ conns : List Accepted,
    (awaitRedirect parse expectedState conns).1 =
      (conns.findSome? (stop parse expectedState)).getD .waiting
  | [] => rfl
  | .failed error :: rest => rfl
  | .stream c :: rest => by
    have ih := awaitRedirect_outcome rest
    rw [awaitRedirect, List.findSome?_cons, stop]
    rcases hv : serve parse expectedState c with ⟨- | error | code, reply⟩ <;> simp [ih]

/-- The connections before it leave the loop as it was: each has its own reply and no more. -/
theorem awaitRedirect_append : ∀ {pre : List Connection} (rest : List Accepted),
    (∀ c ∈ pre, Passed parse expectedState c) →
      awaitRedirect parse expectedState (pre.map .stream ++ rest) =
        ((awaitRedirect parse expectedState rest).1,
          pre.map (fun c => (serve parse expectedState c).2) ++
            (awaitRedirect parse expectedState rest).2)
  | [], rest, _ => rfl
  | c :: pre, rest, h => by
    have ih := awaitRedirect_append rest fun c' hc' => h c' (List.mem_cons_of_mem _ hc')
    have hc := (serve_ignored parse expectedState).mpr (h c List.mem_cons_self)
    rw [List.map_cons, List.cons_append, awaitRedirect, ih]
    rcases hv : serve parse expectedState c with ⟨v, reply⟩
    rw [hv] at hc
    obtain rfl : v = .ignored := hc
    simp [hv]

theorem passed_list : ∀ {accepted : List Accepted},
    (∀ x ∈ accepted, stop parse expectedState x = none) ↔
      ∃ pre : List Connection, accepted = pre.map .stream ∧
        ∀ c ∈ pre, Passed parse expectedState c
  | [] => by simp
  | x :: accepted => by
    rw [List.forall_mem_cons, passed_list, stop_eq_none]
    constructor
    · rintro ⟨⟨c, rfl, hc⟩, pre, rfl, hpre⟩
      exact ⟨c :: pre, rfl, List.forall_mem_cons.mpr ⟨hc, hpre⟩⟩
    · rintro ⟨pre, hmap, hpre⟩
      obtain ⟨c, pre', rfl, rfl, rfl⟩ := List.map_eq_cons_iff.mp hmap.symm
      obtain ⟨hc, hpre⟩ := List.forall_mem_cons.mp hpre
      exact ⟨⟨c, rfl, hc⟩, pre', rfl, hpre⟩

/-- The loop has ended in one way exactly where the first connections are passed over and the next
thing that is accepted ends it so. -/
theorem outcome_iff {conns : List Accepted} {outcome : Outcome} (hne : outcome ≠ .waiting) :
    (awaitRedirect parse expectedState conns).1 = outcome ↔
      ∃ (pre : List Connection) (x : Accepted) (post : List Accepted),
        conns = pre.map .stream ++ x :: post ∧ (∀ c ∈ pre, Passed parse expectedState c) ∧
          stop parse expectedState x = some outcome := by
  have hfind : (conns.findSome? (stop parse expectedState)).getD .waiting = outcome ↔
      conns.findSome? (stop parse expectedState) = some outcome := by
    cases conns.findSome? (stop parse expectedState) with
    | none => simp [hne.symm]
    | some o => simp
  rw [awaitRedirect_outcome, hfind, List.findSome?_eq_some_iff]
  constructor
  · rintro ⟨before, x, post, rfl, hx, hbefore⟩
    obtain ⟨pre, rfl, hpre⟩ := (passed_list parse expectedState).mp hbefore
    exact ⟨pre, x, post, rfl, hpre, hx⟩
  · rintro ⟨pre, x, post, rfl, hpre, hx⟩
    exact ⟨_, x, post, rfl, hx, (passed_list parse expectedState).mpr ⟨pre, rfl, hpre⟩⟩

/-- The URL a connection asks for in all that it sends. -/
def sent (c : Connection) : Option Url := target parse (lineText (firstLine c.bytes))

theorem request_eq_sent {c : Connection} {url : Url} (h : request parse c = some url)
    (hshort : (firstLine c.bytes).length ≤ 8192) : sent parse c = some url := by
  obtain ⟨text, htext, hurl⟩ := Option.bind_eq_some_iff.mp h
  obtain ⟨line, hline, rfl⟩ := Option.map_eq_some_iff.mp htext
  rw [← hurl, sent, lineOf_whole hline hshort]

end Redirect

/-- The loop returns a code only from a request with the right path and state and no error, and it is
that request's code; it fails only on one with the right path and state that has an error, or where
the listener fails; every connection before leaves it waiting, and as it was.  A request is judged
by its first line, and where that is longer than 8192 bytes, by the beginning of it that was read. -/
theorem redirect_takes_its_answer (parse : List Char → Option Url) (expectedState : List Char)
    (conns : List Accepted) :
    (∀ code, (awaitRedirect parse expectedState conns).1 = .returned code ↔
      ∃ (pre : List Connection) (c : Connection) (url : Url) (post : List Accepted),
        conns = pre.map .stream ++ .stream c :: post ∧
          (∀ c' ∈ pre, Passed parse expectedState c') ∧
          request parse c = some url ∧ Grants expectedState url code) ∧
    (∀ error, (awaitRedirect parse expectedState conns).1 = .failed error ↔
      ∃ (pre : List Connection) (x : Accepted) (post : List Accepted),
        conns = pre.map .stream ++ x :: post ∧
          (∀ c' ∈ pre, Passed parse expectedState c') ∧
          (x = .failed error ∨ ∃ c url denied, x = .stream c ∧ request parse c = some url ∧
            Denies expectedState url denied ∧ error = notCompleted denied)) ∧
    (∀ (pre : List Connection) (rest : List Accepted), conns = pre.map .stream ++ rest →
      (∀ c' ∈ pre, Passed parse expectedState c') →
        awaitRedirect parse expectedState conns =
          ((awaitRedirect parse expectedState rest).1,
            pre.map (fun c' => (serve parse expectedState c').2) ++
              (awaitRedirect parse expectedState rest).2)) ∧
    ∀ (c : Connection) (url : Url), request parse c = some url →
      ((firstLine c.bytes).length ≤ 8192 → sent parse c = some url) ∧
        ∃ line, line <+: firstLine c.bytes ∧ line.length < 9216 ∧
          (line = firstLine c.bytes ∨ 8192 ≤ line.length) ∧
          target parse (lineText line) = some url := by
  refine ⟨fun code => ?_, fun error => ?_, ?_, ?_⟩
  · rw [outcome_iff parse expectedState (by simp)]
    simp only [stop_returned]
    constructor
    · rintro ⟨pre, x, post, hconns, hpre, c, url, rfl, hurl, hg⟩
      exact ⟨pre, c, url, post, hconns, hpre, hurl, hg⟩
    · rintro ⟨pre, c, url, post, hconns, hpre, hurl, hg⟩
      exact ⟨pre, .stream c, post, hconns, hpre, c, url, rfl, hurl, hg⟩
  · rw [outcome_iff parse expectedState (by simp)]
    simp only [stop_failed]
  · rintro pre rest rfl hpre
    exact awaitRedirect_append parse expectedState rest hpre
  · intro c url hurl
    refine ⟨request_eq_sent parse hurl, ?_⟩
    obtain ⟨text, htext, htarget⟩ := Option.bind_eq_some_iff.mp hurl
    obtain ⟨line, hline, rfl⟩ := Option.map_eq_some_iff.mp htext
    obtain ⟨hpre, hlen, hcut⟩ := lineOf_cut hline
    exact ⟨line, hpre, hlen, hcut, htarget⟩

/-- What the `url` crate makes of a favicon's address and of the answer's. -/
def faviconOrAnswer (text : List Char) : Option Url :=
  if text = "http://127.0.0.1/favicon.ico".toList then some ⟨"/favicon.ico".toList, []⟩
  else if text = "http://127.0.0.1/?state=s&code=c".toList then
    some ⟨['/'], [("state".toList, ['s']), ("code".toList, ['c'])]⟩
  else none

def bytesOf (s : List Char) : List UInt8 := s.map fun c => UInt8.ofNat c.toNat

/-- A browser asks for the favicon first, and another program says nothing. -/
def browser : List Accepted :=
  [.stream ⟨[⟨bytesOf "GET /favicon.ico HTTP/1.1\r\n".toList, by decide⟩], .silent⟩,
    .stream ⟨[], .silent⟩,
    .stream ⟨[⟨bytesOf "GET /?state=s&co".toList, by decide⟩,
      ⟨bytesOf "de=c HTTP/1.1\r\n".toList, by decide⟩], .silent⟩]

theorem redirect_takes_its_answer_browser :
    ∃ (pre : List Connection) (c : Connection) (url : Url) (post : List Accepted),
      browser = pre.map .stream ++ .stream c :: post ∧
        (∀ c' ∈ pre, Passed faviconOrAnswer ['s'] c') ∧
        request faviconOrAnswer c = some url ∧ Grants ['s'] url ['c'] :=
  ((redirect_takes_its_answer faviconOrAnswer ['s'] browser).1 ['c']).mp (by decide)

/-! ## 6. A refusal that is cut -/

theorem readLoop_cons {buf : List UInt8} (hlen : buf.length < 8192) (hnl : newline ∉ buf)
    (chunk : Read) (reads : List Read) (ending : Ending) :
    readLoop buf (chunk :: reads) ending = readLoop (buf ++ chunk.val) reads ending := by
  rw [readLoop, if_pos ⟨hlen, hnl⟩]

theorem readLoop_full {buf : List UInt8} (hlen : 8192 ≤ buf.length) (reads : List Read)
    (ending : Ending) : readLoop buf reads ending = some buf := by
  cases reads <;> rw [readLoop, if_neg (by omega)]

theorem splitWhitespace_cons {word : List Char} {space : Char} (rest : List Char)
    (hword : ∀ c ∈ word, isWhitespace c = false) (hspace : isWhitespace space = true)
    (hne : word ≠ []) : splitWhitespace (word ++ space :: rest) = word :: splitWhitespace rest := by
  simp [splitWhitespace, List.splitOnP_append_cons_of_forall_mem hword space hspace, hne]

theorem splitWhitespace_self {word : List Char} (hword : ∀ c ∈ word, isWhitespace c = false)
    (hne : word ≠ []) : splitWhitespace word = [word] := by
  simp [splitWhitespace, List.splitOnP_eq_singleton hword, hne]

/-- A read that brings a text. -/
def readOf (s : List Char) (hne : s ≠ []) (hlen : s.length ≤ 1024) : Read :=
  ⟨bytesOf s, by simpa [bytesOf] using hne, by simpa [bytesOf] using hlen⟩

theorem val_readOf {s : List Char} (hne : s ≠ []) (hlen : s.length ≤ 1024) :
    (readOf s hne hlen).val = bytesOf s := rfl

/-- The letter that fills up a request. -/
def padding (n : Nat) : List Char := List.replicate n 'a'

theorem length_padding (n : Nat) : (padding n).length = n := List.length_replicate

/-- The beginning of a request. -/
def start : List Char := "GET /?state=s&code=c&pad=".toList

theorem length_start : start.length = 25 := by
  unfold start
  rw [String.toList_ofList]
  rfl

/-- The request as far as `n` letters of its padding. -/
def partly (n : Nat) : List Char := start ++ padding n

theorem length_partly (n : Nat) : (partly n).length = 25 + n := by
  rw [partly, List.length_append, length_start, length_padding]

/-- The beginning of the request that fills one read. -/
def head : Read :=
  readOf (partly 999) (List.ne_nil_of_length_pos (by rw [length_partly]; omega))
    (by rw [length_partly])

def pad : Read :=
  readOf (padding 1024) (List.ne_nil_of_length_pos (by rw [length_padding]; omega))
    (by rw [length_padding])

/-- The error, and what is left of the line. -/
def denied : List Char := "&error=access_denied".toList

def version : List Char := "HTTP/1.1".toList

def rest : List Char := denied ++ ' ' :: version

def tail : Read := readOf (rest ++ ['\n']) (by simp) (by decide)

/-- A refusal whose request line is so long that the error in it is not read. -/
def longRefusal : Connection where
  reads := [head, pad, pad, pad, pad, pad, pad, pad, tail]
  ending := .closed

def verb : List Char := "GET".toList

def query : List Char := "/?state=s&code=c&pad=".toList

/-- The part of its target that is read. -/
def cutTarget : List Char := query ++ padding 8167

theorem partly_eq : partly 8167 = verb ++ ' ' :: cutTarget := by
  have hstart : start = verb ++ ' ' :: query := by
    unfold start verb query
    repeat rw [String.toList_ofList]
    rfl
  rw [partly, hstart, List.append_assoc, List.cons_append, ← cutTarget]

def cutPairs : List (List Char × List Char) :=
  [("state".toList, ['s']), ("code".toList, ['c']), ("pad".toList, padding 8167)]

/-- What the `url` crate makes of the two targets. -/
def readUrl (text : List Char) : Option Url :=
  if text = "http://127.0.0.1".toList ++ cutTarget then some ⟨['/'], cutPairs⟩
  else if text = "http://127.0.0.1".toList ++ (cutTarget ++ denied) then
    some ⟨['/'], cutPairs ++ [("error".toList, "access_denied".toList)]⟩
  else none

theorem padding_append (m n : Nat) : padding m ++ padding n = padding (m + n) :=
  List.replicate_append_replicate

theorem mem_padding {c : Char} {n : Nat} (h : c ∈ padding n) : c = 'a' := List.eq_of_mem_replicate h

theorem bytesOf_append (s t : List Char) : bytesOf (s ++ t) = bytesOf s ++ bytesOf t :=
  List.map_append

theorem length_bytesOf (s : List Char) : (bytesOf s).length = s.length := List.length_map _

theorem newline_not_mem_bytesOf {s : List Char} (h : ∀ c ∈ s, UInt8.ofNat c.toNat ≠ newline) :
    newline ∉ bytesOf s := by
  intro hmem
  obtain ⟨c, hc, hb⟩ := List.mem_map.mp hmem
  exact h c hc hb

theorem newline_not_mem_partly (n : Nat) : newline ∉ bytesOf (partly n) := by
  refine newline_not_mem_bytesOf fun c hc => ?_
  rcases List.mem_append.mp hc with hc | hc
  · have hstart : (start.all fun c => decide (UInt8.ofNat c.toNat ≠ newline)) = true := by
      unfold start
      rw [String.toList_ofList]
      decide
    exact of_decide_eq_true (List.all_eq_true.mp hstart c hc)
  · rw [mem_padding hc]
    decide

theorem append_pad (n : Nat) : bytesOf (partly n) ++ pad.val = bytesOf (partly (n + 1024)) := by
  rw [pad, val_readOf, ← bytesOf_append, partly, List.append_assoc, padding_append, ← partly]

theorem readLoop_pad {n : Nat} (hn : n < 8167) (reads : List Read) (ending : Ending) :
    readLoop (bytesOf (partly n)) (pad :: reads) ending =
      readLoop (bytesOf (partly (n + 1024))) reads ending := by
  have hlen : (bytesOf (partly n)).length < 8192 := by
    rw [length_bytesOf, length_partly]
    omega
  rw [readLoop_cons hlen (newline_not_mem_partly n), append_pad]

theorem lineOf_longRefusal : longRefusal.lineOf = some (bytesOf (partly 8167)) := by
  have hread : readLoop [] longRefusal.reads longRefusal.ending = some (bytesOf (partly 8167)) := by
    rw [longRefusal, readLoop_cons (by decide) (by decide)]
    rw [List.nil_append, head, val_readOf]
    iterate 7 rw [readLoop_pad (by decide)]
    exact readLoop_full (by rw [length_bytesOf, length_partly]) _ _
  rw [Connection.lineOf, hread, Option.map_some,
    (firstLine_of_not_mem (List.prefix_refl _) (newline_not_mem_partly 8167)).1]

/-- A line of plain letters, as text. -/
theorem lineText_bytesOf {s : List Char} (h : ∀ c ∈ s, c.toNat < 0x80 ∧ c ≠ '\r') :
    lineText (bytesOf s) = s := by
  rw [lineText, bytesOf, fromUtf8Lossy_ascii fun c hc => (h c hc).1, trimEnd_eq,
    List.rdropWhile_eq_self_iff]
  intro hne hlast
  exact (h _ (List.getLast_mem hne)).2 (of_decide_eq_true hlast)

/-- A letter of a line that is neither white space nor a line's end. -/
def plain (c : Char) : Bool := c.toNat < 0x80 && c ≠ '\r' && c ≠ '\n' && !isWhitespace c

theorem plain_cutTarget {c : Char} (hc : c ∈ cutTarget) : plain c = true := by
  rcases List.mem_append.mp hc with hc | hc
  · have hquery : (query.all plain) = true := by
      unfold query
      rw [String.toList_ofList]
      decide
    exact List.all_eq_true.mp hquery c hc
  · rw [mem_padding hc]
    decide

theorem not_isWhitespace_of_plain {c : Char} (h : plain c = true) : isWhitespace c = false := by
  simp only [plain, Bool.and_eq_true, Bool.not_eq_true'] at h
  exact h.2

theorem byte_ne_newline {c : Char} (h : plain c = true) : UInt8.ofNat c.toNat ≠ newline := by
  simp only [plain, Bool.and_eq_true, decide_eq_true_eq] at h
  obtain ⟨⟨⟨hascii, -⟩, hne⟩, -⟩ := h
  intro hbyte
  have hnat : c.toNat % 256 = 10 := by simpa [newline] using congrArg UInt8.toNat hbyte
  have hval : c.toNat = '\n'.toNat := by
    rw [Nat.mod_eq_of_lt (by omega)] at hnat
    exact hnat
  exact hne (Char.toNat_inj.mp hval)

theorem target_get (parse : List Char → Option Url) {t : List Char} (hne : t ≠ [])
    (ht : ∀ c ∈ t, plain c = true) (words : List Char) :
    target parse (verb ++ ' ' :: t) = parse ("http://127.0.0.1".toList ++ t) ∧
      target parse (verb ++ ' ' :: (t ++ ' ' :: words)) =
        parse ("http://127.0.0.1".toList ++ t) := by
  have hget : verb ≠ [] := by
    unfold verb
    rw [String.toList_ofList]
    exact List.cons_ne_nil _ _
  have hall : (verb.all fun c => !isWhitespace c) = true := by
    unfold verb
    rw [String.toList_ofList]
    decide
  have hverb : ∀ c ∈ verb, isWhitespace c = false := fun c hc => by
    simpa using List.all_eq_true.mp hall c hc
  have hspace : isWhitespace ' ' = true := by decide
  have ht : ∀ c ∈ t, isWhitespace c = false := fun c hc => not_isWhitespace_of_plain (ht c hc)
  constructor
  · rw [target, splitWhitespace_cons _ hverb hspace hget, splitWhitespace_self ht hne]
    rfl
  · rw [target, splitWhitespace_cons _ hverb hspace hget,
      splitWhitespace_cons _ ht hspace hne]
    rfl

/-- Plain words with blanks between them are the text of a line. -/
theorem lineText_plain {s : List Char} (h : ∀ c ∈ s, plain c = true ∨ c = ' ') :
    lineText (bytesOf s) = s := by
  refine lineText_bytesOf fun c hc => ?_
  rcases h c hc with hplain | rfl
  · simp only [plain, Bool.and_eq_true, decide_eq_true_eq] at hplain
    exact ⟨hplain.1.1.1, hplain.1.1.2⟩
  · decide

theorem plain_line {t : List Char} (ht : ∀ c ∈ t, plain c = true) :
    ∀ c ∈ verb ++ ' ' :: t, plain c = true ∨ c = ' ' := by
  intro c hc
  rcases List.mem_append.mp hc with hc | hc
  · have hverb : (verb.all plain) = true := by
      unfold verb
      rw [String.toList_ofList]
      decide
    exact .inl (List.all_eq_true.mp hverb c hc)
  · rcases List.mem_cons.mp hc with rfl | hc
    · exact .inr rfl
    · exact .inl (ht c hc)

/-- What is read of it asks for the target that is cut. -/
theorem request_longRefusal (parse : List Char → Option Url) :
    request parse longRefusal = parse ("http://127.0.0.1".toList ++ cutTarget) := by
  have hne : cutTarget ≠ [] := by
    unfold cutTarget query
    rw [String.toList_ofList]
    exact List.cons_ne_nil _ _
  have htext : readRequestLine longRefusal = some (verb ++ ' ' :: cutTarget) := by
    rw [readRequestLine, lineOf_longRefusal, partly_eq, Option.map_some,
      lineText_plain (plain_line fun c hc => plain_cutTarget hc)]
  rw [request, htext, Option.bind_some, (target_get parse hne (fun c => plain_cutTarget) []).1]

theorem bytes_longRefusal :
    longRefusal.bytes = bytesOf (partly 8167 ++ rest) ++ [newline] := by
  have hhead : head.val = bytesOf (partly 999) := rfl
  have htail : tail.val = bytesOf rest ++ [newline] := by
    rw [tail, val_readOf, bytesOf_append]
    rfl
  have hall : longRefusal.bytes = bytesOf (partly 999) ++ pad.val ++ pad.val ++ pad.val ++ pad.val ++
      pad.val ++ pad.val ++ pad.val ++ tail.val := by
    simp [Connection.bytes, longRefusal, hhead]
  rw [hall, htail, bytesOf_append]
  iterate 7 rw [append_pad]
  rw [List.append_assoc]

theorem denied_ne_nil : denied ≠ [] := by
  unfold denied
  rw [String.toList_ofList]
  exact List.cons_ne_nil _ _

theorem plain_refusal : ∀ c ∈ cutTarget ++ denied, plain c = true := by
  intro c hc
  rcases List.mem_append.mp hc with hc | hc
  · exact plain_cutTarget hc
  · have hdenied : (denied.all plain) = true := by
      unfold denied
      rw [String.toList_ofList]
      decide
    exact List.all_eq_true.mp hdenied c hc

theorem partly_rest :
    partly 8167 ++ rest = verb ++ ' ' :: (cutTarget ++ denied ++ ' ' :: version) := by
  rw [partly_eq, rest, List.append_assoc, List.cons_append, List.append_assoc]

theorem plain_whole : ∀ c ∈ verb ++ ' ' :: (cutTarget ++ denied ++ ' ' :: version),
    plain c = true ∨ c = ' ' := by
  have hversion : (version.all plain) = true := by
    unfold version
    rw [String.toList_ofList]
    decide
  intro c hc
  rw [← List.cons_append, ← List.append_assoc, List.mem_append, List.mem_cons] at hc
  rcases hc with hc | rfl | hc
  · exact plain_line plain_refusal c hc
  · exact .inr rfl
  · exact .inl (List.all_eq_true.mp hversion c hc)

/-- All that it sends asks for the target with the error. -/
theorem sent_longRefusal (parse : List Char → Option Url) :
    sent parse longRefusal = parse ("http://127.0.0.1".toList ++ (cutTarget ++ denied)) := by
  have hline : firstLine longRefusal.bytes = bytesOf (partly 8167 ++ rest) := by
    rw [bytes_longRefusal, firstLine_append]
    refine newline_not_mem_bytesOf fun c hc => ?_
    rw [partly_rest] at hc
    rcases plain_whole c hc with hplain | rfl
    · exact byte_ne_newline hplain
    · decide
  have hne : cutTarget ++ denied ≠ [] := List.append_ne_nil_of_right_ne_nil _ denied_ne_nil
  rw [sent, hline, partly_rest, lineText_plain plain_whole,
    (target_get parse hne plain_refusal version).2]

theorem grants_cut : Grants ['s'] ⟨['/'], cutPairs⟩ ['c'] := by
  have hkeys : ∀ pair ∈ cutPairs, pair.1 ≠ "error".toList := by
    have hall : (["state".toList, "code".toList, "pad".toList].all (· ≠ "error".toList)) = true := by
      decide
    intro pair hpair
    exact of_decide_eq_true (List.all_eq_true.mp hall _ (List.mem_map_of_mem (f := Prod.fst) hpair))
  exact ⟨rfl, by simp [Url.param, cutPairs], hkeys, by simp [Url.param, cutPairs]⟩

theorem readUrl_whole : readUrl ("http://127.0.0.1".toList ++ (cutTarget ++ denied)) =
    some ⟨['/'], cutPairs ++ [("error".toList, "access_denied".toList)]⟩ := by
  have hne : "http://127.0.0.1".toList ++ (cutTarget ++ denied) ≠
      "http://127.0.0.1".toList ++ cutTarget := by
    intro h
    have hnil : denied = [] := List.append_right_eq_self.mp (List.append_cancel_left h)
    exact absurd hnil denied_ne_nil
  rw [readUrl, if_neg hne, if_pos rfl]

/-- A request that carries an error is taken for one with a code. -/
theorem long_refusal_accepted :
    ¬ ∀ (parse : List Char → Option Url) (expectedState : List Char) (conns : List Accepted)
        (code : List Char), (awaitRedirect parse expectedState conns).1 = .returned code →
      ∃ c url, .stream c ∈ conns ∧ sent parse c = some url ∧ Grants expectedState url code := by
  intro hall
  have hurl : request readUrl longRefusal = some ⟨['/'], cutPairs⟩ := by
    rw [request_longRefusal, readUrl, if_pos rfl]
  have hstop : stop readUrl ['s'] (.stream longRefusal) = some (.returned ['c']) :=
    (stop_returned readUrl ['s']).mpr ⟨_, _, rfl, hurl, grants_cut⟩
  have hcode : (awaitRedirect readUrl ['s'] [.stream longRefusal]).1 = .returned ['c'] :=
    (outcome_iff readUrl ['s'] (by simp)).mpr ⟨[], _, [], rfl, by simp, hstop⟩
  obtain ⟨c, url, hc, hsent, -, -, herror, -⟩ := hall readUrl ['s'] _ _ hcode
  obtain rfl : c = longRefusal := by simpa using hc
  rw [sent_longRefusal, readUrl_whole] at hsent
  obtain rfl := Option.some.inj hsent
  exact herror ("error".toList, "access_denied".toList) (by simp) rfl

end Esmail.OAuth
