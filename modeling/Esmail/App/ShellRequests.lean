/-
# What a second launch leaves for the first

`send_request` and `take_request_in` of `shell.rs`, step by step.  A request is posted by opening its file,
which empties it, and writing the account into it; it is taken by reading the file and then removing it.
Nothing is locked, and any number of processes post.

A file that is removed while it is being written keeps being written, though no name leads to it any more:
so the bytes belong to an inode, and a name leads to one or to none.  Kept beside the program's own are the
steps' times, and whose step each inode had last (`author`): nothing it does depends on them.

`Delivered` is what a request may come to: it waits in its file, was taken as it was posted, or was
superseded by a later one; and it is taken at most once.  `delivered_of_reach` has it of every run in which
no post falls between the read of a file and its removal, or the other way round (`undisturbed`).

The argument has two halves.  `Inv` is about all the processes: the owner of an inode is who opened it
last, who lost it was superseded, and what its file holds is what the owner has written so far; `post`,
`write` and `remove` keep that, each with its lemmas on who owns what afterwards.  And the running
instance alone, when it goes on undisturbed, takes what waits, or first another that it comes to
(`exists_taken_of_scanning`); by induction on how many wait (`left`) the request's turn comes.

That a request is taken in bounded time is not said; nor is what a reader is told of a file it is refused.
-/
import Esmail.Library.Machine
import Esmail.Library.RustText
import Esmail.Library.Utf8
import Mathlib.Data.List.Nodup
import Mathlib.Logic.Function.Iterate

namespace Esmail.Shell

open Transition
open RustText (encodeUtf8 fromUtf8 trim)

/-! ## 1. Requests, and their files -/

/-- `Request`. -/
inductive Request
  | «show»
  | openAccount (account : List Char)
  | quit
  deriving DecidableEq, Repr

/-- The request files. -/
inductive RequestFile
  | quit
  | «show»
  | openAccount
  deriving DecidableEq, Repr

/-- `REQUEST_FILES`. -/
def requestFiles : List RequestFile := [.quit, .show, .openAccount]

namespace Request

/-- `Request::file_name`. -/
def file : Request → RequestFile
  | .show => .show
  | .openAccount _ => .openAccount
  | .quit => .quit

/-- What `send_request` writes. -/
def payload : Request → List UInt8
  | .openAccount account => encodeUtf8 account
  | .show | .quit => []

/-- That the account has no white space around it. -/
def trimmed : Request → Bool
  | .openAccount account => trim account == account
  | .show | .quit => true

end Request

/-- The request that `take_request_in` makes of a file it has read. -/
def received (file : RequestFile) (payload : List Char) : Request :=
  match file with
  | .quit => .quit
  | .openAccount => .openAccount (trim payload)
  | .show => .show

/-- What is written for a request is readable, and is received as that request. -/
theorem received_fromUtf8 {r : Request} (h : r.trimmed = true) :
    ∃ payload, fromUtf8 r.payload = some payload ∧ received r.file payload = r := by
  cases r with
  | «show» => exact ⟨[], RustText.fromUtf8_encodeUtf8 [], rfl⟩
  | quit => exact ⟨[], RustText.fromUtf8_encodeUtf8 [], rfl⟩
  | openAccount account =>
    exact ⟨account, RustText.fromUtf8_encodeUtf8 account, congrArg Request.openAccount (eq_of_beq h)⟩

/-- A request that was read as it was written is received as it was posted. -/
theorem received_payload {r : Request} (h : r.trimmed = true) {payload : List Char}
    (hread : encodeUtf8 payload = r.payload) : received r.file payload = r := by
  obtain ⟨payload', hreadable, hreceived⟩ := received_fromUtf8 h
  rw [← hread, RustText.fromUtf8_encodeUtf8] at hreadable
  rwa [Option.some.inj hreadable]

/-! ## 2. The processes -/

/-- A request that somebody posts: the inode it has opened, and when, and when it was written. -/
structure Posting where
  request : Request
  inode : Nat
  began : Nat
  wrote : Option Nat
  deriving DecidableEq, Repr

/-- When it did its last step. -/
def Posting.last (p : Posting) : Nat := p.wrote.getD p.began

/-- The posting, when it has been written. -/
def Posting.written (p : Posting) (now : Nat) : Posting := { p with wrote := some now }

/-- Where the running instance is in `take_request_in`. -/
inductive Taker
  | idle
  | scanning (files : List RequestFile)
  | holding (file : RequestFile) (payload : List Char) (rest : List RequestFile)
  deriving DecidableEq, Repr

/-- On to the next file, if there is one. -/
def Taker.next : List RequestFile → Taker
  | [] => .idle
  | rest => .scanning rest

/-- A request that was taken, the inode it came from, and whose the file was when it was removed. -/
structure Take where
  request : Request
  inode : Nat
  posting : Nat
  deriving DecidableEq, Repr

/-- The data directory, and the processes. -/
structure World where
  names : RequestFile → Option Nat := fun _ => none
  contents : Nat → List UInt8 := fun _ => []
  author : Nat → Nat := fun _ => 0
  inodes : Nat := 0
  postings : List Posting := []
  taker : Taker := .idle
  takes : List Take := []
  now : Nat := 0

/-- A step of some process. -/
inductive Action
  | post (request : Request)
  | write (posting : Nat)
  | poll
  | read
  | readFails
  | remove
  | removeFails
  deriving DecidableEq, Repr

namespace World

/-- The inode that opening the file of a request leads to. -/
def opened (w : World) (r : Request) : Nat := (w.names r.file).getD w.inodes

/-- The posting that begins so.  If there is nothing to write, it is done. -/
def opening (w : World) (r : Request) : Posting :=
  ⟨r, w.opened r, w.now, if r.payload = [] then some w.now else none⟩

/-- `File::create`, of `fs::write`. -/
def post (w : World) (r : Request) : World :=
  { w with
    names := Function.update w.names r.file (some (w.opened r))
    contents := Function.update w.contents (w.opened r) []
    author := Function.update w.author (w.opened r) w.postings.length
    inodes := max w.inodes (w.opened r + 1)
    postings := w.postings ++ [w.opening r]
    now := w.now + 1 }

/-- `write_all`, of `fs::write`: from the beginning of the file, over what is there by then. -/
def write (w : World) (i : Nat) (p : Posting) : World :=
  { w with
    contents := Function.update w.contents p.inode
      (p.request.payload ++ (w.contents p.inode).drop p.request.payload.length)
    author := Function.update w.author p.inode i
    postings := w.postings.set i (p.written w.now)
    now := w.now + 1 }

/-- `read_to_string`. -/
def readFile (w : World) (file : RequestFile) : Option (List Char) :=
  (w.names file).bind fun inode => fromUtf8 (w.contents inode)

/-- `remove_file`, and what is returned where it succeeds. -/
def remove (w : World) (file : RequestFile) (payload : List Char) (rest : List RequestFile) : World :=
  match w.names file with
  | none => { w with taker := .next rest }
  | some inode =>
    { w with
      names := Function.update w.names file none
      taker := .idle
      takes := w.takes ++ [⟨received file payload, inode, w.author inode⟩] }

/-- One step, if it can happen. -/
def step (w : World) : Action → Option World
  | .post r => some (w.post r)
  | .write i =>
    match w.postings[i]? with
    | none => none
    | some p => if p.wrote = none then some (w.write i p) else none
  | .poll =>
    match w.taker with
    | .idle => some { w with taker := .scanning requestFiles }
    | _ => none
  | .read =>
    match w.taker with
    | .scanning (file :: rest) =>
      match w.readFile file with
      | none => some { w with taker := .next rest }
      | some payload => some { w with taker := .holding file payload rest }
    | _ => none
  | .readFails =>
    match w.taker with
    | .scanning (_ :: rest) => some { w with taker := .next rest }
    | _ => none
  | .remove =>
    match w.taker with
    | .holding file payload rest => some (w.remove file payload rest)
    | _ => none
  | .removeFails =>
    match w.taker with
    | .holding _ _ rest => some { w with taker := .next rest }
    | _ => none

end World

/-- All the processes, from a data directory without requests. -/
def machine : Machine World Action where
  Init w := w = {}
  step := World.step

/-! ## 3. What a request comes to -/

/-- The request waits in its file. -/
def Waits (w : World) (p : Posting) : Prop :=
  w.names p.request.file = some p.inode ∧ w.contents p.inode = p.request.payload

/-- It was taken, as it was posted. -/
def Taken (w : World) (i : Nat) (p : Posting) : Prop :=
  ∃ t ∈ w.takes, t.posting = i ∧ t.request = p.request

/-- Another was posted to the same file later. -/
def Superseded (w : World) (i : Nat) (p : Posting) : Prop :=
  ∃ j q, w.postings[j]? = some q ∧ j ≠ i ∧ q.request.file = p.request.file ∧
    ∃ k, p.wrote = some k ∧ k < q.last

/-- What the running instance does next. -/
def Taker.action : Taker → Action
  | .idle => .poll
  | .scanning _ => .read
  | .holding .. => .remove

/-- The running instance goes on, while nobody else does, and it is refused nothing. -/
def World.goOn (w : World) : World := (w.step w.taker.action).getD w

/-- No request is lost, and none is taken twice: a request waits until it is taken or superseded, and the
next polls take it if nothing comes between. -/
structure Delivered (w : World) : Prop where
  each : ∀ i p, w.postings[i]? = some p → p.wrote ≠ none →
    Waits w p ∨ Taken w i p ∨ Superseded w i p
  next : w.taker = .idle → ∀ i p, w.postings[i]? = some p → p.wrote ≠ none →
    Superseded w i p ∨ ∃ n, Taken (World.goOn^[n] w) i p
  once : (w.takes.map Take.posting).Nodup

/-- That a step does not meddle with another's: a request is written to the file that was emptied for it,
over nothing longer, and a file that is removed still has in it what was read.  White space around an
account would be trimmed off. -/
def undisturbed (w : World) : Action → Bool
  | .post r => r.trimmed
  | .write i =>
    (w.postings[i]?).all fun p => w.names p.request.file = some p.inode ∧
      (w.contents p.inode).length ≤ p.request.payload.length
  | .remove =>
    match w.taker with
    | .holding file payload _ =>
      (w.names file).all fun inode => w.contents inode = encodeUtf8 payload
    | _ => true
  | _ => true

/-! ## 4. The running instance alone -/

/-- The posting waits, and nobody else has opened its inode since. -/
def Held (w : World) (i : Nat) (p : Posting) : Prop := Waits w p ∧ w.author p.inode = i

/-- How many requests there are to be taken. -/
def World.left (w : World) : Nat := requestFiles.countP fun file => (w.names file).isSome

section Alone

variable {w : World} {file : RequestFile} {rest : List RequestFile} {payload : List Char}

theorem World.goOn_poll (h : w.taker = .idle) : w.goOn = { w with taker := .scanning requestFiles } := by
  simp [World.goOn, Taker.action, World.step, h]

theorem World.goOn_skip (h : w.taker = .scanning (file :: rest)) (hread : w.readFile file = none) :
    w.goOn = { w with taker := .next rest } := by
  simp [World.goOn, Taker.action, World.step, h, hread]

theorem World.goOn_read (h : w.taker = .scanning (file :: rest))
    (hread : w.readFile file = some payload) :
    w.goOn = { w with taker := .holding file payload rest } := by
  simp [World.goOn, Taker.action, World.step, h, hread]

theorem World.goOn_remove (h : w.taker = .holding file payload rest) :
    w.goOn = w.remove file payload rest := by
  simp [World.goOn, Taker.action, World.step, h]

/-- One request less, where one is taken. -/
theorem World.left_remove {n : Nat} (h : w.names file = some n) :
    (w.remove file payload rest).left < w.left := by
  have hnames : (w.remove file payload rest).names = Function.update w.names file none := by
    simp [World.remove, h]
  unfold World.left
  rw [hnames]
  cases file <;> simp [requestFiles, List.countP_cons, Function.update, h]

theorem Request.file_mem (r : Request) : r.file ∈ requestFiles := by
  cases r <;> simp [Request.file, requestFiles]

/-- What is taken after one more step is taken. -/
theorem exists_goOn {i : Nat} {p : Posting} {w' : World} (hstep : w.goOn = w')
    (h : ∃ n, Taken (World.goOn^[n] w') i p) : ∃ n, Taken (World.goOn^[n] w) i p := by
  obtain ⟨n, hn⟩ := h
  refine ⟨n + 1, ?_⟩
  rwa [Function.iterate_succ_apply, hstep]

/-- The file that is read is removed: it was the request's own, or the request goes on waiting. -/
theorem taken_or_held {i : Nat} {p : Posting} (htrimmed : p.request.trimmed = true) (h : Held w i p)
    {n : Nat} (hname : w.names file = some n) (hread : fromUtf8 (w.contents n) = some payload)
    (rest : List RequestFile) :
    Taken (w.remove file payload rest) i p ∨ Held (w.remove file payload rest) i p := by
  obtain ⟨⟨hwaits, hcontents⟩, hauthor⟩ := h
  rcases eq_or_ne p.request.file file with rfl | hne
  · obtain rfl : p.inode = n := Option.some.inj (hwaits.symm.trans hname)
    obtain ⟨payload', hreadable, hreceived⟩ := received_fromUtf8 htrimmed
    obtain rfl : payload' = payload := by
      rw [hcontents, hreadable] at hread
      exact Option.some.inj hread
    exact .inl ⟨⟨p.request, p.inode, i⟩, by simp [World.remove, hname, hreceived, hauthor], rfl, rfl⟩
  · refine .inr ⟨⟨?_, ?_⟩, ?_⟩
    · simpa [World.remove, hname, Function.update_of_ne hne] using hwaits
    · simpa [World.remove, hname] using hcontents
    · simpa [World.remove, hname] using hauthor

/-- One poll takes the request, or another that it comes to first. -/
theorem exists_taken_of_scanning {i : Nat} {p : Posting} (htrimmed : p.request.trimmed = true)
    {bound : Nat}
    (hidle : ∀ w : World, w.left < bound → w.taker = .idle → Held w i p →
      ∃ n, Taken (World.goOn^[n] w) i p) :
    ∀ (files : List RequestFile) {w : World}, w.taker = .scanning files → p.request.file ∈ files →
      w.left = bound → Held w i p → ∃ n, Taken (World.goOn^[n] w) i p
  | [], _, _, hmem, _, _ => absurd hmem List.not_mem_nil
  | file :: rest, w, hscan, hmem, hleft, h => by
    cases hread : w.readFile file with
    | none =>
      have hne : p.request.file ≠ file := by
        rintro rfl
        obtain ⟨payload, hreadable, -⟩ := received_fromUtf8 htrimmed
        simp [World.readFile, h.1.1, h.1.2, hreadable] at hread
      have hrest : p.request.file ∈ rest := (List.mem_cons.mp hmem).resolve_left hne
      refine exists_goOn (World.goOn_skip hscan hread) ?_
      exact exists_taken_of_scanning htrimmed hidle rest
        (by cases rest with
          | nil => cases hrest
          | cons _ _ => rfl) hrest hleft h
    | some payload =>
      obtain ⟨n, hname, hpayload⟩ := Option.bind_eq_some_iff.mp hread
      refine exists_goOn (World.goOn_read hscan hread) (exists_goOn (World.goOn_remove rfl) ?_)
      rcases taken_or_held htrimmed h hname hpayload rest with htaken | hheld
      · exact ⟨0, htaken⟩
      · refine hidle _ (hleft ▸ World.left_remove hname) ?_ hheld
        simp [World.remove, hname]

/-- A request that waits is taken, by as many polls as there are files in the worst case. -/
theorem exists_taken_of_idle {i : Nat} {p : Posting} (htrimmed : p.request.trimmed = true)
    (hidle : w.taker = .idle) (h : Held w i p) : ∃ n, Taken (World.goOn^[n] w) i p := by
  -- by the number of requests that are to be taken
  induction hleft : w.left using Nat.strongRecOn generalizing w with
  | _ left ih =>
    refine exists_goOn (World.goOn_poll hidle) ?_
    exact exists_taken_of_scanning htrimmed (fun w hlt hidle h => ih _ hlt hidle h rfl) requestFiles
      rfl p.request.file_mem hleft h

end Alone

/-! ## 5. What posting and writing change -/

section Post

variable {w : World} {r : Request}

/-- What a request that is posted opens: the inode of its file, or a new one. -/
theorem World.opened_cases (w : World) (r : Request) :
    w.names r.file = some (w.opened r) ∨ w.names r.file = none ∧ w.opened r = w.inodes := by
  unfold World.opened
  cases w.names r.file with
  | none => exact .inr ⟨rfl, rfl⟩
  | some n => exact .inl rfl

theorem World.last_opening : (w.opening r).last = w.now := by
  unfold World.opening Posting.last
  dsimp only
  split <;> rfl

theorem World.names_post {f : RequestFile} {n : Nat} (h : (w.post r).names f = some n) :
    f = r.file ∧ n = w.opened r ∨ f ≠ r.file ∧ w.names f = some n := by
  unfold World.post at h
  dsimp only at h
  rcases eq_or_ne f r.file with rfl | hne
  · rw [Function.update_self] at h
    exact .inl ⟨rfl, (Option.some.inj h).symm⟩
  · rw [Function.update_of_ne hne] at h
    exact .inr ⟨hne, h⟩

theorem World.author_post_self : (w.post r).author (w.opened r) = w.postings.length :=
  Function.update_self ..

theorem World.author_post_of_ne {n : Nat} (h : n ≠ w.opened r) : (w.post r).author n = w.author n :=
  Function.update_of_ne h _ _

theorem World.mem_post {q : Posting} (h : q ∈ (w.post r).postings) :
    q ∈ w.postings ∨ q = w.opening r :=
  (List.mem_append.mp h).imp_right List.mem_singleton.mp

theorem World.getElem?_post_self : (w.post r).postings[w.postings.length]? = some (w.opening r) :=
  List.getElem?_concat_length

theorem World.getElem?_post_of_some {j : Nat} {q : Posting} (h : w.postings[j]? = some q) :
    (w.post r).postings[j]? = some q :=
  (List.getElem?_append_left (List.getElem?_eq_some_iff.mp h).1).trans h

theorem World.getElem?_post {j : Nat} {q : Posting} (h : (w.post r).postings[j]? = some q) :
    w.postings[j]? = some q ∨ j = w.postings.length ∧ q = w.opening r := by
  unfold World.post at h
  rcases Nat.lt_or_ge j w.postings.length with hlt | hge
  · rw [List.getElem?_append_left hlt] at h
    exact .inl h
  · rw [List.getElem?_append_right hge, List.getElem?_singleton] at h
    split at h
    · next hlen => exact .inr ⟨by omega, (Option.some.inj h).symm⟩
    · cases h

end Post

section Write

variable {w : World} {i : Nat} {p : Posting}

theorem World.author_write_self : (w.write i p).author p.inode = i := Function.update_self ..

theorem World.author_write_of_ne {n : Nat} (h : n ≠ p.inode) : (w.write i p).author n = w.author n :=
  Function.update_of_ne h _ _

theorem World.getElem?_write_self (hp : w.postings[i]? = some p) :
    (w.write i p).postings[i]? = some (p.written w.now) :=
  List.getElem?_set_self (List.getElem?_eq_some_iff.mp hp).1

theorem World.getElem?_write_of_ne {j : Nat} (h : j ≠ i) :
    (w.write i p).postings[j]? = w.postings[j]? :=
  List.getElem?_set_ne h.symm

theorem World.mem_write {q : Posting} (h : q ∈ (w.write i p).postings) :
    q ∈ w.postings ∨ q = p.written w.now :=
  List.mem_or_eq_of_mem_set h

/-- But for the time of the write, each posting is one of before. -/
theorem World.mem_write_same (hp : w.postings[i]? = some p) {q : Posting}
    (h : q ∈ (w.write i p).postings) :
    ∃ q' ∈ w.postings, q.request = q'.request ∧ q.inode = q'.inode := by
  rcases World.mem_write h with hq | rfl
  · exact ⟨q, hq, rfl, rfl⟩
  · exact ⟨p, List.mem_of_getElem? hp, rfl, rfl⟩

end Write

/-! ## 6. What the steps keep -/

/-- What holds of undisturbed processes: of each inode, whose it is; of each request that was posted, that
it waits or was taken while its inode is its own, and that the owner came later when it is not. -/
structure Inv (w : World) : Prop where
  named : ∀ f n, w.names f = some n → n < w.inodes
  posted : ∀ p ∈ w.postings, p.inode < w.inodes ∧ p.last < w.now ∧ p.request.trimmed = true
  sameFile : ∀ p ∈ w.postings, ∀ q ∈ w.postings, p.inode = q.inode → p.request.file = q.request.file
  fileOf : ∀ f n, w.names f = some n → ∀ p ∈ w.postings, p.inode = n → p.request.file = f
  author : ∀ n < w.inodes, ∃ p, w.postings[w.author n]? = some p ∧ p.inode = n
  taken : ∀ t ∈ w.takes, (∀ f, w.names f ≠ some t.inode) ∧ t.inode < w.inodes ∧
    ∃ p, w.postings[t.posting]? = some p ∧ p.inode = t.inode
  once : (w.takes.map Take.inode).Nodup
  current : ∀ i p, w.postings[i]? = some p → p.wrote ≠ none → w.author p.inode = i →
    Waits w p ∨ Taken w i p
  later : ∀ i p k, w.postings[i]? = some p → p.wrote = some k → w.author p.inode ≠ i →
    ∃ q, w.postings[w.author p.inode]? = some q ∧ k < q.last

namespace Inv

variable {w : World}

theorem init : Inv {} := by
  constructor <;> simp

/-- Who is not the owner of its inode was superseded by the owner. -/
theorem superseded (h : Inv w) {i : Nat} {p : Posting} (hp : w.postings[i]? = some p)
    (hwrote : p.wrote ≠ none) (hauthor : w.author p.inode ≠ i) : Superseded w i p := by
  obtain ⟨k, hk⟩ := Option.ne_none_iff_exists'.mp hwrote
  obtain ⟨q, hq, hlater⟩ := h.later i p k hp hk hauthor
  have hmem : p ∈ w.postings := List.mem_of_getElem? hp
  obtain ⟨q', hq', hinode⟩ := h.author p.inode (h.posted p hmem).1
  obtain rfl : q = q' := Option.some.inj (hq.symm.trans hq')
  exact ⟨_, q, hq, hauthor, h.sameFile q (List.mem_of_getElem? hq) p hmem hinode, k, hk, hlater⟩

/-- Two takes of one posting would be of one inode. -/
theorem nodup_takes (h : Inv w) : (w.takes.map Take.posting).Nodup := by
  rw [List.Nodup, List.pairwise_map]
  have honce := h.once
  rw [List.Nodup, List.pairwise_map] at honce
  refine honce.imp_of_mem fun {t t'} ht ht' hne heq => hne ?_
  obtain ⟨-, -, p, hp, hinode⟩ := h.taken t ht
  obtain ⟨-, -, p', hp', hinode'⟩ := h.taken t' ht'
  rw [heq, hp'] at hp
  rw [← hinode, ← hinode', Option.some.inj hp]

theorem delivered (h : Inv w) : Delivered w := by
  refine ⟨fun i p hp hwrote => ?_, fun hidle i p hp hwrote => ?_, h.nodup_takes⟩
  · by_cases hauthor : w.author p.inode = i
    · exact (h.current i p hp hwrote hauthor).imp_right .inl
    · exact .inr (.inr (h.superseded hp hwrote hauthor))
  · by_cases hauthor : w.author p.inode = i
    · refine .inr ?_
      rcases h.current i p hp hwrote hauthor with hwaits | htaken
      · have htrimmed := (h.posted p (List.mem_of_getElem? hp)).2.2
        exact exists_taken_of_idle htrimmed hidle ⟨hwaits, hauthor⟩
      · exact ⟨0, htaken⟩
    · exact .inl (h.superseded hp hwrote hauthor)

/-- What the taker does between two files changes nothing else. -/
theorem setTaker (h : Inv w) (taker : Taker) : Inv { w with taker := taker } :=
  ⟨h.named, h.posted, h.sameFile, h.fileOf, h.author, h.taken, h.once, h.current, h.later⟩

/-- No two files are of one inode. -/
theorem file_eq (h : Inv w) {f f' : RequestFile} {n : Nat} (hf : w.names f = some n)
    (hf' : w.names f' = some n) : f = f' := by
  obtain ⟨p, hp, hinode⟩ := h.author n (h.named f n hf)
  have hmem := List.mem_of_getElem? hp
  exact (h.fileOf f n hf p hmem hinode).symm.trans (h.fileOf f' n hf' p hmem hinode)

/-- The owner of an inode has that inode. -/
theorem inode_author (h : Inv w) {n : Nat} (hn : n < w.inodes) {p : Posting}
    (hp : w.postings[w.author n]? = some p) : p.inode = n := by
  obtain ⟨q, hq, hinode⟩ := h.author n hn
  rw [hp] at hq
  exact Option.some.inj hq ▸ hinode

/-- What is removed is received as it was posted, by the owner of the inode. -/
theorem remove (h : Inv w) {file : RequestFile} {payload : List Char} {rest : List RequestFile}
    (hsame : ∀ n, w.names file = some n → w.contents n = encodeUtf8 payload) :
    Inv (w.remove file payload rest) := by
  cases hname : w.names file with
  | none =>
    have heq : w.remove file payload rest = { w with taker := .next rest } := by
      simp [World.remove, hname]
    exact heq ▸ h.setTaker _
  | some n =>
    have heq : w.remove file payload rest =
        { w with
          names := Function.update w.names file none
          taker := .idle
          takes := w.takes ++ [⟨received file payload, n, w.author n⟩] } := by
      simp [World.remove, hname]
    rw [heq]
    have hnamed : ∀ {f m}, Function.update w.names file none f = some m →
        f ≠ file ∧ w.names f = some m := fun {f m} hf => by
      rcases eq_or_ne f file with rfl | hne
      · rw [Function.update_self] at hf
        cases hf
      · rw [Function.update_of_ne hne] at hf
        exact ⟨hne, hf⟩
    refine ⟨fun f m hf => h.named f m (hnamed hf).2, h.posted, h.sameFile,
      fun f m hf => h.fileOf f m (hnamed hf).2, h.author, ?_, ?_, ?_, h.later⟩
    · intro t ht
      rcases List.mem_append.mp ht with ht | ht
      · obtain ⟨hunnamed, hrest⟩ := h.taken t ht
        exact ⟨fun f hf => hunnamed f (hnamed hf).2, hrest⟩
      · obtain rfl := List.mem_singleton.mp ht
        refine ⟨fun f hf => ?_, h.named file n hname, h.author n (h.named file n hname)⟩
        exact (hnamed hf).1 (h.file_eq (hnamed hf).2 hname)
    · rw [List.map_append, List.map_singleton]
      refine List.nodup_append.mpr ⟨h.once, List.nodup_singleton n, fun m hm m' hm' hmm' => ?_⟩
      obtain ⟨t, ht, rfl⟩ := List.mem_map.mp hm
      exact (h.taken t ht).1 file (hname.trans (by rw [hmm', List.mem_singleton.mp hm']))
    · intro i p hp hwrote hauthor
      have hmem : p ∈ w.postings := List.mem_of_getElem? hp
      rcases h.current i p hp hwrote hauthor with ⟨hwaits, hcontents⟩ | ⟨t, ht, htaken⟩
      · rcases eq_or_ne p.request.file file with hfile | hne
        · -- the request that was in the file is the one that is received
          obtain rfl : p.inode = n := by
            rw [hfile, hname] at hwaits
            exact (Option.some.inj hwaits).symm
          refine .inr ⟨_, List.mem_append_right _ List.mem_cons_self, hauthor, ?_⟩
          rw [← hfile]
          exact received_payload (h.posted p hmem).2.2 ((hsame _ hname).symm.trans hcontents)
        · exact .inl ⟨(Function.update_of_ne hne _ _).trans hwaits, hcontents⟩
      · exact .inr ⟨t, List.mem_append_left _ ht, htaken⟩

/-- The owner of the inode that is written to is the one who wrote. -/
theorem author_write (h : Inv w) {i : Nat} {p : Posting} (hp : w.postings[i]? = some p) {n : Nat}
    (hn : n < w.inodes) :
    ∃ q, (w.write i p).postings[(w.write i p).author n]? = some q ∧ q.inode = n := by
  rcases eq_or_ne n p.inode with rfl | hne
  · exact ⟨p.written w.now, by rw [World.author_write_self, World.getElem?_write_self hp], rfl⟩
  · obtain ⟨q, hq, hinode⟩ := h.author n hn
    have hnot : w.author n ≠ i := fun hauthor => by
      rw [hauthor, hp] at hq
      exact hne (Option.some.inj hq ▸ hinode.symm)
    exact ⟨q, by rw [World.author_write_of_ne hne, World.getElem?_write_of_ne hnot, hq], hinode⟩

theorem current_write (h : Inv w) {i : Nat} {p : Posting} (hp : w.postings[i]? = some p)
    (hname : w.names p.request.file = some p.inode)
    (hlen : (w.contents p.inode).length ≤ p.request.payload.length) {j : Nat} {q : Posting}
    (hq : (w.write i p).postings[j]? = some q) (hwrote : q.wrote ≠ none)
    (hauthor : (w.write i p).author q.inode = j) : Waits (w.write i p) q ∨ Taken (w.write i p) j q := by
  rcases eq_or_ne j i with rfl | hne
  · obtain rfl := Option.some.inj ((World.getElem?_write_self hp).symm.trans hq)
    refine .inl ⟨hname, (Function.update_self ..).trans ?_⟩
    rw [List.drop_eq_nil_of_le hlen]
    exact List.append_nil _
  · rw [World.getElem?_write_of_ne hne] at hq
    have hinode : q.inode ≠ p.inode := fun heq => by
      rw [heq, World.author_write_self] at hauthor
      exact hne hauthor.symm
    rw [World.author_write_of_ne hinode] at hauthor
    refine (h.current j q hq hwrote hauthor).imp_left fun ⟨hwaits, hcontents⟩ => ⟨hwaits, ?_⟩
    exact (Function.update_of_ne hinode _ _).trans hcontents

/-- Whoever loses its inode to the one who writes was done before it. -/
theorem later_write (h : Inv w) {i : Nat} {p : Posting} (hp : w.postings[i]? = some p) {j k : Nat}
    {q : Posting} (hq : (w.write i p).postings[j]? = some q) (hk : q.wrote = some k)
    (hauthor : (w.write i p).author q.inode ≠ j) :
    ∃ r, (w.write i p).postings[(w.write i p).author q.inode]? = some r ∧ k < r.last := by
  rcases eq_or_ne j i with rfl | hne
  · obtain rfl := Option.some.inj ((World.getElem?_write_self hp).symm.trans hq)
    exact absurd World.author_write_self hauthor
  · rw [World.getElem?_write_of_ne hne] at hq
    have hmem := List.mem_of_getElem? hq
    rcases eq_or_ne q.inode p.inode with heq | hinode
    · refine ⟨p.written w.now, by rw [heq, World.author_write_self, World.getElem?_write_self hp], ?_⟩
      have hbefore := (h.posted q hmem).2.1
      rwa [Posting.last, hk] at hbefore
    · rw [World.author_write_of_ne hinode] at hauthor ⊢
      obtain ⟨r, hr, hlater⟩ := h.later j q k hq hk hauthor
      have hnot : w.author q.inode ≠ i := fun hi => by
        have hrinode := h.inode_author (h.posted q hmem).1 hr
        rw [hi, hp] at hr
        exact hinode (Option.some.inj hr ▸ hrinode.symm)
      exact ⟨r, (World.getElem?_write_of_ne hnot).trans hr, hlater⟩

/-- A request is written over what is no longer than it: then it is all there is in the file. -/
theorem write (h : Inv w) {i : Nat} {p : Posting} (hp : w.postings[i]? = some p)
    (hname : w.names p.request.file = some p.inode)
    (hlen : (w.contents p.inode).length ≤ p.request.payload.length) : Inv (w.write i p) := by
  refine ⟨h.named, fun q hq => ?_, fun q hq r hr hqr => ?_, fun f n hf q hq hqn => ?_,
    fun n hn => h.author_write hp hn, fun t ht => ?_, h.once,
    fun j q hq hwrote hauthor => h.current_write hp hname hlen hq hwrote hauthor,
    fun j q k hq hk hauthor => h.later_write hp hq hk hauthor⟩
  · rcases World.mem_write hq with hq | rfl
    · obtain ⟨hlt, hbefore, htrimmed⟩ := h.posted q hq
      exact ⟨hlt, Nat.lt_succ_of_lt hbefore, htrimmed⟩
    · obtain ⟨hlt, -, htrimmed⟩ := h.posted p (List.mem_of_getElem? hp)
      exact ⟨hlt, Nat.lt_succ_self _, htrimmed⟩
  · obtain ⟨q', hq', hrequest, hinode⟩ := World.mem_write_same hp hq
    obtain ⟨r', hr', hrequest', hinode'⟩ := World.mem_write_same hp hr
    rw [hrequest, hrequest']
    exact h.sameFile q' hq' r' hr' (by rw [← hinode, ← hinode', hqr])
  · obtain ⟨q', hq', hrequest, hinode⟩ := World.mem_write_same hp hq
    rw [hrequest]
    exact h.fileOf f n hf q' hq' (hinode ▸ hqn)
  · obtain ⟨hunnamed, hlt, q, hq, hinode⟩ := h.taken t ht
    refine ⟨hunnamed, hlt, ?_⟩
    rcases eq_or_ne t.posting i with heq | hne
    · rw [heq, hp] at hq
      exact ⟨p.written w.now, by rw [heq, World.getElem?_write_self hp], Option.some.inj hq ▸ hinode⟩
    · exact ⟨q, (World.getElem?_write_of_ne hne).trans hq, hinode⟩

/-- Whoever has the inode that is opened posted to the same file, and nobody took it. -/
theorem opened_spec (h : Inv w) (r : Request) :
    (∀ p ∈ w.postings, p.inode = w.opened r → p.request.file = r.file) ∧
      (∀ f, w.names f = some (w.opened r) → f = r.file) ∧
      ∀ t ∈ w.takes, t.inode ≠ w.opened r := by
  rcases w.opened_cases r with hname | ⟨-, hnew⟩
  · exact ⟨h.fileOf _ _ hname, fun f hf => h.file_eq hf hname,
      fun t ht heq => (h.taken t ht).1 _ (heq ▸ hname)⟩
  · rw [hnew]
    exact ⟨fun p hp heq => absurd heq (Nat.ne_of_lt (h.posted p hp).1),
      fun f hf => absurd (h.named f _ hf) (Nat.lt_irrefl _),
      fun t ht => Nat.ne_of_lt (h.taken t ht).2.1⟩

/-- The files of the inodes, when one is opened. -/
theorem fileOf_post (h : Inv w) (r : Request) {f : RequestFile} {n : Nat}
    (hf : (w.post r).names f = some n) {q : Posting} (hq : q ∈ (w.post r).postings)
    (hqn : q.inode = n) : q.request.file = f := by
  obtain ⟨hfile, hnames, -⟩ := h.opened_spec r
  rcases World.names_post hf with ⟨rfl, rfl⟩ | ⟨hne, hf⟩
  · rcases World.mem_post hq with hq | rfl
    · exact hfile q hq hqn
    · rfl
  · rcases World.mem_post hq with hq | rfl
    · exact h.fileOf f n hf q hq hqn
    · obtain rfl : w.opened r = n := hqn
      exact absurd (hnames f hf) hne

/-- The owner of the inode that is opened is the one who opened it. -/
theorem author_post (h : Inv w) (r : Request) {n : Nat} (hn : n < (w.post r).inodes) :
    ∃ p, (w.post r).postings[(w.post r).author n]? = some p ∧ p.inode = n := by
  rcases eq_or_ne n (w.opened r) with rfl | hne
  · exact ⟨w.opening r, by rw [World.author_post_self, World.getElem?_post_self], rfl⟩
  · have hlt : n < w.inodes := by
      have hmax : n < max w.inodes (w.opened r + 1) := hn
      rcases w.opened_cases r with hopen | ⟨-, hnew⟩
      · have := h.named _ _ hopen
        omega
      · omega
    obtain ⟨q, hq, hinode⟩ := h.author n hlt
    exact ⟨q, by rw [World.author_post_of_ne hne, World.getElem?_post_of_some hq], hinode⟩

/-- What waits in another file goes on waiting. -/
theorem waits_post {p : Posting} {r : Request} (hinode : p.inode ≠ w.opened r) (hwaits : Waits w p) :
    Waits (w.post r) p := by
  have hne : p.request.file ≠ r.file := fun heq => by
    rcases w.opened_cases r with hopen | ⟨hnone, -⟩
    · exact hinode (Option.some.inj (hwaits.1.symm.trans (heq ▸ hopen)))
    · cases (heq ▸ hnone : w.names p.request.file = none).symm.trans hwaits.1
  exact ⟨(Function.update_of_ne hne _ _).trans hwaits.1,
    (Function.update_of_ne hinode _ _).trans hwaits.2⟩

theorem current_post (h : Inv w) (r : Request) {i : Nat} {p : Posting}
    (hp : (w.post r).postings[i]? = some p) (hwrote : p.wrote ≠ none)
    (hauthor : (w.post r).author p.inode = i) : Waits (w.post r) p ∨ Taken (w.post r) i p := by
  rcases World.getElem?_post hp with hp | ⟨rfl, rfl⟩
  · have hinode : p.inode ≠ w.opened r := fun heq => by
      rw [heq, World.author_post_self] at hauthor
      exact absurd (List.getElem?_eq_some_iff.mp hp).1 (hauthor ▸ Nat.lt_irrefl _)
    rw [World.author_post_of_ne hinode] at hauthor
    exact (h.current i p hp hwrote hauthor).imp_left (waits_post hinode)
  · -- it was written only if there was nothing to write
    have hempty : r.payload = [] := by
      by_contra hne
      exact hwrote (if_neg hne)
    exact .inl ⟨Function.update_self .., (Function.update_self ..).trans hempty.symm⟩

/-- Whoever loses its inode to the request that is posted came before it. -/
theorem later_post (h : Inv w) (r : Request) {i k : Nat} {p : Posting}
    (hp : (w.post r).postings[i]? = some p) (hk : p.wrote = some k)
    (hauthor : (w.post r).author p.inode ≠ i) :
    ∃ q, (w.post r).postings[(w.post r).author p.inode]? = some q ∧ k < q.last := by
  rcases World.getElem?_post hp with hp | ⟨rfl, rfl⟩
  · rcases eq_or_ne p.inode (w.opened r) with heq | hinode
    · refine ⟨w.opening r, by rw [heq, World.author_post_self, World.getElem?_post_self], ?_⟩
      have hbefore := (h.posted p (List.mem_of_getElem? hp)).2.1
      rw [Posting.last, hk] at hbefore
      exact World.last_opening ▸ hbefore
    · rw [World.author_post_of_ne hinode] at hauthor ⊢
      obtain ⟨q, hq, hlater⟩ := h.later i p k hp hk hauthor
      exact ⟨q, World.getElem?_post_of_some hq, hlater⟩
  · exact absurd World.author_post_self hauthor

/-- A request is posted: what was in its file is superseded. -/
theorem post (h : Inv w) {r : Request} (hr : r.trimmed = true) : Inv (w.post r) := by
  obtain ⟨hfile, -, htakes⟩ := h.opened_spec r
  have hinodes : w.inodes ≤ (w.post r).inodes := Nat.le_max_left _ _
  have hopened : w.opened r < (w.post r).inodes := Nat.le_max_right _ _
  refine ⟨fun f n hf => ?_, fun q hq => ?_, fun p hp q hq hpq => ?_,
    fun f n hf q hq hqn => h.fileOf_post r hf hq hqn, fun n hn => h.author_post r hn,
    fun t ht => ?_, h.once, fun i p hp hwrote hauthor => h.current_post r hp hwrote hauthor,
    fun i p k hp hk hauthor => h.later_post r hp hk hauthor⟩
  · rcases World.names_post hf with ⟨rfl, rfl⟩ | ⟨-, hf⟩
    · exact hopened
    · exact Nat.lt_of_lt_of_le (h.named f n hf) hinodes
  · rcases World.mem_post hq with hq | rfl
    · obtain ⟨hlt, hbefore, htrimmed⟩ := h.posted q hq
      exact ⟨Nat.lt_of_lt_of_le hlt hinodes, Nat.lt_succ_of_lt hbefore, htrimmed⟩
    · refine ⟨hopened, ?_, hr⟩
      rw [World.last_opening]
      exact Nat.lt_succ_self _
  · rcases World.mem_post hp with hp | rfl <;> rcases World.mem_post hq with hq | rfl
    · exact h.sameFile p hp q hq hpq
    · exact hfile p hp hpq
    · exact (hfile q hq hpq.symm).symm
    · rfl
  · obtain ⟨hunnamed, hlt, q, hq, hinode⟩ := h.taken t ht
    refine ⟨fun f hf => ?_, Nat.lt_of_lt_of_le hlt hinodes, q, World.getElem?_post_of_some hq, hinode⟩
    rcases World.names_post hf with ⟨rfl, hn⟩ | ⟨-, hf⟩
    · exact htakes t ht hn
    · exact hunnamed f hf

/-- One step of whichever process. -/
theorem step (h : Inv w) {a : Action} {w' : World} (hok : undisturbed w a = true)
    (hstep : w.step a = some w') : Inv w' := by
  unfold World.step at hstep
  split at hstep
  case h_1 r => -- a request is posted
    exact Option.some.inj hstep ▸ h.post hok
  case h_2 i => -- it is written
    cases hp : w.postings[i]? with
    | none => simp [hp] at hstep
    | some p =>
      obtain ⟨hwaits, hlen⟩ : w.names p.request.file = some p.inode ∧
          (w.contents p.inode).length ≤ p.request.payload.length := by
        simpa [undisturbed, hp] using hok
      rw [hp] at hstep
      dsimp only at hstep
      split at hstep
      · exact Option.some.inj hstep ▸ h.write hp hwaits hlen
      · cases hstep
  case h_3 => -- the files are gone through
    split at hstep
    · exact Option.some.inj hstep ▸ h.setTaker _
    · cases hstep
  case h_4 =>
    split at hstep
    · split at hstep <;> exact Option.some.inj hstep ▸ h.setTaker _
    · cases hstep
  case h_5 =>
    split at hstep
    · exact Option.some.inj hstep ▸ h.setTaker _
    · cases hstep
  case h_6 => -- the file is removed
    split at hstep
    · next file payload rest htaker =>
      refine Option.some.inj hstep ▸ h.remove fun n hname => ?_
      simpa [undisturbed, htaker, hname] using hok
    · cases hstep
  case h_7 =>
    split at hstep
    · exact Option.some.inj hstep ▸ h.setTaker _
    · cases hstep

end Inv

/-! ## 7. The run -/

/-- No request is lost, in a run in which no step meddles with another's: in every state of it each request
that was written waits, was taken as it was posted, or was superseded by a later one, and none was taken
twice.

The induction is over the run, with `Inv`; `Delivered` is read off it at the end. -/
theorem delivered_of_reach {w : World}
    (h : Machine.Reach machine (fun w a => undisturbed w a = true) w) : Delivered w := by
  refine Inv.delivered (Machine.Reach.invariant (fun w hinit => ?_) (fun w a w' _ hw hok hstep => ?_) h)
  · obtain rfl : w = {} := hinit
    exact Inv.init
  · exact hw.step hok hstep

/-- An account is asked for and then another, and a quit is taken between the opening of the second's
file and its writing. -/
theorem delivered_of_reach_superseded :
    ∃ w : World, (w.takes.map Take.request = [.quit] ∧ w.taker = .idle) ∧ Delivered w := by
  obtain ⟨w, hr, hw⟩ := Machine.exists_reach_of_trace machine
    (fun w a => undisturbed w a = true) (s := {})
    [.post (.openAccount ['a']), .write 0, .post .quit, .poll, .read, .post (.openAccount ['b']),
      .remove, .write 2]
    (fun w => w.takes.map Take.request = [.quit] ∧ w.taker = .idle) rfl (by decide)
  exact ⟨w, of_decide_eq_true hw, delivered_of_reach hr⟩

/-- An account is asked for, and read; another is asked for before the file is removed.  The second is
removed unread: it neither waits nor was taken, and nobody came after it. -/
theorem removed_unread : ¬∀ w : World, Machine.Reach machine Machine.any w → Delivered w := by
  intro hall
  obtain ⟨w, hr, hw⟩ := Machine.exists_reach_of_trace machine Machine.any (s := {})
    [.post (.openAccount ['a']), .write 0, .poll, .read, .read, .read, .post (.openAccount ['b']),
      .write 1, .remove]
    (fun w => w.names .openAccount = none ∧ w.takes.map Take.request = [.openAccount ['a']] ∧
      w.postings = [⟨.openAccount ['a'], 0, 0, some 1⟩, ⟨.openAccount ['b'], 0, 2, some 3⟩])
    rfl (by decide)
  obtain ⟨hnames, htakes, hpostings⟩ := of_decide_eq_true hw
  have hsecond : w.postings[1]? = some ⟨.openAccount ['b'], 0, 2, some 3⟩ := by rw [hpostings]; rfl
  rcases (hall w hr).each 1 _ hsecond (by decide) with ⟨hwaits, -⟩ | ⟨t, ht, -, heq⟩ | hlater
  · cases hnames.symm.trans hwaits
  · have hmem : t.request ∈ w.takes.map Take.request := List.mem_map_of_mem ht
    rw [htakes, heq] at hmem
    exact absurd hmem (by decide)
  · obtain ⟨j, q, hq, hne, -, k, hk, hlt⟩ := hlater
    obtain rfl : k = 3 := (Option.some.inj hk).symm
    rw [hpostings] at hq
    rcases j with _ | _ | j
    · obtain rfl := Option.some.inj hq
      exact absurd hlt (by decide)
    · exact hne rfl
    · cases hq

end Esmail.Shell
