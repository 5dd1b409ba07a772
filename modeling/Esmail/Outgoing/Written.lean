/-
# No written message vanishes

A version of a message that was stored, or accepted for sending, is kept: in a table (as it will be when
the queued commands have run), in a send whose outcome will be handled, or because it has been delivered
or thrown away.  That leaves the versions that are in none of these, and which only a window still has.
There are four ways for a version to get there:

* Edit takes a message back from the outbox, and its row is deleted;
* a failure comes that is not recorded;
* a save is queued for a row that is gone;
* the core is replaced while the send is pending.

`falls` says so of a step, on the state before it, and of whose window the version falls to.  `taken` is
the list of what has fallen to a window and has not been stored, sent, delivered or thrown away since.

`loses` says which steps then lose a message, again on the state before them: those that close a window
without asking while it has taken something over, those by which something falls to a window that is not
open, and those that delete a row, or forget a send, which is newer than anything that has been delivered
or thrown away.  Of all other steps it says nothing; that they lose nothing is what has to be proved.
-/
import Esmail.Outgoing.Leaving

namespace Esmail

open Transition

/-! ## 1. Where a version is -/

def asked (requests : List (ComposeId × Request)) : List Stamp :=
  requests.filterMap fun p => p.2.state.map ComposeState.stamp

namespace Books

/-- The versions whose outcome will be handled. -/
def sends (b : Books) : List Stamp :=
  b.outstanding.filterMap fun id => (b.deliveries.inFlight.lookup id).map fun flight => flight.state.stamp

end Books

namespace System

/-- A table, a window or what it has asked for, a command that has not been executed, or a send. -/
def places (s : System) : List Stamp :=
  rowStamps s.main.db ++ s.windows.map Window.stamp ++ asked s.requests ++
    s.main.commands.flatMap stored ++ s.main.books.sends

/-- What has been stored or accepted for sending, or will be stored. -/
def answerable (s : System) : List Stamp := s.promised ++ s.main.books.writes.flatMap stored

end System

/-! ## 2. What falls to a window -/

/-- A run, with the versions that the user has thrown away, and those that have fallen to windows. -/
structure Written where
  sys : System
  thrown : List Stamp
  taken : List (ComposeId × Stamp)

namespace Written

open Books Esmail.System

/-- `send_message` gets the message queued. -/
def accepts (m : MainWindow) (refusal : Option String) (id : ComposeId) (state : ComposeState) : Bool :=
  match state.accountId.bind m.accountIndex with
  | none => false
  | some account => (m.sendMail refusal id account state).isOk

/-- `save_draft` gets a save queued. -/
def queues (m : MainWindow) (id : ComposeId) (state : ComposeState) : Bool :=
  (m.entries.lookup id).isSome && hasContent state && 0 < m.free

/-- The row that the save is for is there. -/
def findsRow (m : MainWindow) (id : ComposeId) : Bool :=
  (m.books.draftOf id).all fun row => m.books.ahead.drafts.any fun r => r.1 = row

/-- A first failure is recorded in the outbox. -/
def records (m : MainWindow) (id : ComposeId) (flight : Flight) : Bool :=
  (m.deliveries.outboxRows.lookup id).isNone && m.accounts[flight.account]?.isSome && 0 < m.free

/-- A row of these tables holds the version, or a newer one of the message. -/
def tabled (a : Ahead) (st : Stamp) : Bool :=
  (a.drafts.any fun r => st.UpTo r.2.stamp) || a.outbox.any fun r => st.UpTo r.2.stamp

/-- The version, or a newer one, has been delivered or thrown away. -/
def done (t : Written) (st : Stamp) : Bool := (t.sys.delivered ++ t.thrown).any fun q => st.UpTo q

/-- It is done, or a row of these tables has it, or a window has taken it over. -/
def rests (t : Written) (a : Ahead) (st : Stamp) : Bool :=
  t.done st || tabled a st || t.taken.any fun p => st.UpTo p.2

/-- The versions that the step takes from the tables or the mailer, or says are stored when they are
not, each with the window it falls to.  One that rests elsewhere falls to no window. -/
def falls (t : Written) : Action → List (ComposeId × Stamp)
  -- The row that the save is for is gone: the UPDATE finds nothing, and is reported as a save.
  | .handleRequest _ =>
    match t.sys.requests with
    | (id, .saveDraft state _) :: _ =>
      if queues t.sys.main id state && !findsRow t.sys.main id &&
          !t.rests t.sys.main.books.ahead state.stamp then
        [(id, state.stamp)]
      else []
    | _ => []
  -- The failure is not recorded: it has a row already, its account is gone, or the queue is full.
  | .handleOutcome =>
    match t.sys.main.outcomes with
    | .error id _ :: _ =>
      ((t.sys.main.deliveries.inFlight.lookup id).toList.filter fun flight =>
          !records t.sys.main id flight && !t.rests t.sys.main.books.ahead flight.state.stamp).map
        fun flight => (id, flight.state.stamp)
    | _ => []
  -- The row is deleted, and its message opened.
  | .editQueued row _ =>
    match t.sys.main.listedItem row with
    | some _ =>
      if 0 < t.sys.main.free then
        let rest := t.sys.main.books.ahead.outbox.filter fun r => r.1 ≠ row
        (t.sys.main.books.ahead.outbox.filter fun r =>
            r.1 = row && !t.rests { t.sys.main.books.ahead with outbox := rest } r.2.stamp).map
          fun r => (t.sys.main.deliveries.nextId.1, r.2.stamp)
      else []
    | none => []
  -- The sends go with the core.
  | .reload _ =>
    t.sys.main.books.outstanding.flatMap fun id =>
      ((t.sys.main.deliveries.inFlight.lookup id).toList.filter fun flight =>
          !t.rests t.sys.main.books.ahead flight.state.stamp).map
        fun flight => (id, flight.state.stamp)
  | _ => []

/-- The versions that the step stores, hands to the mailer or delivers: no window need keep these, or
older ones. -/
def settles (s : System) : Action → List Stamp
  | .handleRequest refusal =>
    match s.requests with
    | (id, .send state) :: _ => if accepts s.main refusal id state then [state.stamp] else []
    | (id, .saveDraft state _) :: _ =>
      if queues s.main id state && findsRow s.main id then [state.stamp] else []
    | _ => []
  | .mail none => (s.main.mails.take 1).map fun c => c.compose.stamp
  | _ => []

/-- With a window goes what it shows, with a row what it holds when it is deleted, and with a message
everything that has been written of it. -/
def throws (s : System) : Action → List Stamp
  | .clickDiscard id => (s.windows.filter fun w => w.id = id).map Window.stamp
  | .closeBox id .discard => (s.windows.filter fun w => w.id = id && w.edited && !w.sending).map Window.stamp
  | .handleRequest _ =>
    match s.requests with
    | (id, r) :: _ => s.thrownAway id r
    | [] => []
  | .deleteRow .drafts row =>
    (s.main.books.ahead.drafts.filter fun r => r.1 = row).map fun r => r.2.stamp
  | .deleteRow .outbox row =>
    (s.main.books.ahead.outbox.filter fun r => r.1 = row).map fun r => r.2.stamp
  | _ => []

/-- What the windows have taken over when the step is done. -/
def after (t : Written) (a : Action) : List (ComposeId × Stamp) :=
  (t.taken ++ t.falls a).filter fun p => !(settles t.sys a ++ throws t.sys a).any fun q => p.2.UpTo q

def next (t : Written) (a : Action) (s' : System) : Written :=
  ⟨s', t.thrown ++ throws t.sys a, t.after a⟩

def machine : Machine Written Action :=
  ⟨fun t => Started t.sys ∧ t.thrown = [] ∧ t.taken = [], fun t a => (t.sys.step a).map (t.next a)⟩

/-! ## 3. Which steps lose a message -/

/-- The window of the id shows the version, or a newer one. -/
def shows (windows : List Window) (p : ComposeId × Stamp) : Bool :=
  windows.any fun w => w.id = p.1 && p.2.UpTo w.stamp

/-- It has asked for it to be saved or sent. -/
def asks (requests : List (ComposeId × Request)) (p : ComposeId × Stamp) : Bool :=
  requests.any fun q => q.1 = p.1 && q.2.state.any fun state => p.2.UpTo state.stamp

/-- The window has taken over a version that it has not asked to be saved or sent. -/
def alone (t : Written) (id : ComposeId) : Bool := t.taken.any fun p => p.1 = id && !asks t.sys.requests p

def loses (t : Written) : Action → Bool
  -- The close box finds nothing edited, or a send that is under way.
  | .closeBox id choice =>
    (t.sys.window id).any fun w => w.closeRequested choice = some [.closed] && t.alone id
  -- `Sent` closes the window.
  | .receive id =>
    (t.sys.window id).any fun w =>
      (t.sys.main.posted.find? fun p => p.1 = id).any fun p => (w.update p.2).isNone && t.alone id
  -- The request comes to nothing, or saves to a row that is gone, and the window is closed.
  | .handleRequest refusal =>
    (t.after (.handleRequest refusal)).any fun p =>
      !(shows t.sys.windows p || asks t.sys.requests.tail p)
  -- The draft row of a message that is done is deleted.
  | .handleEvent _ _ =>
    match t.sys.main.events with
    | .draftSaved row id :: _ =>
      0 < t.sys.main.free && ((t.sys.main.entries.lookup id).any fun entry => entry.settled) &&
        t.sys.main.books.ahead.drafts.any fun r => r.1 = row && !t.done r.2.stamp
    | _ => false
  | .handleOutcome =>
    match t.sys.main.outcomes with
    -- The send is over, and the rows of its id are deleted.
    | .sent id :: _ =>
      (t.sys.main.deliveries.inFlight.lookup id).any fun flight => !t.done flight.state.stamp ||
        (t.sys.main.books.ahead.drafts.any fun r =>
          t.sys.main.books.endsDraft t.sys.main.free id r.1 && !t.done r.2.stamp) ||
        t.sys.main.books.ahead.outbox.any fun r =>
          t.sys.main.books.endsRow t.sys.main.free id r.1 && !t.done r.2.stamp
    -- A failure is not recorded, and the window is closed.
    | _ => (t.falls .handleOutcome).any fun p => !(shows t.sys.windows p || asks t.sys.requests p)
  -- A message is taken back, and no window opens.
  | .editQueued row opens => !opens && !(t.falls (.editQueued row opens)).isEmpty
  -- A send goes with the core, and its window is closed.
  | .reload accounts =>
    (t.falls (.reload accounts)).any fun p => !(shows t.sys.windows p || asks t.sys.requests p)
  | _ => false

/-! ## 4. What is kept stays kept -/

/-- What is kept where no window need keep it, and what windows have taken over. -/
def kept (t : Written) : List Stamp :=
  t.taken.map Prod.snd ++ t.sys.main.books.ahead.drafts.map (fun r => r.2.stamp) ++
    t.sys.main.books.ahead.outbox.map (fun r => r.2.stamp) ++ t.sys.main.books.sends ++
    t.sys.delivered ++ t.thrown

variable {t t' : Written}

def Covered (l : List Stamp) (st : Stamp) : Prop := ∃ q ∈ l, st.UpTo q

def Upheld (t : Written) : Prop := ∀ p ∈ t.sys.answerable, Covered t.kept p

/-- What windows have taken over they have, or have asked for. -/
def Held (t : Written) : Prop :=
  ∀ p ∈ t.taken, shows t.sys.windows p = true ∨ asks t.sys.requests p = true

theorem Covered.of_mem {l : List Stamp} {st : Stamp} (h : st ∈ l) : Covered l st := ⟨st, h, .refl st⟩

theorem Covered.upTo {l : List Stamp} {st st' : Stamp} (h : Covered l st') (hle : st.UpTo st') :
    Covered l st := by
  obtain ⟨q, hq, hle'⟩ := h
  exact ⟨q, hq, hle.trans hle'⟩

theorem mem_kept {q : Stamp} : q ∈ t.kept ↔
    (∃ p ∈ t.taken, p.2 = q) ∨ (∃ r ∈ t.sys.main.books.ahead.drafts, r.2.stamp = q) ∨
      (∃ r ∈ t.sys.main.books.ahead.outbox, r.2.stamp = q) ∨ q ∈ t.sys.main.books.sends ∨
        q ∈ t.sys.delivered ∨ q ∈ t.thrown := by
  simp only [kept, List.mem_append, List.mem_map, or_assoc]

theorem covered_draft {r : Row × ComposeState} (hr : r ∈ t.sys.main.books.ahead.drafts) :
    Covered t.kept r.2.stamp := .of_mem (mem_kept.mpr (.inr (.inl ⟨r, hr, rfl⟩)))

theorem covered_outbox {r : Row × ComposeState} (hr : r ∈ t.sys.main.books.ahead.outbox) :
    Covered t.kept r.2.stamp := .of_mem (mem_kept.mpr (.inr (.inr (.inl ⟨r, hr, rfl⟩))))

theorem covered_send {st : Stamp} (h : st ∈ t.sys.main.books.sends) : Covered t.kept st :=
  .of_mem (mem_kept.mpr (by simp [h]))

theorem covered_delivered {st : Stamp} (h : st ∈ t.sys.delivered) : Covered t.kept st :=
  .of_mem (mem_kept.mpr (by simp [h]))

theorem covered_thrown {st : Stamp} (h : st ∈ t.thrown) : Covered t.kept st :=
  .of_mem (mem_kept.mpr (by simp [h]))

theorem mem_asked {requests : List (ComposeId × Request)} {st : Stamp} :
    st ∈ asked requests ↔ ∃ id r x, (id, r) ∈ requests ∧ r.state = some x ∧ x.stamp = st := by
  simp only [asked, List.mem_filterMap, Option.map_eq_some_iff, Prod.exists, exists_and_left]

theorem mem_sends {b : Books} {st : Stamp} : st ∈ b.sends ↔
    ∃ id ∈ b.outstanding, ∃ flight, b.deliveries.inFlight.lookup id = some flight ∧
      flight.state.stamp = st := by
  simp only [Books.sends, List.mem_filterMap, Option.map_eq_some_iff]

theorem shows_iff {windows : List Window} {p : ComposeId × Stamp} :
    shows windows p = true ↔ ∃ w ∈ windows, w.id = p.1 ∧ p.2.UpTo w.stamp := by
  simp [shows]

theorem asks_iff {requests : List (ComposeId × Request)} {p : ComposeId × Stamp} :
    asks requests p = true ↔ ∃ q ∈ requests, q.1 = p.1 ∧ ∃ x, q.2.state = some x ∧ p.2.UpTo x.stamp := by
  simp [asks, Option.any_eq_true]

/-- What is delivered or thrown away stays so, and so does what windows have taken over, or it is kept
otherwise. -/
structure Carried (t t' : Written) : Prop where
  delivered : ∀ p ∈ t.sys.delivered, p ∈ t'.sys.delivered
  thrown : ∀ p ∈ t.thrown, p ∈ t'.thrown
  taken : ∀ p ∈ t.taken, Covered t'.kept p.2

theorem Carried.done (h : Carried t t') {st : Stamp} (hst : t.done st = true) : Covered t'.kept st := by
  simp only [Written.done, List.any_eq_true, List.mem_append, decide_eq_true_eq] at hst
  obtain ⟨q, hq | hq, hle⟩ := hst
  · exact (covered_delivered (h.delivered q hq)).upTo hle
  · exact (covered_thrown (h.thrown q hq)).upTo hle

theorem Carried.of_ledgers {t₀ : Written} (h : Carried t t') (hdelivered : t₀.sys.delivered = t.sys.delivered)
    (hthrown : t₀.thrown = t.thrown) (htaken : t₀.taken = t.taken) : Carried t₀ t' :=
  ⟨fun p hp => h.delivered p (hdelivered ▸ hp), fun p hp => h.thrown p (hthrown ▸ hp),
    fun p hp => h.taken p (htaken ▸ hp)⟩

section

variable {a : Action} {s' : System}

/-- What the windows had, and what falls to them, is kept: a window has it, or the step settles it. -/
theorem covered_after (hsettles : ∀ q ∈ settles t.sys a, Covered (t.next a s').kept q)
    {p : ComposeId × Stamp} (hp : p ∈ t.taken ∨ p ∈ t.falls a) : Covered (t.next a s').kept p.2 := by
  by_cases hsettled : ((settles t.sys a ++ throws t.sys a).any fun q => p.2.UpTo q) = true
  · simp only [List.any_eq_true, List.mem_append, decide_eq_true_eq] at hsettled
    obtain ⟨q, hq | hq, hle⟩ := hsettled
    · exact (hsettles q hq).upTo hle
    · exact (covered_thrown (t := t.next a s') (List.mem_append_right _ hq)).upTo hle
  · have hafter : p ∈ t.after a :=
      List.mem_filter.mpr ⟨List.mem_append.mpr hp, by rw [Bool.eq_false_iff.mpr hsettled]; rfl⟩
    exact .of_mem (mem_kept.mpr (.inl ⟨p, hafter, rfl⟩))

theorem carried_next (hdelivered : ∀ p ∈ t.sys.delivered, p ∈ s'.delivered)
    (hsettles : ∀ q ∈ settles t.sys a, Covered (t.next a s').kept q) : Carried t (t.next a s') :=
  ⟨hdelivered, fun _ hp => List.mem_append_left _ hp, fun _ hp => covered_after hsettles (.inl hp)⟩

end

section

variable {D O : Row → Prop} {F : ComposeId → Prop}

/-- What is answered for is what was, or is kept, and what was kept is. -/
theorem Upheld.next (h : Upheld t) (hcarried : Carried t t')
    (hnew : ∀ p ∈ t'.sys.answerable, p ∈ t.sys.answerable ∨ Covered t'.kept p)
    (hdrafts : ∀ r ∈ t.sys.main.books.ahead.drafts, Covered t'.kept r.2.stamp)
    (houtbox : ∀ r ∈ t.sys.main.books.ahead.outbox, Covered t'.kept r.2.stamp)
    (hsends : ∀ st ∈ t.sys.main.books.sends, Covered t'.kept st) : Upheld t' := by
  intro p hp
  rcases hnew p hp with hold | hcovered
  · obtain ⟨q, hq, hle⟩ := h p hold
    refine Covered.upTo ?_ hle
    rcases mem_kept.mp hq with ⟨p, hp, rfl⟩ | ⟨r, hr, rfl⟩ | ⟨r, hr, rfl⟩ | hq | hq | hq
    · exact hcarried.taken p hp
    · exact hdrafts r hr
    · exact houtbox r hr
    · exact hsends q hq
    · exact covered_delivered (hcarried.delivered q hq)
    · exact covered_thrown (hcarried.thrown q hq)
  · exact hcovered

theorem covered_sends (hleaves : Leaves D O F t.sys.main.books t'.sys.main.books)
    (hgone : ∀ id ∈ t.sys.main.books.outstanding, ∀ flight,
      t.sys.main.books.deliveries.inFlight.lookup id = some flight → F id →
        Covered t'.kept flight.state.stamp) :
    ∀ st ∈ t.sys.main.books.sends, Covered t'.kept st := by
  intro st hst
  obtain ⟨id, hid, flight, hf, rfl⟩ := mem_sends.mp hst
  rcases hleaves.outstanding id hid with hid' | hF
  · rcases hleaves.flight id flight hf with hf' | hF
    · exact covered_send (mem_sends.mpr ⟨id, hid', flight, hf', rfl⟩)
    · exact hgone id hid flight hf hF
  · exact hgone id hid flight hf hF

/-- A step keeps up what it leaves, and what it does not leave and is covered all the same. -/
theorem Upheld.leaves (h : Upheld t) (hcarried : Carried t t')
    (hleaves : Leaves D O F t.sys.main.books t'.sys.main.books)
    (hpromised : ∀ p ∈ t'.sys.promised, p ∈ t.sys.answerable ∨ Covered t'.kept p)
    (hD : ∀ r ∈ t.sys.main.books.ahead.drafts, D r.1 → Covered t'.kept r.2.stamp)
    (hO : ∀ r ∈ t.sys.main.books.ahead.outbox, O r.1 → Covered t'.kept r.2.stamp)
    (hF : ∀ id ∈ t.sys.main.books.outstanding, ∀ flight,
      t.sys.main.books.deliveries.inFlight.lookup id = some flight → F id →
        Covered t'.kept flight.state.stamp) : Upheld t' := by
  refine h.next hcarried (fun p hp => ?_) (fun r hr => ?_) (fun r hr => ?_) (covered_sends hleaves hF)
  · rcases List.mem_append.mp hp with hp | hp
    · exact hpromised p hp
    · exact .inl (List.mem_append_right _ (hleaves.stored p hp))
  · exact (hleaves.drafts r hr).elim covered_draft (hD r hr)
  · exact (hleaves.outbox r hr).elim covered_outbox (hO r hr)

/-- Nothing goes. -/
theorem Upheld.stay (h : Upheld t) (hcarried : Carried t t')
    (hleaves : Leaves (fun _ => False) (fun _ => False) (fun _ => False) t.sys.main.books t'.sys.main.books)
    (hpromised : ∀ p ∈ t'.sys.promised, p ∈ t.sys.answerable ∨ Covered t'.kept p) : Upheld t' :=
  h.leaves hcarried hleaves hpromised (fun _ _ h => h.elim) (fun _ _ h => h.elim) fun _ _ _ _ h => h.elim

/-- What rests elsewhere is kept, where the rows of these tables stay. -/
theorem covered_rests (hcarried : Carried t t') (hleaves : Leaves D O F t.sys.main.books t'.sys.main.books)
    {a : Ahead} {st : Stamp} (h : t.rests a st = true)
    (hdrafts : ∀ r ∈ a.drafts, r ∈ t.sys.main.books.ahead.drafts ∧ ¬ D r.1)
    (houtbox : ∀ r ∈ a.outbox, r ∈ t.sys.main.books.ahead.outbox ∧ ¬ O r.1) : Covered t'.kept st := by
  simp only [rests, tabled, Bool.or_eq_true, List.any_eq_true, decide_eq_true_eq] at h
  rcases h with (hdone | ⟨r, hr, hle⟩ | ⟨r, hr, hle⟩) | ⟨p, hp, hle⟩
  · exact hcarried.done hdone
  · obtain ⟨hmem, hnot⟩ := hdrafts r hr
    exact (covered_draft ((hleaves.drafts r hmem).resolve_right hnot)).upTo hle
  · obtain ⟨hmem, hnot⟩ := houtbox r hr
    exact (covered_outbox ((hleaves.outbox r hmem).resolve_right hnot)).upTo hle
  · exact (hcarried.taken p hp).upTo hle

end

end Written

end Esmail
