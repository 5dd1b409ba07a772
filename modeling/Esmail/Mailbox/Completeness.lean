/-
# Is every message loaded once paging is complete?

A page is asked for by number, so a message that leaves the mailbox between two pages shifts
every older message one place up, and the one that moves into a page already fetched is skipped
(`page_shift_skips`).  Nothing brings it back: `append` keeps only what is older than the oldest
loaded row.

`complete_shows_all` is about the runs in which the pages adjoin (`pagesAdjoin`): when the server answers,
the messages that are already loaded still fill the pages before the one it serves.  A folder that says it
is complete then has every message of the server among its rows.

`Paged` is the invariant: what is not loaded is older than all that is, and a waiting page starts where
the loaded rows end.  A message that leaves keeps it (`of_shrink`); an answer and its arrival are a case
each (`answered`, `applied`).  The folder is complete when the last page has arrived, and then nothing is
older than what is loaded.

New mail, cached rows and refreshes are left out of these runs (`paging`): what they do to the order of
the rows is in `Holes.lean`.
-/
import Esmail.Mailbox.Session

namespace Esmail.Session

open Transition OpenFolder

/-! ## 1. The runs, and the condition -/

/-- Opening a folder and paging through it, while messages leave it: no new mail, no cached rows,
no refresh. -/
def paging (_ : Session) : Action → Prop
  | .arrive _ | .seed _ | .refreshRequest => False
  | _ => True

/-- The condition on one step of a run: when the outstanding page request is answered the page
adjoins the rows, and the page count does not wrap. -/
def pagesAdjoin (s : Session) : Action → Prop
  | .answer i => ∀ q ∈ s.requests[i]?, s.folder.pageRequest = some q.id →
      pageAdjoins s q.page ∧ s.mailbox.messages.length + (pageSize - 1) < 2 ^ 32
  | a => paging s a

instance (s : Session) : (a : Action) → Decidable (paging s a)
  | .arrive _ | .seed _ | .refreshRequest => isFalse id
  | .expunge _ | .move _ | .removeRow _ | .setFlags .. | .nextRequest | .pageFailed | .answer _ |
    .apply _ => isTrue trivial

instance (s : Session) : (a : Action) → Decidable (pagesAdjoin s a)
  | .answer i => inferInstanceAs (Decidable (∀ q ∈ s.requests[i]?,
      s.folder.pageRequest = some q.id → _ ∧ _))
  | .arrive _ | .seed _ | .refreshRequest => isFalse id
  | .expunge _ | .move _ | .removeRow _ | .setFlags .. | .nextRequest | .pageFailed |
    .apply _ => isTrue trivial

/-! ## 2. The invariant -/

structure Paged (s : Session) : Prop where
  unseeded : s.folder.firstPageArrived = false → s.folder.headers = []
  noRefresh : s.folder.refreshRequest = none
  older : ∀ u, s.mailbox.has u → u ∈ s.rows ∨ ∀ b ∈ s.rows, u < b
  adjoins : ∀ r ∈ s.replies, s.folder.pageRequest = some r.id → ∀ u, s.mailbox.has u →
    u ∉ s.rows → u ∈ uids r.headers ∨ ∀ x ∈ uids r.headers, u < x
  last : ∀ r ∈ s.replies, s.folder.pageRequest = some r.id → r.totalPages ≤ r.page →
    ∀ u, s.mailbox.has u → u ∉ s.rows → u ∈ uids r.headers
  complete : s.folder.isComplete = true → ∀ u, s.mailbox.has u → u ∈ s.rows

/-- Messages leaving the mailbox, and the rows of such messages going, keep `Paged`. -/
theorem Paged.of_shrink {s : Session} (hp : Paged s) {m : Mailbox} {moved : List Nat}
    {headers : List MailHeader} {rows : List RowModel}
    (hhas : ∀ u, m.has u → s.mailbox.has u)
    (hsub : ∀ u ∈ uids headers, u ∈ s.rows)
    (hkeep : ∀ u, m.has u → u ∈ s.rows → u ∈ uids headers)
    (hnil : s.folder.headers = [] → headers = []) :
    Paged { s with
      mailbox := m
      moved := moved
      folder := { s.folder with headers := headers, rows := rows } } := by
  refine ⟨fun h => hnil (hp.unseeded h), hp.noRefresh, ?_, ?_, ?_, ?_⟩
  · intro u hu
    rcases hp.older u (hhas u hu) with hrow | hlt
    · exact Or.inl (hkeep u hu hrow)
    · exact Or.inr fun b hb => hlt b (hsub b hb)
  · intro r hr hid u hu hnot
    exact hp.adjoins r hr hid u (hhas u hu) fun hrow => hnot (hkeep u hu hrow)
  · intro r hr hid hpage u hu hnot
    exact hp.last r hr hid hpage u (hhas u hu) fun hrow => hnot (hkeep u hu hrow)
  · intro hc u hu
    exact hkeep u hu (hp.complete hc u (hhas u hu))

theorem Paged.answered {s : Session} {i : Nat} {q : PageRequest} (hp : Paged s)
    (hq : s.requests[i]? = some q) (hok : pagesAdjoin s (.answer i)) :
    Paged { s with requests := s.requests.eraseIdx i, replies := s.replies ++ [serve s.mailbox q] } := by
  refine ⟨hp.unseeded, hp.noRefresh, hp.older, ?_, ?_, hp.complete⟩
  · intro r hr hid u hu hnot
    rcases List.mem_append.mp hr with hr | hr
    · exact hp.adjoins r hr hid u hu hnot
    · rw [List.mem_singleton.mp hr] at hid ⊢
      exact (hok q hq hid).1.reaches hu ((hp.older u hu).resolve_left hnot)
  · intro r hr hid hpage u hu hnot
    rcases List.mem_append.mp hr with hr | hr
    · exact hp.last r hr hid hpage u hu hnot
    -- On the last page nothing is older than the page, and nothing unloaded is newer.
    · rw [List.mem_singleton.mp hr] at hid hpage ⊢
      obtain ⟨hadj, hsize⟩ := hok q hq hid
      rcases last_page_reaches_bottom s.mailbox hsize hpage hu with hmem | hnewer
      · exact hmem
      · rcases hadj.reaches hu ((hp.older u hu).resolve_left hnot) with hmem | holder
        · exact hmem
        · exact mem_of_between s.mailbox q.page hu hnewer holder

theorem Paged.applied {s : Session} {i : Nat} {r : HeadersReply} {f : OpenFolder} (hp : Paged s)
    (hr : s.replies[i]? = some r)
    (he : s.folder.ReplyEffect r.id r.page r.totalPages r.headers f) :
    Paged { s with folder := f, replies := s.replies.eraseIdx i } := by
  have hmem : r ∈ s.replies := List.mem_of_getElem? hr
  cases he with
  | stale _ _ =>
    exact ⟨hp.unseeded, hp.noRefresh, hp.older,
      fun r' hr' => hp.adjoins r' (List.mem_of_mem_eraseIdx hr'),
      fun r' hr' => hp.last r' (List.mem_of_mem_eraseIdx hr'), hp.complete⟩
  | @appended headers rows hpage _ hload =>
    have hrows : ∀ u, u ∈ uids headers ↔
        u ∈ s.rows ∨ u ∈ uids (appended s.folder.headers r.headers) := by
      intro u
      rw [hload, uids_append, List.mem_append]
      rfl
    -- What is unloaded and on the page gets loaded: it is older than every row.
    have hadd : ∀ u, s.mailbox.has u → u ∉ s.rows → u ∈ uids r.headers →
        u ∈ uids (appended s.folder.headers r.headers) := by
      intro u hu hnot hin
      have hlt := (hp.older u hu).resolve_left hnot
      obtain ⟨x, hx, rfl⟩ := mem_uids.mp hin
      have hmax := s.mailbox.assigned x.uid hu
      have hrep := s.mailbox.representable
      exact mem_uids_of_mem (mem_appended_of_lt hx (by omega)
        fun b hb => hlt b.uid (mem_uids_of_mem hb))
    refine ⟨fun h => absurd h (by simp), hp.noRefresh, ?_, fun r' _ hid => absurd hid (by simp),
      fun r' _ hid => absurd hid (by simp), ?_⟩
    · intro u hu
      by_cases hrow : u ∈ s.rows
      · exact Or.inl ((hrows u).mpr (Or.inl hrow))
      · rcases hp.adjoins r hmem hpage u hu hrow with hin | hlt
        · exact Or.inl ((hrows u).mpr (Or.inr (hadd u hu hrow hin)))
        · refine Or.inr fun b hb => ?_
          rcases (hrows b).mp hb with hb | hb
          · exact (hp.older u hu).resolve_left hrow b hb
          · exact hlt b ((List.Sublist.map _ List.filter_sublist).subset hb)
    · intro hc u hu
      have hlast : r.totalPages ≤ r.page := by
        simp only [isComplete, decide_eq_true_eq] at hc
        omega
      by_cases hrow : u ∈ s.rows
      · exact (hrows u).mpr (Or.inl hrow)
      · exact (hrows u).mpr (Or.inr (hadd u hu hrow (hp.last r hmem hpage hlast u hu hrow)))
  | merged _ hc _ _ =>
    simp only [isCachedOnly, Bool.and_eq_true, Bool.not_eq_true', List.isEmpty_eq_false_iff] at hc
    exact absurd (hp.unseeded hc.1) hc.2
  | refreshed _ hreq _ _ => exact absurd (hp.noRefresh.symm.trans hreq) (by simp)

theorem Paged.effect {s s' : Session} {a : Action} (hs : Sound s) (hp : Paged s)
    (hok : pagesAdjoin s a) (h : Effect s a s') : Paged s' := by
  cases h with
  | arrived _ => exact hok.elim
  | expunged =>
    exact hp.of_shrink (fun u hu => (Mailbox.has_expunge.mp hu).1) (fun u hu => hu)
      (fun u _ hu => hu) (fun h => h)
  | moved _ =>
    exact hp.of_shrink (fun u hu => (Mailbox.has_expunge.mp hu).1) (fun u hu => hu)
      (fun u _ hu => hu) (fun h => h)
  | @rowRemoved uid headers _ hmoved hsub hkeep =>
    refine hp.of_shrink (fun u hu => hu) (fun u hu => (hsub.map _).subset hu) ?_ ?_
    · intro u hu hrow
      refine hkeep u hrow ?_
      rintro rfl
      exact (hs.movedGone u hmoved).1 hu
    · intro hnil
      rw [hnil] at hsub
      exact List.sublist_nil.mp hsub
  | @flagged _ _ headers _ hu =>
    refine hp.of_shrink (fun u hu => hu) (fun u h => by simpa only [Session.rows, hu] using h)
      (fun u _ h => by simpa only [Session.rows, hu] using h) ?_
    intro hnil
    rw [hnil] at hu
    exact List.map_eq_nil_iff.mp hu
  | refused => exact hp
  | seeded _ _ => exact hok.elim
  | pageRequested _ _ =>
    exact ⟨hp.unseeded, hp.noRefresh, hp.older, fun r hr hid => absurd hid (hs.reply_id_ne hr),
      fun r hr hid => absurd hid (hs.reply_id_ne hr), hp.complete⟩
  | refreshRequested _ => exact hok.elim
  | pageFailed =>
    exact ⟨hp.unseeded, hp.noRefresh, hp.older, fun r _ hid => absurd hid (by simp),
      fun r _ hid => absurd hid (by simp), hp.complete⟩
  | answered hq => exact hp.answered hq hok
  | applied hr he => exact hp.applied hr he

variable {zone : LocalDateTime}

theorem paged_of_reach {s : Session} (h : (machine zone).Reach pagesAdjoin s) : Paged s := by
  refine h.invariant ?_ ?_
  · rintro s ⟨hf, -, hr, -⟩
    refine ⟨?_, ?_, ?_, ?_, ?_, ?_⟩ <;> simp [Session.rows, hf, hr, isComplete]
  · intro s a s' hreach hp hok hst
    exact hp.effect (sound_of_reach zone hreach) hok (step_effect zone hst)

/-! ## 3. Completeness -/

/-- In a run whose pages adjoin, a folder that is complete shows every message on the server: what is not
loaded is older than all that is, and behind the last page there is nothing older. -/
theorem complete_shows_all {s : Session} (h : (machine zone).Reach pagesAdjoin s)
    (hc : s.folder.isComplete = true) {u : Nat} (hu : s.mailbox.has u) : u ∈ s.rows :=
  (paged_of_reach h).complete hc u hu

/-- Such a run: 60 messages in two pages, and the oldest is moved out before the second. -/
theorem complete_shows_all_of_two_pages : ∃ s : Session, s.folder.isComplete = true ∧
    s.mailbox.has 2 ∧ ¬ s.mailbox.has 1 ∧ 2 ∈ s.rows := by
  obtain ⟨s, hr, hp⟩ := Machine.exists_reach_of_trace (machine fun _ => none) pagesAdjoin
    [.nextRequest, .answer 0, .apply 0, .move 1, .nextRequest, .answer 0, .apply 0]
    (fun s => decide (s.folder.isComplete = true ∧ s.mailbox.has 2 ∧ ¬ s.mailbox.has 1))
    (opened_openedOn 60 (by decide)) (by decide)
  obtain ⟨hc, h2, h1⟩ := of_decide_eq_true hp
  exact ⟨s, hc, h2, h1, complete_shows_all hr hc h2⟩

/-- Without the condition a message is skipped.  Of 100 messages the newest page is loaded, number
100 is moved out, and page 2 now starts at message 49: 50 is never loaded. -/
theorem page_shift_skips : ¬ ∀ (s : Session) (u : Nat), (machine fun _ => none).Reach paging s →
    s.folder.isComplete = true → s.folder.pageRequest = none → s.mailbox.has u → u ∈ s.rows := by
  intro hall
  obtain ⟨s, hr, hp⟩ := Machine.exists_reach_of_trace (machine fun _ => none) paging
    [.nextRequest, .answer 0, .apply 0, .move 100, .removeRow 100, .nextRequest, .answer 0, .apply 0]
    (fun s => decide (s.folder.isComplete = true ∧ s.folder.pageRequest = none ∧
      s.mailbox.has 50 ∧ 50 ∉ s.rows))
    (opened_openedOn 100 (by decide)) (by decide)
  obtain ⟨hc, hreq, hhas, hgone⟩ := of_decide_eq_true hp
  exact hgone (hall s 50 hr hc hreq hhas)

end Esmail.Session
