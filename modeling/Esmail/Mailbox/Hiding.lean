/-
# Does a reply hide mail that is still on the server?

A merged reply drops the loaded rows that are in its range and not in it, so it must be the
NEWEST page and must know of every loaded row.  A refresh asks for page 1.  The page request does
not: `seed` moves the cursor `nextPage`, so after a request that failed the next one can ask for
page 2 while the rows are still only cached ones, and its reply is merged as if it were the newest
page (`page_reply_hides`).

`reply_hides_nothing` is about the runs in which what is merged is the newest page, and was computed after
the rows it is merged into were known to the server (`mergesNewest`): a row that a reply drops is of a
message that is no longer in the mailbox.

`Known` is the invariant: a waiting reply that would be merged knows of every loaded row, in that each row
is of a message the server had handed out when it computed the reply.  Then a row in the range of the
reply that is not in it was gone by then; and a UID does not come back.

All the operations of a session are in these runs, and the requests are answered, and the replies applied,
in any order.
-/
import Esmail.Mailbox.Session

namespace Esmail.Session

open Transition OpenFolder

/-! ## 1. The condition -/

/-- A seed holds no message newer than what the server has handed out, nor newer than a page
reply that was already computed. -/
def seedIsKnown (s : Session) (headers : List MailHeader) : Prop :=
  ∀ u ∈ uids headers, u < s.mailbox.uidNext ∧
    ∀ r ∈ s.replies, s.folder.pageRequest = some r.id → u < r.state.uidNext

/-- A page reply that is merged into cached rows is the first page, and one that fills an empty
list brings nothing newer than a refresh that was already computed. -/
def pageIsNewest (s : Session) (r : HeadersReply) : Prop :=
  s.folder.pageRequest = some r.id →
    (s.folder.isCachedOnly = true → min r.page r.totalPages ≤ 1) ∧
    (s.folder.headers = [] → ∀ q ∈ s.replies, s.folder.refreshRequest = some q.id →
      ∀ u ∈ uids r.headers, u < q.state.uidNext)

/-- The condition on one step of a run. -/
def mergesNewest (s : Session) : Action → Prop
  | .seed headers => seedIsKnown s headers
  | .apply i => ∀ r ∈ s.replies[i]?, pageIsNewest s r
  | _ => True

instance (s : Session) (headers : List MailHeader) : Decidable (seedIsKnown s headers) :=
  inferInstanceAs (Decidable (∀ u ∈ uids headers, u < s.mailbox.uidNext ∧
    ∀ r ∈ s.replies, s.folder.pageRequest = some r.id → u < r.state.uidNext))

instance (s : Session) (r : HeadersReply) : Decidable (pageIsNewest s r) :=
  inferInstanceAs (Decidable (s.folder.pageRequest = some r.id →
    (s.folder.isCachedOnly = true → min r.page r.totalPages ≤ 1) ∧
    (s.folder.headers = [] → ∀ q ∈ s.replies, s.folder.refreshRequest = some q.id →
      ∀ u ∈ uids r.headers, u < q.state.uidNext)))

instance (s : Session) : (a : Action) → Decidable (mergesNewest s a)
  | .seed headers => inferInstanceAs (Decidable (seedIsKnown s headers))
  | .apply i => inferInstanceAs (Decidable (∀ r ∈ s.replies[i]?, pageIsNewest s r))
  | .arrive _ | .expunge _ | .move _ | .removeRow _ | .setFlags .. | .nextRequest | .refreshRequest |
    .pageFailed | .answer _ => isTrue trivial

/-! ## 2. The invariant -/

/-- A waiting reply that would be merged knows of every loaded row. -/
structure Known (s : Session) : Prop where
  rows : ∀ u ∈ s.rows, u < s.mailbox.uidNext
  refresh : ∀ r ∈ s.replies, s.folder.refreshRequest = some r.id →
    ∀ u ∈ s.rows, u < r.state.uidNext
  first : s.folder.firstPageArrived = false → ∀ r ∈ s.replies,
    s.folder.pageRequest = some r.id → ∀ u ∈ s.rows, u < r.state.uidNext

/-- Dropping rows, and mail arriving, keep `Known`. -/
theorem Known.of_rows_subset {s s' : Session} (hk : Known s)
    (hnext : s.mailbox.uidNext ≤ s'.mailbox.uidNext) (hrows : ∀ u ∈ s'.rows, u ∈ s.rows)
    (hreplies : ∀ r ∈ s'.replies, r ∈ s.replies)
    (hpage : s'.folder.pageRequest = s.folder.pageRequest)
    (hrefresh : s'.folder.refreshRequest = s.folder.refreshRequest)
    (hfirst : s'.folder.firstPageArrived = s.folder.firstPageArrived) : Known s' := by
  refine ⟨?_, ?_, ?_⟩
  · intro u hu
    exact Nat.lt_of_lt_of_le (hk.rows u (hrows u hu)) hnext
  · intro r hr hid u hu
    exact hk.refresh r (hreplies r hr) (hrefresh ▸ hid) u (hrows u hu)
  · intro h0 r hr hid u hu
    exact hk.first (hfirst ▸ h0) r (hreplies r hr) (hpage ▸ hid) u (hrows u hu)

theorem Known.applied {s : Session} {i : Nat} {r : HeadersReply} {f : OpenFolder}
    (hs : Sound s) (hk : Known s) (hr : s.replies[i]? = some r) (hok : pageIsNewest s r)
    (he : s.folder.ReplyEffect r.id r.page r.totalPages r.headers f) :
    Known { s with folder := f, replies := s.replies.eraseIdx i } := by
  have hkeep : ∀ r' ∈ s.replies.eraseIdx i, r' ∈ s.replies := fun r' => List.mem_of_mem_eraseIdx
  have hmem : r ∈ s.replies := List.mem_of_getElem? hr
  have hf := hs.faithful r hmem
  have hreply : ∀ u ∈ uids r.headers, u < s.mailbox.uidNext := fun u hu =>
    Nat.lt_of_lt_of_le (hf.assigned u hu) hf.uidNext_le
  cases he with
  | stale _ _ => exact hk.of_rows_subset (Nat.le_refl _) (fun u hu => hu) hkeep rfl rfl rfl
  | @appended headers rows hpage _ hload =>
    have hrows : ∀ u ∈ uids headers, u ∈ s.rows ∨ u ∈ uids (appended s.folder.headers r.headers) := by
      intro u hu
      rw [hload, uids_append] at hu
      exact List.mem_append.mp hu
    have hsub : ∀ u ∈ uids (appended s.folder.headers r.headers), u ∈ uids r.headers := fun u =>
      fun hu => (List.Sublist.map _ List.filter_sublist).subset hu
    refine ⟨?_, ?_, ?_⟩
    · intro u hu
      rcases hrows u hu with hold | hnew
      · exact hk.rows u hold
      · exact hreply u (hsub u hnew)
    · intro q hq hid u hu
      rcases hrows u hu with hold | hnew
      · exact hk.refresh q (hkeep q hq) hid u hold
      -- What an append adds is older than a loaded row, which the refresh knows of.
      · cases hl : s.folder.headers.getLast? with
        | none =>
          exact (hok hpage).2 (List.getLast?_eq_none_iff.mp hl) q (hkeep q hq) hid u (hsub u hnew)
        | some z =>
          obtain ⟨x, hx, rfl⟩ := mem_uids.mp hnew
          have hlt := (List.mem_filter.mp hx).2
          have hz := hk.refresh q (hkeep q hq) hid z.uid
            (mem_uids_of_mem (List.mem_of_getLast? hl))
          simp only [hl, Option.map_some, Option.getD_some, decide_eq_true_eq] at hlt
          omega
    · exact fun h => absurd h (by simp)
  | @merged headers rows _ hc _ hload =>
    have hfirst : s.folder.firstPageArrived = false := by
      simp only [isCachedOnly, Bool.and_eq_true, Bool.not_eq_true'] at hc
      exact hc.1
    refine ⟨?_, ?_, ?_⟩
    · intro u hu
      rcases (hload u).mp hu with hnew | hold
      · exact hreply u hnew
      · exact hk.rows u hold.1
    · intro q _ hid
      exact absurd ((hs.refreshLater hfirst).symm.trans hid) (by simp)
    · exact fun h => absurd h (by simp)
  | @refreshed headers rows _ hreq _ hload =>
    refine ⟨?_, ?_, ?_⟩
    · intro u hu
      rcases (hload u).mp hu with hnew | hold
      · exact hreply u hnew
      · exact hk.rows u hold.1
    · exact fun q _ hid => absurd hid (by simp)
    · exact fun hfirst => absurd ((hs.refreshLater hfirst).symm.trans hreq) (by simp)

theorem Known.effect {s s' : Session} {a : Action} (hs : Sound s) (hk : Known s)
    (hok : mergesNewest s a) (h : Effect s a s') : Known s' := by
  cases h with
  | arrived hm =>
    obtain ⟨hle, hnext⟩ := Mailbox.uidNext_arrive hm
    exact hk.of_rows_subset (by simp only; omega) (fun u hu => hu) (fun r hr => hr) rfl rfl rfl
  | expunged => exact hk.of_rows_subset (Nat.le_refl _) (fun u hu => hu) (fun r hr => hr) rfl rfl rfl
  | moved _ => exact hk.of_rows_subset (Nat.le_refl _) (fun u hu => hu) (fun r hr => hr) rfl rfl rfl
  | rowRemoved _ hsub _ =>
    exact hk.of_rows_subset (Nat.le_refl _) (fun u hu => (hsub.map _).subset hu) (fun r hr => hr)
      rfl rfl rfl
  | flagged hu =>
    exact hk.of_rows_subset (Nat.le_refl _) (fun u h => by simpa only [Session.rows, hu] using h)
      (fun r hr => hr) rfl rfl rfl
  | refused => exact hk
  | seeded hfirst _ =>
    refine ⟨fun u hu => (hok u hu).1, ?_, fun _ r hr hid u hu => (hok u hu).2 r hr hid⟩
    intro r _ hid
    exact absurd ((hs.refreshLater hfirst).symm.trans hid) (by simp)
  | pageRequested _ _ =>
    exact ⟨hk.rows, hk.refresh, fun _ r hr hid => absurd hid (hs.reply_id_ne hr)⟩
  | refreshRequested hfirst =>
    exact ⟨hk.rows, fun r hr hid => absurd hid (hs.reply_id_ne hr),
      fun h => absurd (hfirst.symm.trans h) (by simp)⟩
  | pageFailed => exact ⟨hk.rows, hk.refresh, fun _ r _ hid => absurd hid (by simp)⟩
  | answered hq =>
    refine ⟨hk.rows, ?_, ?_⟩
    · intro r hr hid u hu
      rcases List.mem_append.mp hr with hr | hr
      · exact hk.refresh r hr hid u hu
      · rw [List.mem_singleton.mp hr]
        simpa [serve] using hk.rows u hu
    · intro hfirst r hr hid u hu
      rcases List.mem_append.mp hr with hr | hr
      · exact hk.first hfirst r hr hid u hu
      · rw [List.mem_singleton.mp hr]
        simpa [serve] using hk.rows u hu
  | applied hr he => exact hk.applied hs hr (hok _ hr) he

variable {zone : LocalDateTime}

theorem known_of_reach {s : Session} (h : (machine zone).Reach mergesNewest s) : Known s := by
  refine h.invariant ?_ ?_
  · rintro s ⟨hf, -, hr, -⟩
    refine ⟨?_, ?_, ?_⟩ <;> simp [Session.rows, hf, hr]
  · intro s a s' hreach hk hok hst
    exact hk.effect (sound_of_reach zone hreach) hok (step_effect zone hst)

/-! ## 3. What a reply drops is gone -/

/-- In a run that merges newest pages only, a row that a reply drops is of a message that is no
longer in the mailbox.

The reply was computed when the message of the row had been handed out, so it would have named it; and a
message that has left does not come back under its UID. -/
theorem reply_hides_nothing {s s' : Session} {i : Nat}
    (h : (machine zone).Reach mergesNewest s) (hok : mergesNewest s (.apply i))
    (hst : step zone s (.apply i) = some s') {u : Nat} (hu : u ∈ s.rows)
    (hhas : s.mailbox.has u) : u ∈ s'.rows := by
  have hs : Sound s := sound_of_reach zone h
  have hk : Known s := known_of_reach h
  cases step_effect zone hst with
  | refused => exact hu
  | @applied _ r f hr he =>
    have hmem : r ∈ s.replies := List.mem_of_getElem? hr
    cases he with
    | stale _ _ => exact hu
    | appended _ _ hload =>
      simp only [Session.rows, hload, uids_append]
      exact List.mem_append_left _ hu
    | merged hpage hc _ hload =>
      have hfirst : s.folder.firstPageArrived = false := by
        simp only [isCachedOnly, Bool.and_eq_true, Bool.not_eq_true'] at hc
        exact hc.1
      have hnew := (hs.faithful r hmem).newest ((hok r hr hpage).1 hc) u hhas
        (hk.first hfirst r hmem hpage u hu)
      exact (hload u).mpr (hnew.imp_right fun hlt => ⟨hu, hlt⟩)
    | refreshed _ hreq _ hload =>
      have hnew := (hs.faithful r hmem).newest
        (Nat.le_trans (Nat.min_le_left _ _) (Nat.le_of_eq (hs.refreshReply r hmem hreq))) u hhas
        (hk.refresh r hmem hreq u hu)
      exact (hload u).mpr (hnew.imp_right fun hlt => ⟨hu, hlt⟩)

/-- Such a run: three cached rows, one of them deleted since, meet the newest page. -/
theorem reply_hides_nothing_of_seed : ∃ s s' : Session, 3 ∈ s.rows ∧ 3 ∈ s'.rows ∧
    2 ∈ s.rows ∧ 2 ∉ s'.rows := by
  obtain ⟨s, s', hr, hst, hp⟩ := Machine.exists_step_of_trace (machine fun _ => none) mergesNewest
    [.nextRequest, .seed (newestFirst 3), .expunge 2, .answer 0] (.apply 0)
    (fun s s' => decide (mergesNewest s (.apply 0) ∧ 3 ∈ s.rows ∧ s.mailbox.has 3 ∧
      2 ∈ s.rows ∧ 2 ∉ s'.rows))
    (opened_openedOn 3 (by decide)) (by decide)
  obtain ⟨hok, h3, hhas, h2, h2'⟩ := of_decide_eq_true hp
  exact ⟨s, s', h3, reply_hides_nothing hr hok hst h3 hhas, h2, h2'⟩

/-- Without the condition mail is hidden.  The first page request fails, 100 cached rows come in,
scrolling asks for page 2, and its reply drops the rows `51, .., 100`, all still on the server. -/
theorem page_reply_hides : ¬ ∀ (s s' : Session) (i u : Nat),
    (machine fun _ => none).Reach Machine.any s → step (fun _ => none) s (.apply i) = some s' →
    u ∈ s.rows → s.mailbox.has u → u ∈ s'.rows := by
  intro hall
  obtain ⟨s, s', hr, hst, hp⟩ := Machine.exists_step_of_trace (machine fun _ => none) Machine.any
    [.nextRequest, .pageFailed, .seed (newestFirst 100), .nextRequest, .answer 1] (.apply 0)
    (fun s s' => decide (100 ∈ s.rows ∧ s.mailbox.has 100 ∧ 100 ∉ s'.rows))
    (opened_openedOn 100 (by decide)) (by decide +kernel)
  obtain ⟨hu, hhas, hgone⟩ := of_decide_eq_true hp
  exact hgone (hall s s' 0 100 hr hst hu hhas)

end Esmail.Session
