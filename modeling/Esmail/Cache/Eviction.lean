/-
# What an eviction takes

`index_mail` stores a body and then deletes the bodies stored first, down to 2000.  First is what the
CLOCK said, a second at a time; bodies of the same second go in the order of the table.  A body that is
stored while the clock is behind the stored ones is the first to go: `index_mail` returns, and the body is
not there.

`indexMail_keeps_iff` says when it is, for any table and any reading of the clock: just where as many other
bodies go before it as there are too many (`Outlives`).  It holds where the clock is not behind any body
stored (`outlives_of_clock`).

What goes is the beginning of a list sorted by time, and the body stored is in it according to how many
others come before; the general facts about that are in `Library/StableSort.lean` and
`Library/Table.lean`.  The two other parts of the claim on `index_mail`, that no more than 2000 are left
and that those that went are the ones stored first, need no condition.
-/
import Esmail.Cache.Offline
import Esmail.Library.StableSort

namespace Esmail.Cache

variable {codec : Codec} {engine : SearchEngine} {now : Int}

/-- How many bodies of other messages go before one that is stored at a time: those stored earlier, and, of
those with the same time, those that stand before it in the table. -/
def storedBefore (db : Cache) (key : Key) (now : Int) : Nat :=
  (db.bodies.before key).countP (fun r => r.2.cachedAt ≤ now) +
    (db.bodies.behind key).countP fun r => r.2.cachedAt < now

/-- How many bodies there are of other messages. -/
def otherBodies (db : Cache) (key : Key) : Nat :=
  (db.bodies.before key).length + (db.bodies.behind key).length

/-- Enough bodies go before one that is stored now to bring the table down to its size without it. -/
def Outlives (db : Cache) (key : Key) (now : Int) : Prop :=
  db.otherBodies key + 1 ≤ maxCachedBodies + db.storedBefore key now

instance (db : Cache) (key : Key) (now : Int) : Decidable (db.Outlives key now) := Nat.decLe _ _

/-- What `index_mail` is to leave: the body, a table that is no larger than it may be, and of the others those
that were stored last. -/
structure KeepsStored (codec : Codec) (db db' : Cache) (key : Key) (body : String) : Prop where
  found : ∃ header attachments, db'.fetchMail codec key = some (header, body, attachments)
  length : db'.bodies.rows.length = min (db.otherBodies key + 1) maxCachedBodies
  oldest : ∀ gone stays b b', gone ≠ key → stays ≠ key → db.bodies.lookup gone = some b →
    db.bodies.lookup stays = some b' → gone ∉ db'.bodies.keys → stays ∈ db'.bodies.keys →
    b.cachedAt ≤ b'.cachedAt

/-! ## 1. The table after `index_mail` -/

variable {accountId : AccountId} {mailbox : String} {h : MailHeader} {body : String}
  {attachments : List Attachment} {db : Cache}

theorem length_upsert (t : Table Key BodyRow) (key : Key) (row : BodyRow) :
    (t.upsert key row).rows.length = (t.before key).length + (t.behind key).length + 1 := by
  rw [Table.rows_upsert, List.length_append, List.length_cons]
  rfl

/-- The body that is stored is evicted where too few others go before it. -/
theorem mem_leastRecent_upsert (db : Cache) (key : Key) (row : BodyRow) (maxRows : Nat) :
    key ∈ leastRecent maxRows (db.bodies.upsert key row) ↔
      db.storedBefore key row.cachedAt < db.otherBodies key + 1 - maxRows := by
  have hnodup := (db.bodies.upsert key row).nodup
  rw [Table.rows_upsert] at hnodup
  have hplace : StableSort.place (fun a b : Key × BodyRow => decide (a.2.cachedAt ≤ b.2.cachedAt))
      (db.bodies.before key) (key, row) (db.bodies.behind key) = db.storedBefore key row.cachedAt := by
    rw [StableSort.place, storedBefore]
    congr 1
    refine List.countP_congr fun r _ => ?_
    simp
  rw [leastRecent, length_upsert, Table.rows_upsert, ← hplace]
  exact StableSort.mem_take_iff
    (fun a b c hab hbc => by simp only [decide_eq_true_eq] at *; omega)
    (fun a b => by simp only [Bool.or_eq_true, decide_eq_true_eq]; omega) Prod.fst hnodup _

theorem bodies_evict (db : Cache) (maxRows : Nat) (key : Key) :
    (db.evict maxRows).bodies.lookup key =
      if key ∈ leastRecent maxRows db.bodies then none else db.bodies.lookup key := by
  rw [evict, deleteBodies, Table.lookup_deleteWhere]
  simp only [decide_eq_true_eq]

/-- An eviction takes as many rows as it names: they are different rows of the table. -/
theorem length_evict (db : Cache) (maxRows : Nat) :
    (db.evict maxRows).bodies.rows.length = min db.bodies.rows.length maxRows := by
  let sorted := db.bodies.rows.mergeSort fun r s => r.2.cachedAt ≤ s.2.cachedAt
  let n := db.bodies.rows.length - maxRows
  have hperm : sorted.Perm db.bodies.rows := List.mergeSort_perm _ _
  have hnodup : ((sorted.take n ++ sorted.drop n).map Prod.fst).Nodup := by
    rw [List.take_append_drop, (hperm.map _).nodup_iff]
    exact db.bodies.nodup
  rw [List.map_append, List.nodup_append] at hnodup
  have htaken : (sorted.take n).filter (fun r => !decide (r.1 ∈ leastRecent maxRows db.bodies)) = [] := by
    rw [List.filter_eq_nil_iff]
    intro r hr
    have hmem : r.1 ∈ leastRecent maxRows db.bodies := List.mem_map_of_mem hr
    simp [hmem]
  have hleft : (sorted.drop n).filter (fun r => !decide (r.1 ∈ leastRecent maxRows db.bodies)) =
      sorted.drop n := by
    rw [List.filter_eq_self]
    intro r hr
    have hnot : r.1 ∉ leastRecent maxRows db.bodies := fun hmem =>
      hnodup.2.2 _ hmem _ (List.mem_map_of_mem hr) rfl
    simp [hnot]
  have hfilter : ((db.evict maxRows).bodies.rows).Perm (sorted.drop n) := by
    refine (hperm.symm.filter _).trans (List.Perm.of_eq ?_)
    conv_lhs => rw [← List.take_append_drop n sorted]
    rw [List.filter_append, htaken, hleft, List.nil_append]
  rw [hfilter.length_eq, List.length_drop, hperm.length_eq]
  omega

/-! ## 2. What is left -/

theorem lookup_after_indexMail (db : Cache) (key : Key) (h : MailHeader) (body : String)
    (attachments : List Attachment) :
    ((db.indexed codec now key h body attachments).evict maxCachedBodies).messages.lookup key =
      some (messageRow h) := by
  rw [evict]
  simp only [deleteBodies, indexed, insertFts, deleteFts, upsertBody, upsertMessage,
    Table.lookup_upsert, if_pos]

theorem bodies_indexed (db : Cache) (key : Key) (h : MailHeader) (body : String)
    (attachments : List Attachment) : (db.indexed codec now key h body attachments).bodies =
      db.bodies.upsert key ⟨body, codec.attachmentsColumn attachments, now⟩ := rfl

/-- The body that was stored is fetched where it is not evicted. -/
theorem fetchMail_indexed (db : Cache) (key : Key) (h : MailHeader) (body : String)
    (attachments : List Attachment) :
    ((db.indexed codec now key h body attachments).evict maxCachedBodies).fetchMail codec key =
      if db.Outlives key now then
        some ((messageRow h).toHeader key.uid, body,
          codec.parseAttachmentsColumn (codec.attachmentsColumn attachments))
      else none := by
  have hevicted : key ∈ leastRecent maxCachedBodies
      (db.bodies.upsert key ⟨body, codec.attachmentsColumn attachments, now⟩) ↔
      ¬ db.Outlives key now := by
    rw [mem_leastRecent_upsert, Outlives]
    dsimp only
    omega
  have hlookup := bodies_evict (db.indexed codec now key h body attachments) maxCachedBodies key
  rw [bodies_indexed, Table.lookup_upsert, if_pos rfl] at hlookup
  simp only [hevicted, ite_not] at hlookup
  rw [fetchMail, lookup_after_indexMail, hlookup]
  by_cases houtlives : db.Outlives key now
  · simp only [if_pos houtlives]
  · simp only [if_neg houtlives]

theorem keeps_oldest (db : Cache) (key : Key) (h : MailHeader) (body : String)
    (attachments : List Attachment) {gone stays : Key} {b b' : BodyRow} (hgonekey : gone ≠ key)
    (hstayskey : stays ≠ key) (hb : db.bodies.lookup gone = some b)
    (hb' : db.bodies.lookup stays = some b')
    (hgone : gone ∉ ((db.indexed codec now key h body attachments).evict maxCachedBodies).bodies.keys)
    (hstays : stays ∈ ((db.indexed codec now key h body attachments).evict maxCachedBodies).bodies.keys) :
    b.cachedAt ≤ b'.cachedAt := by
  let stored := db.bodies.upsert key ⟨body, codec.attachmentsColumn attachments, now⟩
  have hstored : ∀ {k : Key} {row : BodyRow}, k ≠ key → db.bodies.lookup k = some row →
      stored.lookup k = some row := by
    intro k row hk hrow
    rw [Table.lookup_upsert, if_neg hk]
    exact hrow
  have hkept : ∀ k, ((db.indexed codec now key h body attachments).evict maxCachedBodies).bodies.lookup k =
      if k ∈ leastRecent maxCachedBodies stored then none else stored.lookup k :=
    bodies_evict (db.indexed codec now key h body attachments) maxCachedBodies
  have htaken : gone ∈ leastRecent maxCachedBodies stored := by
    by_contra hnot
    rw [← Table.lookup_eq_none, hkept, if_neg hnot, hstored hgonekey hb] at hgone
    cases hgone
  refine leastRecent_oldest (hstored hgonekey hb) (hstored hstayskey hb') htaken fun htaken => ?_
  obtain ⟨row, hrow⟩ := Table.mem_keys.mp hstays
  rw [hkept, if_pos htaken] at hrow
  cases hrow

/-- Over any table, and at any reading of the clock: after `index_mail` the body is there, no more than 2000 are,
and those that went are the ones stored first, just where enough bodies go before the one that was stored. -/
theorem indexMail_keeps_iff (codec : Codec) (engine : SearchEngine) (now : Int) (accountId : AccountId)
    (mailbox : String) (h : MailHeader) (body : String) (attachments : List Attachment) (db : Cache) :
    KeepsStored codec db (after codec engine now (.indexMail accountId mailbox h body attachments) db)
        ⟨accountId, mailbox, h.uid⟩ body ↔
      db.Outlives ⟨accountId, mailbox, h.uid⟩ now := by
  have hfetched := @fetchMail_indexed codec now db ⟨accountId, mailbox, h.uid⟩ h body attachments
  rw [after_indexMail]
  constructor
  · rintro ⟨⟨header, attachments', hfound⟩, -, -⟩
    by_contra hnot
    rw [hfetched, if_neg hnot] at hfound
    cases hfound
  · intro houtlives
    refine ⟨⟨_, _, hfetched.trans (if_pos houtlives)⟩, ?_, ?_⟩
    · rw [length_evict, bodies_indexed, length_upsert]
      rfl
    · intro gone stays b b' hgonekey hstayskey hb hb' hgone hstays
      exact keeps_oldest db _ h body attachments hgonekey hstayskey hb hb' hgone hstays

/-- A clock that is not behind any body stored evicts others first. -/
theorem outlives_of_clock {key : Key} (hclock : ∀ r ∈ db.bodies.rows, r.2.cachedAt ≤ now)
    (hnew : key ∉ db.bodies.keys) : db.Outlives key now := by
  obtain ⟨hbefore, hbehind⟩ := Table.before_of_not_mem hnew
  have hall : db.bodies.rows.countP (fun r => r.2.cachedAt ≤ now) = db.bodies.rows.length := by
    rw [List.countP_eq_length]
    intro r hr
    exact decide_eq_true (hclock r hr)
  rw [Outlives, otherBodies, storedBefore, hbefore, hbehind, hall, List.length_nil, List.countP_nil,
    maxCachedBodies]
  omega

/-- As many bodies, stored at second 5. -/
def fullRows (n : Nat) : List (Key × BodyRow) :=
  (List.range n).map fun uid => (⟨"me", "INBOX", uid⟩, ⟨"", "[]", 5⟩)

def fullCache (n : Nat) : Cache :=
  { initSchema with
    bodies := ⟨fullRows n, by
      rw [fullRows, List.map_map]
      exact List.nodup_range.map fun a b hab => (Key.mk.inj hab).2.2⟩ }

theorem not_outlives_fullCache {n : Nat} (hn : maxCachedBodies ≤ n) :
    ¬ (fullCache n).Outlives ⟨"me", "INBOX", n⟩ 3 := by
  have hnew : (⟨"me", "INBOX", n⟩ : Key) ∉ (fullCache n).bodies.keys := by
    intro hmem
    obtain ⟨r, hr, hkey⟩ := List.mem_map.mp hmem
    obtain ⟨uid, huid, rfl⟩ := List.mem_map.mp hr
    rw [List.mem_range] at huid
    have := (Key.mk.inj hkey).2.2
    omega
  obtain ⟨hbefore, hbehind⟩ := Table.before_of_not_mem hnew
  have hnone : (fullRows n).countP (fun r => r.2.cachedAt ≤ 3) = 0 := by
    rw [fullRows, List.countP_map, List.countP_eq_zero]
    intro uid _
    simp
  have hlength : (fullRows n).length = n := by rw [fullRows, List.length_map, List.length_range]
  rw [Outlives, otherBodies, storedBefore, hbefore, hbehind]
  simp only [fullCache, hnone, hlength, List.length_nil, List.countP_nil]
  omega

/-- With 2000 bodies of second 5 a mail is indexed at second 3, and its body is not there. -/
theorem evicts_what_it_stored :
    (after plainCodec findsAll 3 (.indexMail "me" "INBOX" { invoice with uid := 2000 } "please pay" [])
      (fullCache 2000)).fetchMail plainCodec ⟨"me", "INBOX", 2000⟩ = none := by
  rw [after_indexMail, fetchMail_indexed, if_neg (not_outlives_fullCache (Nat.le_refl 2000))]

end Esmail.Cache
