/-
# Moving one message, and what it does to the others

`move_message` of `imap.rs` against a server that keeps to the protocol: `UID MOVE`, and where that
fails, `UID COPY`, `UID STORE +FLAGS.SILENT (\Deleted)` and a bare `EXPUNGE`.

Each command meets a `Fate` of its own, chosen by the server and the connection; a server without
the extension, or without the destination, can only refuse.  What the client library makes of a
reply that ends in a refusal or breaks off is a parameter (`tells`).

`moves_only_iff` says when the result is a move of the one message, and a failed move leaves it in one
mailbox: exactly where the commands get as far as `Proper` says, whatever the mailboxes and whatever
becomes of each command.  The bare `EXPUNGE` asks that nothing else in the mailbox is `\Deleted`
(`other_message_expunged`), and a failure after the `COPY` that there was nothing to copy.

What the commands do to the mailboxes is worked out first, for all of them together: a `COPY`, some change
of flags and an `EXPUNGE` are a move of the message just where it is there, has the flag, and no other has
(`movesOnly_expunged`).  Then the proof follows the function, one command after the other
(`expungeAll_kept`, `markAndExpunge_kept`).

What other clients do to the mailboxes between two commands is left out.
-/
import Mathlib.Data.List.Nodup
import Mathlib.Logic.Function.Basic
import Mathlib.Tactic.Common

namespace Esmail.Moving

/-! ## 1. The server's mailboxes -/

/-- A message, as a mailbox keeps it. -/
structure Stored where
  uid : Nat
  flags : List String
  content : List UInt8
  deriving DecidableEq, Repr

/-- `\Deleted`. -/
def deletedFlag : String := "\\Deleted"

def Stored.deleted (m : Stored) : Bool := m.flags.contains deletedFlag

/-- What `STORE +FLAGS (\Deleted)` makes of a message. -/
def Stored.delete (m : Stored) : Stored :=
  if m.deleted then m else { m with flags := m.flags ++ [deletedFlag] }

@[simp] theorem Stored.delete_uid (m : Stored) : m.delete.uid = m.uid := by
  rw [Stored.delete]
  split <;> rfl

@[simp] theorem Stored.delete_deleted (m : Stored) : m.delete.deleted = true := by
  rw [Stored.delete]
  split
  · assumption
  · simp [Stored.deleted]

/-- A mailbox: UIDs ascend, and none is used again. -/
structure Folder where
  messages : List Stored
  uidNext : Nat
  ascending : (messages.map (·.uid)).Pairwise (· < ·)
  assigned : ∀ m ∈ messages, m.uid < uidNext

namespace Folder

/-- A copy arrives: it keeps everything but the UID. -/
def append (f : Folder) (m : Stored) : Folder where
  messages := f.messages ++ [{ m with uid := f.uidNext }]
  uidNext := f.uidNext + 1
  ascending := by
    rw [List.map_append]
    refine List.pairwise_append.mpr ⟨f.ascending, by simp, ?_⟩
    intro a ha b hb
    obtain ⟨m', hm', rfl⟩ := List.mem_map.mp ha
    have := f.assigned m' hm'
    simp only [List.map_cons, List.map_nil, List.mem_singleton] at hb
    omega
  assigned := by
    intro m' hm'
    rcases List.mem_append.mp hm' with h | h
    · have := f.assigned m' h
      omega
    · simp only [List.mem_singleton] at h
      subst h
      exact Nat.lt_succ_self _

/-- Some messages go. -/
def keep (f : Folder) (p : Stored → Bool) : Folder where
  messages := f.messages.filter p
  uidNext := f.uidNext
  ascending := f.ascending.sublist (List.filter_sublist.map _)
  assigned m hm := f.assigned m (List.mem_of_mem_filter hm)

/-- The flags of one message change. -/
def flag (f : Folder) (uid : Nat) (g : Stored → Stored) (hg : ∀ m, (g m).uid = m.uid) : Folder where
  messages := f.messages.map fun m => if m.uid = uid then g m else m
  uidNext := f.uidNext
  ascending := by
    rw [List.map_map]
    convert f.ascending using 2
    funext m
    simp only [Function.comp]
    split
    · exact hg m
    · rfl
  assigned := by
    intro m hm
    obtain ⟨m', hm', rfl⟩ := List.mem_map.mp hm
    split
    · rw [hg]
      exact f.assigned m' hm'
    · exact f.assigned m' hm'

/-- The message with a UID. -/
def find (f : Folder) (uid : Nat) : Option Stored := f.messages.find? (·.uid = uid)

/-- A UID names one message. -/
theorem uid_inj (f : Folder) {m m' : Stored} (hm : m ∈ f.messages) (hm' : m' ∈ f.messages)
    (h : m.uid = m'.uid) : m = m' :=
  List.inj_on_of_nodup_map (f.ascending.imp Nat.ne_of_lt) hm hm' h

end Folder

/-- The mailboxes on the server, by name. -/
abbrev Folders : Type := String → Option Folder

/-- What `UID COPY` does. -/
def copyEffect (mailbox dest : String) (uid : Nat) (fs : Folders) : Folders :=
  match (fs mailbox).bind (·.find uid), fs dest with
  | some m, some d => Function.update fs dest (some (d.append m))
  | _, _ => fs

/-- What `UID STORE +FLAGS.SILENT (\Deleted)` does. -/
def storeEffect (mailbox : String) (uid : Nat) (fs : Folders) : Folders :=
  Function.update fs mailbox ((fs mailbox).map (·.flag uid Stored.delete Stored.delete_uid))

/-- What `EXPUNGE` does. -/
def expungeEffect (mailbox : String) (fs : Folders) : Folders :=
  Function.update fs mailbox ((fs mailbox).map (·.keep (!·.deleted)))

/-- What `UID MOVE` does. -/
def moveEffect (mailbox dest : String) (uid : Nat) (fs : Folders) : Folders :=
  let fs' := copyEffect mailbox dest uid fs
  Function.update fs' mailbox ((fs' mailbox).map (·.keep (·.uid ≠ uid)))

/-! ## 2. Commands, and what becomes of them -/

/-- What becomes of a command: the server carries it out and says so; it refuses; the command
cannot be sent; the connection breaks before the server has it; or after it was carried out. -/
inductive Fate
  | done | refused | unsent | lost | unanswered
  deriving DecidableEq, Repr

/-- A command the server cannot carry out is refused, and on a broken connection nothing gets
through. -/
def Fate.within (alive possible : Bool) : Fate → Fate
  | .unsent => .unsent
  | .done => if !alive then .lost else if possible then .done else .refused
  | .refused => if !alive then .lost else .refused
  | .unanswered => if alive && possible then .unanswered else .lost
  | .lost => .lost

/-- A session with the server: its mailboxes, whether it has the `MOVE` extension, and whether the
connection still works.  Which mailbox is selected is an argument of what a command does to them: after a
`SELECT` that has failed, no further command is sent. -/
structure Session where
  folders : Folders
  hasMove : Bool
  alive : Bool := true

/-- A command of the session. -/
def issue (possible : Bool) (effect : Session → Session) (fate : Fate) (s : Session) :
    Fate × Session :=
  match fate.within s.alive possible with
  | .done => (.done, effect s)
  | .refused => (.refused, s)
  | .unsent => (.unsent, { s with alive := false })
  | .lost => (.lost, { s with alive := false })
  | .unanswered => (.unanswered, { effect s with alive := false })

/-- What becomes of each command of one move. -/
structure Script where
  select : Fate := .done
  move : Fate := .done
  copy : Fate := .done
  store : Fate := .done
  expunge : Fate := .done

/-- The fallback's bare `EXPUNGE`, whose replies nobody looks at. -/
def expungeAll (fate : Fate) (mailbox : String) (s : Session) : Except Fate Unit × Session :=
  match issue true (fun s => { s with folders := expungeEffect mailbox s.folders }) fate s with
  | (.unsent, s) => (.error .unsent, s)
  | (_, s) => (.ok (), s)

/-- The fallback after its `COPY`.  `tells` says whether the library's stream of replies yields an
error where the command did not succeed. -/
def markAndExpunge (tells : Fate → Bool) (script : Script) (mailbox : String) (uid : Nat)
    (s : Session) : Except Fate Unit × Session :=
  match issue true (fun s => { s with folders := storeEffect mailbox uid s.folders })
      script.store s with
  | (fate, s) =>
    if fate = .unsent ∨ (fate ≠ .done ∧ tells fate) then (.error fate, s)
    else expungeAll script.expunge mailbox s

/-- `move_message`; the error is what became of the command that failed. -/
def moveMessage (tells : Fate → Bool) (script : Script) (mailbox : String) (uid : Nat)
    (dest : String) (s : Session) : Except Fate Unit × Session :=
  match issue (s.folders mailbox).isSome (fun s => s) script.select s with
  | (.done, s) =>
    match issue (s.hasMove && (s.folders dest).isSome)
        (fun s => { s with folders := moveEffect mailbox dest uid s.folders }) script.move s with
    | (.done, s) => (.ok (), s)
    | (_, s) =>
      match issue (s.folders dest).isSome
          (fun s => { s with folders := copyEffect mailbox dest uid s.folders }) script.copy s with
      | (.done, s) => markAndExpunge tells script mailbox uid s
      | (fate, s) => (.error fate, s)
  | (fate, s) => (.error fate, s)

/-! ## 3. What a move is -/

/-- What is in a mailbox now and was not before. -/
def newIn (before after : Folder) : List Stored :=
  after.messages.filter (before.uidNext ≤ ·.uid)

/-- The message is in the mailbox. -/
def Has (fs : Folders) (mailbox : String) (uid : Nat) : Prop :=
  ∃ f m, fs mailbox = some f ∧ m ∈ f.messages ∧ m.uid = uid

/-- Of what the mailbox held, exactly the message is gone, and the one new message of the
destination is its copy. -/
def MovesOnly (fs fs' : Folders) (mailbox dest : String) (uid : Nat) : Prop :=
  ∃ src m src' d d', fs mailbox = some src ∧ m ∈ src.messages ∧ m.uid = uid ∧
    fs' mailbox = some src' ∧ (∀ y ∈ src'.messages, y.uid ≠ uid) ∧
    (∀ x ∈ src.messages, x.uid ≠ uid → x ∈ src'.messages) ∧
    fs dest = some d ∧ fs' dest = some d' ∧ newIn d d' = [{ m with uid := d.uidNext }]

/-- The message is still in the mailbox, and there is a copy of it in the destination. -/
def InBoth (fs fs' : Folders) (mailbox dest : String) (uid : Nat) : Prop :=
  Has fs' mailbox uid ∧ ∃ d d', fs dest = some d ∧ fs' dest = some d' ∧ newIn d d' ≠ []

/-- A successful move moves the message and no other, and a failed one leaves no copy beside it. -/
def MoveKept (fs : Folders) (r : Except Fate Unit × Session) (mailbox : String) (uid : Nat)
    (dest : String) : Prop :=
  match r.1 with
  | .ok () => MovesOnly fs r.2.folders mailbox dest uid
  | .error _ => ¬ InBoth fs r.2.folders mailbox dest uid

/-! ## 4. What the commands do, together -/

namespace Folder

theorem find_eq (f : Folder) {m : Stored} (hm : m ∈ f.messages) : f.find m.uid = some m := by
  obtain ⟨x, hx⟩ : ∃ x, f.messages.find? (fun x => decide (x.uid = m.uid)) = some x :=
    Option.isSome_iff_exists.mp (List.find?_isSome.mpr ⟨m, hm, by simp⟩)
  have huid : x.uid = m.uid := by simpa using List.find?_some hx
  rw [find, hx, f.uid_inj (List.mem_of_find?_eq_some hx) hm huid]

@[simp] theorem newIn_self (f : Folder) : newIn f f = [] := by
  rw [newIn, List.filter_eq_nil_iff]
  intro m hm
  have := f.assigned m hm
  simp
  omega

@[simp] theorem newIn_append (f : Folder) (m : Stored) :
    newIn f (f.append m) = [{ m with uid := f.uidNext }] := by
  have h := f.newIn_self
  rw [newIn] at h
  simp [newIn, append, h]

/-- A change of flags makes nothing new. -/
theorem newIn_flag (before f : Folder) {uid : Nat} {g : Stored → Stored}
    {hg : ∀ m, (g m).uid = m.uid} :
    newIn before (f.flag uid g hg) =
      (newIn before f).map fun m => if m.uid = uid then g m else m := by
  rw [newIn, newIn, flag, List.filter_map]
  congr 2
  funext m
  simp only [Function.comp]
  split
  · rw [hg]
  · rfl

theorem newIn_keep (before f : Folder) (p : Stored → Bool) :
    newIn before (f.keep p) = (newIn before f).filter p := by
  simp only [newIn, keep, List.filter_filter, Bool.and_comm]

/-- What a change of flags and an `EXPUNGE` leave. -/
theorem mem_expunged {f : Folder} {uid : Nat} {g : Stored → Stored}
    {hg : ∀ m, (g m).uid = m.uid} {y : Stored} :
    y ∈ ((f.flag uid g hg).keep (!·.deleted)).messages ↔
      ∃ x ∈ f.messages, (if x.uid = uid then g x else x) = y ∧ y.deleted = false := by
  simp only [keep, flag, List.mem_filter, List.mem_map, Bool.not_eq_true']
  exact ⟨fun ⟨⟨x, hx, hy⟩, hdel⟩ => ⟨x, hx, hy, hdel⟩, fun ⟨x, hx, hy, hdel⟩ => ⟨⟨x, hx, hy⟩, hdel⟩⟩

/-- The message is gone if it has the flag. -/
theorem gone_iff {f : Folder} {uid : Nat} {g : Stored → Stored} {hg : ∀ m, (g m).uid = m.uid} :
    (∀ y ∈ ((f.flag uid g hg).keep (!·.deleted)).messages, y.uid ≠ uid) ↔
      ∀ x ∈ f.messages, x.uid = uid → (g x).deleted = true := by
  simp only [mem_expunged]
  refine ⟨fun h x hx huid => ?_, ?_⟩
  · by_contra hdel
    exact h (g x) ⟨x, hx, if_pos huid, by simpa using hdel⟩ (by rw [hg, huid])
  · rintro h y ⟨x, hx, rfl, hdel⟩ huid
    split at huid
    · rename_i hxu
      rw [if_pos hxu, h x hx hxu] at hdel
      cases hdel
    · exact absurd huid ‹_›

/-- Another message is kept if it has not. -/
theorem kept_iff {f : Folder} {uid : Nat} {g : Stored → Stored} {hg : ∀ m, (g m).uid = m.uid}
    {x : Stored} (hx : x ∈ f.messages) (hne : x.uid ≠ uid) :
    x ∈ ((f.flag uid g hg).keep (!·.deleted)).messages ↔ x.deleted = false := by
  rw [mem_expunged]
  exact ⟨fun ⟨_, _, _, hdel⟩ => hdel, fun hdel => ⟨x, hx, if_neg hne, hdel⟩⟩

end Folder

section Effects

variable {fs : Folders} {mailbox dest : String} {uid : Nat}

theorem copyEffect_of_has {src d : Folder} {m : Stored} (hsrc : fs mailbox = some src)
    (hm : m ∈ src.messages) (huid : m.uid = uid) (hd : fs dest = some d) :
    copyEffect mailbox dest uid fs = Function.update fs dest (some (d.append m)) := by
  subst huid
  simp [copyEffect, hsrc, src.find_eq hm, hd]

theorem copyEffect_of_not_has (h : ¬ Has fs mailbox uid) : copyEffect mailbox dest uid fs = fs := by
  rw [copyEffect]
  split
  · rename_i m d hm hd
    obtain ⟨src, hsrc, hfind⟩ := Option.bind_eq_some_iff.mp hm
    refine absurd ⟨src, m, hsrc, List.mem_of_find?_eq_some hfind, ?_⟩ h
    simpa using List.find?_some hfind
  · rfl

/-- The flags of one message of a mailbox change. -/
def flagEffect (mailbox : String) (uid : Nat) (g : Stored → Stored) (hg : ∀ m, (g m).uid = m.uid)
    (fs : Folders) : Folders :=
  Function.update fs mailbox ((fs mailbox).map (·.flag uid g hg))

theorem storeEffect_eq (fs : Folders) :
    storeEffect mailbox uid fs = flagEffect mailbox uid Stored.delete Stored.delete_uid fs := rfl

theorem flagEffect_id (fs : Folders) :
    flagEffect mailbox uid id (fun _ => rfl) fs = fs := by
  have h : ∀ f : Folder, f.flag uid id (fun _ => rfl) = f := fun f => by simp [Folder.flag]
  simp [flagEffect, h]

theorem has_flagEffect {g : Stored → Stored} {hg : ∀ m, (g m).uid = m.uid} :
    Has (flagEffect mailbox uid g hg fs) mailbox uid ↔ Has fs mailbox uid := by
  refine ⟨?_, ?_⟩
  · rintro ⟨f, m, hf, hm, huid⟩
    simp only [flagEffect, Function.update_self, Option.map_eq_some_iff] at hf
    obtain ⟨f, hf, rfl⟩ := hf
    obtain ⟨x, hx, rfl⟩ := List.mem_map.mp hm
    refine ⟨f, x, hf, hx, ?_⟩
    split at huid
    · rwa [hg] at huid
    · exact huid
  · rintro ⟨f, m, hf, hm, huid⟩
    refine ⟨f.flag uid g hg, g m, by simp [flagEffect, hf], ?_, by rw [hg, huid]⟩
    exact List.mem_map.mpr ⟨m, hm, if_pos huid⟩

/-- Once copied, and while it is not expunged, the message is in both mailboxes. -/
theorem inBoth_copied {g : Stored → Stored} {hg : ∀ m, (g m).uid = m.uid} (hd : (fs dest).isSome) :
    InBoth fs (flagEffect mailbox uid g hg (copyEffect mailbox dest uid fs)) mailbox dest uid ↔
      Has fs mailbox uid := by
  by_cases hhas : Has fs mailbox uid
  · refine ⟨fun _ => hhas, fun _ => ?_⟩
    obtain ⟨d, hd⟩ := Option.isSome_iff_exists.mp hd
    obtain ⟨src, m, hsrc, hm, huid⟩ := hhas
    rw [copyEffect_of_has hsrc hm huid hd]
    by_cases hsame : mailbox = dest
    · subst hsame
      obtain rfl : src = d := by rw [hsrc] at hd; exact Option.some.inj hd
      refine ⟨has_flagEffect.mpr ⟨src.append m, m, by simp, by simp [Folder.append, hm], huid⟩,
        src, (src.append m).flag uid g hg, hsrc, by simp [flagEffect], ?_⟩
      simp [Folder.newIn_flag]
    · refine ⟨has_flagEffect.mpr ⟨src, m, by simp [hsame, hsrc], hm, huid⟩, d, d.append m, hd, ?_,
        by simp⟩
      simp [flagEffect, Ne.symm hsame]
  · rw [copyEffect_of_not_has hhas]
    exact ⟨fun h => has_flagEffect.mp h.1, fun h => absurd h hhas⟩

theorem movesOnly_iff {fs' : Folders} {src d src' d' : Folder} {m : Stored}
    (hsrc : fs mailbox = some src) (hm : m ∈ src.messages) (huid : m.uid = uid)
    (hd : fs dest = some d) (hsrc' : fs' mailbox = some src') (hd' : fs' dest = some d') :
    MovesOnly fs fs' mailbox dest uid ↔ (∀ y ∈ src'.messages, y.uid ≠ uid) ∧
      (∀ x ∈ src.messages, x.uid ≠ uid → x ∈ src'.messages) ∧
      newIn d d' = [{ m with uid := d.uidNext }] := by
  refine ⟨?_, fun ⟨hgone, hkept, hnew⟩ =>
    ⟨src, m, src', d, d', hsrc, hm, huid, hsrc', hgone, hkept, hd, hd', hnew⟩⟩
  rintro ⟨src₁, m₁, src₁', d₁, d₁', h₁, hm₁, huid₁, h₁', hgone, hkept, h₂, h₂', hnew⟩
  obtain rfl : src = src₁ := by rw [hsrc] at h₁; exact Option.some.inj h₁
  obtain rfl : src' = src₁' := by rw [hsrc'] at h₁'; exact Option.some.inj h₁'
  obtain rfl : d = d₁ := by rw [hd] at h₂; exact Option.some.inj h₂
  obtain rfl : d' = d₁' := by rw [hd'] at h₂'; exact Option.some.inj h₂'
  obtain rfl : m = m₁ := src.uid_inj hm hm₁ (huid.trans huid₁.symm)
  exact ⟨hgone, hkept, hnew⟩

/-- Where nothing is there to move, nothing is moved. -/
theorem not_movesOnly {fs' : Folders} (h : ¬ Has fs mailbox uid) :
    ¬ MovesOnly fs fs' mailbox dest uid :=
  fun ⟨src, m, _, _, _, hsrc, hm, huid, _⟩ => h ⟨src, m, hsrc, hm, huid⟩

/-- The message, if any, is the only one that an `EXPUNGE` takes once it is flagged. -/
def AloneDeleted (fs : Folders) (mailbox dest : String) (uid : Nat) : Prop :=
  ∀ f, fs mailbox = some f → ∀ m ∈ f.messages, m.deleted = true → m.uid = uid ∧ mailbox ≠ dest

/-- The message carries the flag once `g` has been at it. -/
def Flags (fs : Folders) (mailbox : String) (uid : Nat) (g : Stored → Stored) : Prop :=
  ∀ f, fs mailbox = some f → ∀ m ∈ f.messages, m.uid = uid → (g m).deleted = true

/-- `COPY`, a change of flags and `EXPUNGE` together move the one message, if it is there, has the
flag, and no other has. -/
theorem movesOnly_expunged {g : Stored → Stored} {hg : ∀ m, (g m).uid = m.uid}
    (hd : (fs dest).isSome) :
    MovesOnly fs (expungeEffect mailbox (flagEffect mailbox uid g hg
        (copyEffect mailbox dest uid fs))) mailbox dest uid ↔
      Has fs mailbox uid ∧ Flags fs mailbox uid g ∧ AloneDeleted fs mailbox dest uid := by
  by_cases hhas : Has fs mailbox uid
  swap
  · exact ⟨fun h => absurd h (not_movesOnly hhas), fun h => absurd h.1 hhas⟩
  obtain ⟨d, hd⟩ := Option.isSome_iff_exists.mp hd
  obtain ⟨src, m, hsrc, hm, huid⟩ := id hhas
  rw [copyEffect_of_has hsrc hm huid hd]
  have hothers : AloneDeleted fs mailbox dest uid ↔
      (∀ x ∈ src.messages, x.uid ≠ uid → x.deleted = false) ∧
        (mailbox = dest → m.deleted = false) := by
    refine ⟨fun h => ⟨fun x hx hne => ?_, fun hsame => ?_⟩, ?_⟩
    · by_contra hdel
      exact hne (h src hsrc x hx (by simpa using hdel)).1
    · by_contra hdel
      exact (h src hsrc m hm (by simpa using hdel)).2 hsame
    · rintro ⟨hkept, hown⟩ f hf x hx hdel
      obtain rfl : src = f := by rw [hsrc] at hf; exact Option.some.inj hf
      have hx' : x.uid = uid := by
        by_contra hne
        rw [hkept x hx hne] at hdel
        cases hdel
      obtain rfl : x = m := src.uid_inj hx hm (hx'.trans huid.symm)
      refine ⟨hx', fun hsame => ?_⟩
      rw [hown hsame] at hdel
      cases hdel
  have hflags : Flags fs mailbox uid g ↔ ∀ x ∈ src.messages, x.uid = uid → (g x).deleted = true := by
    refine ⟨fun h => h src hsrc, fun h f hf => ?_⟩
    obtain rfl : src = f := by rw [hsrc] at hf; exact Option.some.inj hf
    exact h
  rw [hothers, hflags]
  by_cases hsame : mailbox = dest
  · subst hsame
    obtain rfl : src = d := by rw [hsrc] at hd; exact Option.some.inj hd
    have hlt : m.uid < src.uidNext := src.assigned m hm
    rw [movesOnly_iff hsrc hm huid hsrc (by simp [expungeEffect, flagEffect]; rfl)
      (by simp [expungeEffect, flagEffect]; rfl), Folder.gone_iff]
    have hmem : ∀ x, x ∈ (src.append m).messages ↔
        x ∈ src.messages ∨ x = { m with uid := src.uidNext } := by
      simp [Folder.append]
    have hnew : newIn src (((src.append m).flag uid g hg).keep (!·.deleted)) =
        [{ m with uid := src.uidNext }] ↔ m.deleted = false := by
      have hne : src.uidNext ≠ uid := by omega
      rw [Folder.newIn_keep, Folder.newIn_flag, Folder.newIn_append]
      simp [hne, Stored.deleted]
    have hgone : (∀ x ∈ (src.append m).messages, x.uid = uid → (g x).deleted = true) ↔
        ∀ x ∈ src.messages, x.uid = uid → (g x).deleted = true := by
      refine ⟨fun h x hx => h x ((hmem x).mpr (.inl hx)), fun h x hx hxu => ?_⟩
      rcases (hmem x).mp hx with hx | rfl
      · exact h x hx hxu
      · exact absurd hxu (by simp; omega)
    have hkept : (∀ x ∈ src.messages, x.uid ≠ uid →
        x ∈ (((src.append m).flag uid g hg).keep (!·.deleted)).messages) ↔
        ∀ x ∈ src.messages, x.uid ≠ uid → x.deleted = false :=
      forall₃_congr fun x hx hne => Folder.kept_iff ((hmem x).mpr (.inl hx)) hne
    rw [hgone, hkept, hnew]
    exact ⟨fun ⟨hgone, hkeep, hown⟩ => ⟨hhas, hgone, hkeep, fun _ => hown⟩,
      fun ⟨_, hgone, hkeep, hown⟩ => ⟨hgone, hkeep, hown rfl⟩⟩
  · rw [movesOnly_iff hsrc hm huid hd (by simp [expungeEffect, flagEffect, hsame, hsrc]; rfl)
      (by simp [expungeEffect, flagEffect, Ne.symm hsame]; rfl), Folder.gone_iff]
    have hkept : (∀ x ∈ src.messages, x.uid ≠ uid →
        x ∈ ((src.flag uid g hg).keep (!·.deleted)).messages) ↔
        ∀ x ∈ src.messages, x.uid ≠ uid → x.deleted = false :=
      forall₃_congr fun x hx hne => Folder.kept_iff hx hne
    rw [hkept]
    exact ⟨fun ⟨hgone, hkeep, _⟩ => ⟨hhas, hgone, hkeep, fun h => absurd h hsame⟩,
      fun ⟨_, hgone, hkeep, _⟩ => ⟨hgone, hkeep, by simp⟩⟩

/-- `UID MOVE` moves the one message, if it is there. -/
theorem movesOnly_move (hd : (fs dest).isSome) :
    MovesOnly fs (moveEffect mailbox dest uid fs) mailbox dest uid ↔ Has fs mailbox uid := by
  refine ⟨fun h => by_contra fun hhas => not_movesOnly hhas h, fun hhas => ?_⟩
  obtain ⟨d, hd⟩ := Option.isSome_iff_exists.mp hd
  obtain ⟨src, m, hsrc, hm, huid⟩ := hhas
  have hlt : m.uid < src.uidNext := src.assigned m hm
  rw [moveEffect, copyEffect_of_has hsrc hm huid hd]
  by_cases hsame : mailbox = dest
  · subst hsame
    obtain rfl : src = d := by rw [hsrc] at hd; exact Option.some.inj hd
    rw [movesOnly_iff hsrc hm huid hsrc (by simp; rfl) (by simp; rfl)]
    refine ⟨by simp [Folder.keep], fun x hx hne => by simp [Folder.keep, Folder.append, hx, hne], ?_⟩
    have hne : src.uidNext ≠ uid := by omega
    rw [Folder.newIn_keep, Folder.newIn_append]
    simp [hne]
  · rw [movesOnly_iff hsrc hm huid hd (by simp [hsame, hsrc]; rfl) (by simp [Ne.symm hsame]; rfl)]
    exact ⟨by simp [Folder.keep], fun x hx hne => by simp [Folder.keep, hx, hne], by simp⟩

theorem not_has_moveEffect : ¬ Has (moveEffect mailbox dest uid fs) mailbox uid := by
  rintro ⟨f, m, hf, hm, huid⟩
  simp only [moveEffect, Function.update_self, Option.map_eq_some_iff] at hf
  obtain ⟨f, -, rfl⟩ := hf
  simp [Folder.keep, huid] at hm

/-- While the message stays, nothing was moved. -/
theorem not_movesOnly_copied {g : Stored → Stored} {hg : ∀ m, (g m).uid = m.uid} {fs' : Folders}
    (hfs' : fs' = flagEffect mailbox uid g hg (copyEffect mailbox dest uid fs)) :
    ¬ MovesOnly fs fs' mailbox dest uid := by
  subst hfs'
  rintro ⟨src, m, src', d, d', hsrc, hm, huid, hsrc', hgone, -, hd, -⟩
  have hdest : (fs dest).isSome := by simp [hd]
  have hboth : InBoth fs (flagEffect mailbox uid g hg (copyEffect mailbox dest uid fs)) mailbox
      dest uid := (inBoth_copied hdest).mpr ⟨src, m, hsrc, hm, huid⟩
  obtain ⟨f, y, hf, hy, hyu⟩ := hboth.1
  obtain rfl : src' = f := by rw [hsrc'] at hf; exact Option.some.inj hf
  exact hgone y hy hyu

end Effects

/-! ## 5. When a move moves the one message -/

/-- What the commands after the `COPY` have to come to: a failure, only where there was nothing to
copy; otherwise an `EXPUNGE` that takes effect, of the message alone. -/
def FallbackProper (tells : Fate → Bool) (store expunge : Fate) (fs : Folders) (mailbox : String)
    (uid : Nat) (dest : String) : Prop :=
  if store = .unsent ∨ (store ≠ .done ∧ tells store) then ¬ Has fs mailbox uid
  else
    match expunge.within (store = .done ∨ store = .refused) true with
    | .unsent => ¬ Has fs mailbox uid
    | .done | .unanswered => Has fs mailbox uid ∧
        (store = .done ∨ Flags fs mailbox uid id) ∧ AloneDeleted fs mailbox dest uid
    | .refused | .lost => False

/-- How far the commands have to get: the mailbox cannot be selected; or the server moves the
message, which is there; or `MOVE` breaks the connection; or `COPY` copies nothing; or it does, and
the rest is proper. -/
def Proper (tells : Fate → Bool) (script : Script) (mailbox : String) (uid : Nat) (dest : String)
    (s : Session) : Prop :=
  match script.select.within s.alive (s.folders mailbox).isSome with
  | .done =>
    match script.move.within s.alive (s.hasMove && (s.folders dest).isSome) with
    | .done => Has s.folders mailbox uid
    | .refused =>
      match script.copy.within s.alive (s.folders dest).isSome with
      | .done => FallbackProper tells script.store script.expunge s.folders mailbox uid dest
      | .unanswered => ¬ Has s.folders mailbox uid
      | _ => True
    | _ => True
  | _ => True

@[simp] theorem within_true (fate : Fate) : fate.within true true = fate := by
  cases fate <;> rfl

/-- On a broken connection a command comes to nothing. -/
theorem within_false (fate : Fate) (possible : Bool) :
    fate.within false possible = .unsent ∨ fate.within false possible = .lost := by
  cases fate <;> simp [Fate.within]

/-- A command takes effect only on a working connection, where the server can carry it out. -/
theorem within_takes_effect {alive possible : Bool} {fate : Fate}
    (h : fate.within alive possible = .done ∨ fate.within alive possible = .unanswered) :
    alive = true ∧ possible = true := by
  cases fate <;> cases alive <;> cases possible <;> simp [Fate.within] at h ⊢

section Stages

variable {fs : Folders} {mailbox dest : String} {uid : Nat} {s : Session}

/-- The `EXPUNGE` after a `COPY` and a change of flags. -/
theorem expungeAll_kept {g : Stored → Stored} {hg : ∀ m, (g m).uid = m.uid}
    (hd : (fs dest).isSome)
    (hs : s.folders = flagEffect mailbox uid g hg (copyEffect mailbox dest uid fs))
    (expunge : Fate) :
    MoveKept fs (expungeAll expunge mailbox s) mailbox uid dest ↔
      match expunge.within s.alive true with
      | .unsent => ¬ Has fs mailbox uid
      | .done | .unanswered =>
        Has fs mailbox uid ∧ Flags fs mailbox uid g ∧ AloneDeleted fs mailbox dest uid
      | .refused | .lost => False := by
  rw [expungeAll, issue]
  cases hfate : expunge.within s.alive true
  case unsent => simp only [MoveKept, hs, inBoth_copied hd]
  case done => simp only [MoveKept, hs, movesOnly_expunged hd]
  case unanswered => simp only [MoveKept, hs, movesOnly_expunged hd]
  case refused => simp only [MoveKept, not_movesOnly_copied hs]
  case lost => simp only [MoveKept, not_movesOnly_copied hs]

theorem flags_delete : Flags fs mailbox uid Stored.delete :=
  fun _ _ m _ _ => m.delete_deleted

/-- What follows the `COPY`. -/
theorem markAndExpunge_kept (tells : Fate → Bool) (script : Script) (hd : (fs dest).isSome)
    (halive : s.alive = true) (hs : s.folders = copyEffect mailbox dest uid fs) :
    MoveKept fs (markAndExpunge tells script mailbox uid s) mailbox uid dest ↔
      FallbackProper tells script.store script.expunge fs mailbox uid dest := by
  have hflagged : storeEffect mailbox uid s.folders = flagEffect mailbox uid Stored.delete
      Stored.delete_uid (copyEffect mailbox dest uid fs) := by rw [hs, storeEffect_eq]
  have hunflagged : s.folders = flagEffect mailbox uid id (fun _ => rfl)
      (copyEffect mailbox dest uid fs) := by rw [hs, flagEffect_id]
  have hfail : ∀ (g : Stored → Stored) (hg : ∀ m, (g m).uid = m.uid) (fate : Fate) (s' : Session),
      s'.folders = flagEffect mailbox uid g hg (copyEffect mailbox dest uid fs) →
      (MoveKept fs (.error fate, s') mailbox uid dest ↔ ¬ Has fs mailbox uid) := by
    intro g hg fate s' hs'
    simp only [MoveKept, hs', inBoth_copied hd]
  rw [markAndExpunge, FallbackProper, issue, halive, within_true]
  cases hstore : script.store with
  | done =>
    simp only [ne_eq, not_true_eq_false, false_and, or_self, reduceCtorEq, if_false]
    rw [expungeAll_kept hd hflagged]
    simp [flags_delete]
  | unsent =>
    simp only [true_or, if_true]
    exact hfail id _ _ _ hunflagged
  | refused =>
    cases htells : tells .refused with
    | true => simpa [htells] using hfail id _ _ _ hunflagged
    | false =>
      simp only [ne_eq, reduceCtorEq, not_false_eq_true, htells, Bool.false_eq_true, and_false,
        or_self, if_false]
      rw [expungeAll_kept hd hunflagged]
      simp [halive]
  | lost =>
    cases htells : tells .lost with
    | true => simpa [htells] using hfail id _ _ { s with alive := false } hunflagged
    | false =>
      simp only [ne_eq, reduceCtorEq, not_false_eq_true, htells, Bool.false_eq_true, and_false,
        or_self, if_false]
      rw [expungeAll_kept (s := { s with alive := false }) hd hunflagged]
      rcases within_false script.expunge true with h | h <;> simp [h]
  | unanswered =>
    cases htells : tells .unanswered with
    | true =>
      simpa [htells] using hfail _ _ _ { s with
        folders := storeEffect mailbox uid s.folders, alive := false } hflagged
    | false =>
      simp only [ne_eq, reduceCtorEq, not_false_eq_true, htells, Bool.false_eq_true, and_false,
        or_self, if_false]
      rw [expungeAll_kept (s := { s with
        folders := storeEffect mailbox uid s.folders, alive := false }) hd hflagged]
      rcases within_false script.expunge true with h | h <;> simp [h]

end Stages

/-- A move is of the one message, and a failed one leaves it in one mailbox, exactly where the
commands get as far as `Proper` says.

The cases are those of the function: no mailbox, a move that the server makes, and the fallback, where the
`COPY` decides what a failure may leave. -/
theorem moves_only_iff (tells : Fate → Bool) (script : Script) (mailbox : String) (uid : Nat)
    (dest : String) (s : Session) :
    MoveKept s.folders (moveMessage tells script mailbox uid dest s) mailbox uid dest ↔
      Proper tells script mailbox uid dest s := by
  have hsame : ¬ InBoth s.folders s.folders mailbox dest uid := by
    rintro ⟨-, d, d', hd, hd', hnew⟩
    obtain rfl : d = d' := by rw [hd] at hd'; exact Option.some.inj hd'
    simp at hnew
  rw [Proper, moveMessage, issue]
  cases hselect : script.select.within s.alive (s.folders mailbox).isSome
  case done =>
    obtain ⟨halive, -⟩ := within_takes_effect (.inl hselect)
    simp only [issue]
    cases hmove : script.move.within s.alive (s.hasMove && (s.folders dest).isSome)
    case done =>
      have hd : (s.folders dest).isSome = true := by
        simpa using (Bool.and_eq_true_iff.mp (within_takes_effect (.inl hmove)).2).2
      simp only [MoveKept, movesOnly_move hd]
    case refused =>
      simp only
      cases hcopy : script.copy.within s.alive (s.folders dest).isSome
      case done =>
        obtain ⟨-, hd⟩ := within_takes_effect (.inl hcopy)
        exact markAndExpunge_kept tells script hd halive rfl
      case unanswered =>
        obtain ⟨-, hd⟩ := within_takes_effect (.inr hcopy)
        have hcopied : InBoth s.folders (flagEffect mailbox uid id (fun _ => rfl)
            (copyEffect mailbox dest uid s.folders)) mailbox dest uid ↔
            Has s.folders mailbox uid := inBoth_copied hd
        rw [flagEffect_id] at hcopied
        simp only [MoveKept, hcopied]
      all_goals simp [MoveKept, hsame]
    case unanswered =>
      have hmoved : ¬ InBoth s.folders (moveEffect mailbox dest uid s.folders) mailbox dest uid :=
        fun h => not_has_moveEffect h.1
      simp only
      rcases within_false script.copy (moveEffect mailbox dest uid s.folders dest).isSome with h | h
        <;> simp [h, MoveKept, hmoved]
    all_goals
      simp only
      rcases within_false script.copy (s.folders dest).isSome with h | h <;>
        simp [h, MoveKept, hsame]
  all_goals simp [MoveKept, hsame]

/-- A server without `MOVE`: the inbox holds message 1, which another client has flagged
`\Deleted`, and message 2; the trash is empty. -/
def sharedInbox : Session where
  hasMove := false
  folders := Function.update (Function.update (fun _ => none) "INBOX" (some
      { messages := [⟨1, [deletedFlag], [49]⟩, ⟨2, [], [50]⟩]
        uidNext := 3
        ascending := by decide
        assigned := by decide }))
    "Trash" (some { messages := [], uidNext := 1, ascending := by decide, assigned := by decide })

/-- Message 2 is moved to the trash, and message 1 is gone for good. -/
theorem other_message_expunged :
    let r := moveMessage (fun _ => true) {} "INBOX" 2 "Trash" sharedInbox
    r.1 = .ok () ∧ (r.2.folders "INBOX").map (·.messages) = some [] ∧
      (r.2.folders "Trash").map (·.messages) = some [⟨1, [], [50]⟩] ∧
      ¬ MoveKept sharedInbox.folders r "INBOX" 2 "Trash" := by
  intro r
  have hok : r.1 = .ok () := by decide
  have hinbox : (r.2.folders "INBOX").map (·.messages) = some [] := by decide
  refine ⟨hok, hinbox, by decide, ?_⟩
  rw [MoveKept, hok]
  rintro ⟨src, m, src', -, -, hsrc, -, -, hsrc', -, hkept, -⟩
  rw [hsrc'] at hinbox
  have hnil : src'.messages = [] := by simpa using hinbox
  have hmsgs : src.messages = [⟨1, [deletedFlag], [49]⟩, ⟨2, [], [50]⟩] := by
    have h : (sharedInbox.folders "INBOX").map (·.messages) =
        some [⟨1, [deletedFlag], [49]⟩, ⟨2, [], [50]⟩] := by decide
    rw [hsrc] at h
    simpa using h
  have hfirst := hkept ⟨1, [deletedFlag], [49]⟩ (by simp [hmsgs]) (by decide)
  simp [hnil] at hfirst

end Esmail.Moving
