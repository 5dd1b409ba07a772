/-
# Reading delimited records off a stream, in bounded pieces

A stream is what the reader has buffered and the reads still to come; a read that brings something
brings at least one element, so an empty one is the end.  `readUntil` is the reader of buffered
streams: up to and with the delimiter, or up to a limit, or to the end.

Two facts carry every use.  How the stream is split into reads does not matter (`readUntil_eq`): the
reader takes `takeRecord` of all that is still to come.  And a record longer than the limit comes in
blocks of the limit's length, the last of which is `lastBlock`.
-/
import Mathlib.Tactic.Common

namespace LineReader

variable {α : Type}

/-! ## 1. Streams -/

/-- What one read brings. -/
abbrev Chunk (α : Type) : Type := { elems : List α // elems ≠ [] }

/-- A stream: what is buffered of it, and the reads to come. -/
structure Stream (α : Type) where
  buffer : List α := []
  reads : List (Chunk α) := []

namespace Stream

/-- All that is still to come, however it is split. -/
def contents (s : Stream α) : List α := s.buffer ++ s.reads.flatMap Subtype.val

@[simp] theorem contents_mk (buffer : List α) (reads : List (Chunk α)) :
    (Stream.mk buffer reads).contents = buffer ++ reads.flatMap Subtype.val := rfl

end Stream

variable [DecidableEq α] (delim : α)

/-- The elements up to the delimiter and with it, cut at the limit. -/
def takeRecord : Nat → List α → List α
  | 0, _ => []
  | _ + 1, [] => []
  | n + 1, x :: xs => if x = delim then [x] else x :: takeRecord n xs

/-- Reads until the delimiter, the limit or the end: it looks through what is buffered, and where
that settles nothing, it reads on. -/
def readUntil (limit : Nat) (buffer : List α) : List (Chunk α) → List α × Stream α
  | [] =>
    let taken := takeRecord delim limit buffer
    (taken, ⟨buffer.drop taken.length, []⟩)
  | chunk :: reads =>
    let taken := takeRecord delim limit buffer
    if delim ∈ taken ∨ taken.length = limit then
      (taken, ⟨buffer.drop taken.length, chunk :: reads⟩)
    else
      let r := readUntil (limit - taken.length) chunk.val reads
      (taken ++ r.1, r.2)

/-! ## 2. A record, cut at a limit -/

variable {delim}

theorem takeRecord_isHead : ∀ (n : Nat) (xs : List α), takeRecord delim n xs <+: xs
  | 0, xs => List.nil_prefix
  | n + 1, [] => List.nil_prefix
  | n + 1, x :: xs => by
    rw [takeRecord]
    split
    · exact ⟨xs, rfl⟩
    · exact List.cons_prefix_cons.mpr ⟨rfl, takeRecord_isHead n xs⟩

theorem length_takeRecord_le : ∀ (n : Nat) (xs : List α), (takeRecord delim n xs).length ≤ n
  | 0, _ => Nat.le_refl 0
  | n + 1, [] => Nat.zero_le _
  | n + 1, x :: xs => by
    have ih := length_takeRecord_le n xs
    rw [takeRecord]
    split <;> simp only [List.length_cons, List.length_nil] <;> omega

/-- The whole is what was taken, and the rest. -/
theorem takeRecord_append_drop (n : Nat) (xs : List α) :
    takeRecord delim n xs ++ xs.drop (takeRecord delim n xs).length = xs :=
  (List.prefix_iff_eq_append.mp (takeRecord_isHead n xs))

/-- Nothing is taken only where there is nothing, or no room. -/
theorem takeRecord_eq_nil {n : Nat} (hn : 0 < n) {xs : List α} :
    takeRecord delim n xs = [] ↔ xs = [] := by
  rcases n with - | n
  · omega
  · rcases xs with - | ⟨x, xs⟩
    · simp [takeRecord]
    · rw [takeRecord]
      split <;> simp

/-- Past a stretch without the delimiter, what is taken goes on with the room that is left. -/
theorem takeRecord_append {pre : List α} (hpre : delim ∉ pre) :
    ∀ {n : Nat} (rest : List α), pre.length ≤ n →
      takeRecord delim n (pre ++ rest) = pre ++ takeRecord delim (n - pre.length) rest := by
  induction pre with
  | nil => intro n rest _; rfl
  | cons x pre ih =>
    intro n rest hn
    obtain ⟨hx, hpre⟩ := List.ne_and_not_mem_of_not_mem_cons hpre
    rcases n with - | n
    · simp at hn
    · have := ih hpre (n := n) rest (by simpa using hn)
      simp [takeRecord, Ne.symm hx, this]

/-- A whole record, where it fits. -/
theorem takeRecord_record {pre : List α} (hpre : delim ∉ pre) {n : Nat} (hn : pre.length < n)
    (rest : List α) : takeRecord delim n (pre ++ delim :: rest) = pre ++ [delim] := by
  rw [takeRecord_append hpre _ (Nat.le_of_lt hn)]
  obtain ⟨k, hk⟩ : ∃ k, n - pre.length = k + 1 := ⟨n - pre.length - 1, by omega⟩
  rw [hk, takeRecord, if_pos rfl]

/-- What was taken and ends neither at the delimiter nor at the limit is all there is. -/
theorem takeRecord_eq_self : ∀ {n : Nat} {xs : List α}, delim ∉ takeRecord delim n xs →
    (takeRecord delim n xs).length ≠ n → takeRecord delim n xs = xs
  | 0, _, _, hn => absurd rfl hn
  | n + 1, [], _, _ => rfl
  | n + 1, x :: xs, hd, hn => by
    rw [takeRecord] at hd hn ⊢
    split at hd
    · simp_all
    · rename_i hx
      rw [if_neg hx] at hn ⊢
      have := takeRecord_eq_self (n := n) (fun h => hd (List.mem_cons_of_mem _ h))
        (by simpa using hn)
      rw [this]

/-- The delimiter is the last thing taken. -/
theorem takeRecord_split : ∀ {n : Nat} {xs : List α}, delim ∈ takeRecord delim n xs →
    ∃ pre, delim ∉ pre ∧ takeRecord delim n xs = pre ++ [delim]
  | 0, _, h => by simp [takeRecord] at h
  | n + 1, [], h => by simp [takeRecord] at h
  | n + 1, x :: xs, h => by
    rw [takeRecord] at h ⊢
    by_cases hx : x = delim
    · exact ⟨[], by simp, by simp [hx]⟩
    · rw [if_neg hx] at h ⊢
      have hin : delim ∈ takeRecord delim n xs := (List.mem_cons.mp h).resolve_left (Ne.symm hx)
      obtain ⟨pre, hpre, htake⟩ := takeRecord_split hin
      exact ⟨x :: pre, by simp [Ne.symm hx, hpre], by rw [htake]; rfl⟩

/-- What is taken and ends at the delimiter or at the limit is taken of anything longer too. -/
theorem takeRecord_stop : ∀ {n : Nat} {xs : List α}, delim ∈ takeRecord delim n xs ∨
    (takeRecord delim n xs).length = n →
    ∀ more, takeRecord delim n (xs ++ more) = takeRecord delim n xs
  | 0, _, _, _ => rfl
  | n + 1, [], hstop, _ => by simp [takeRecord] at hstop
  | n + 1, x :: xs, hstop, more => by
    rw [List.cons_append, takeRecord, takeRecord]
    by_cases hx : x = delim
    · rw [if_pos hx, if_pos hx]
    · have hin : delim ∈ takeRecord delim n xs ∨ (takeRecord delim n xs).length = n := by
        simpa [takeRecord, hx, Ne.symm hx] using hstop
      rw [if_neg hx, if_neg hx, takeRecord_stop hin more]

/-- What one read of a record takes of something: a block that fills the limit, the unterminated
rest, or a whole record. -/
theorem takeRecord_cases (n : Nat) (xs : List α) :
    (delim ∉ takeRecord delim n xs ∧ (takeRecord delim n xs).length = n) ∨
      (delim ∉ xs ∧ takeRecord delim n xs = xs ∧ xs.length < n) ∨
      ∃ pre rest, delim ∉ pre ∧ xs = pre ++ delim :: rest ∧
        takeRecord delim n xs = pre ++ [delim] ∧ pre.length < n := by
  have hlen : (takeRecord delim n xs).length ≤ n := length_takeRecord_le ..
  by_cases hdelim : delim ∈ takeRecord delim n xs
  · obtain ⟨pre, hpre, htake⟩ := takeRecord_split hdelim
    refine .inr (.inr ⟨pre, xs.drop (takeRecord delim n xs).length, hpre, ?_, htake, ?_⟩)
    · calc xs = takeRecord delim n xs ++ xs.drop (takeRecord delim n xs).length :=
            (takeRecord_append_drop n xs).symm
        _ = pre ++ delim :: xs.drop (takeRecord delim n xs).length := by
            conv_lhs => rw [htake]
            simp [htake]
    · simp [htake] at hlen
      omega
  · by_cases hfull : (takeRecord delim n xs).length = n
    · exact .inl ⟨hdelim, hfull⟩
    · have hself : takeRecord delim n xs = xs := takeRecord_eq_self hdelim hfull
      rw [hself] at hdelim hlen hfull
      exact .inr (.inl ⟨hdelim, hself, by omega⟩)

/-! ## 3. The split into reads does not matter -/

/-- What is read is `takeRecord` of all that is to come, and the rest is still to come. -/
theorem readUntil_eq : ∀ (reads : List (Chunk α)) (limit : Nat) (buffer : List α),
    let all := buffer ++ reads.flatMap Subtype.val
    (readUntil delim limit buffer reads).1 = takeRecord delim limit all ∧
      (readUntil delim limit buffer reads).2.contents =
        all.drop (takeRecord delim limit all).length
  | [], limit, buffer => by simp [readUntil]
  | chunk :: reads, limit, buffer => by
    intro all
    have hlen : (takeRecord delim limit buffer).length ≤ limit := length_takeRecord_le ..
    rw [readUntil]
    by_cases hstop : delim ∈ takeRecord delim limit buffer ∨
        (takeRecord delim limit buffer).length = limit
    · have hall : takeRecord delim limit all = takeRecord delim limit buffer :=
        takeRecord_stop hstop _
      have hle : (takeRecord delim limit buffer).length ≤ buffer.length :=
        (takeRecord_isHead limit buffer).length_le
      rw [if_pos hstop, hall]
      exact ⟨rfl, by simp [all, List.drop_append_of_le_length hle]⟩
    · obtain ⟨hdelim, hfull⟩ := not_or.mp hstop
      have hself : takeRecord delim limit buffer = buffer := takeRecord_eq_self hdelim hfull
      obtain ⟨hread, hrest⟩ := readUntil_eq reads (limit - buffer.length) chunk.val
      have hall : takeRecord delim limit all = buffer ++
          takeRecord delim (limit - buffer.length) (chunk.val ++ reads.flatMap Subtype.val) := by
        rw [hself] at hdelim hlen
        exact takeRecord_append hdelim _ hlen
      rw [if_neg hstop, hall]
      refine ⟨by simp only [hself, hread], ?_⟩
      simp only [hself, hrest, List.length_append]
      simp [all, List.drop_append]

/-! ## 4. Records -/

variable (delim)

/-- The records of a stream, each with its delimiter; the last may lack one. -/
def records : List α → List (List α)
  | [] => []
  | x :: xs =>
    if x = delim then [x] :: records xs
    else
      match records xs with
      | [] => [[x]]
      | r :: rs => (x :: r) :: rs

variable {delim}

theorem records_append {pre : List α} (hpre : delim ∉ pre) (rest : List α) :
    records delim (pre ++ delim :: rest) = (pre ++ [delim]) :: records delim rest := by
  induction pre with
  | nil => simp [records]
  | cons x pre ih =>
    obtain ⟨hx, hpre⟩ := List.ne_and_not_mem_of_not_mem_cons hpre
    simp [records, Ne.symm hx, ih hpre]

theorem records_unterminated {last : List α} (hlast : delim ∉ last) (hne : last ≠ []) :
    records delim last = [last] := by
  induction last with
  | nil => exact absurd rfl hne
  | cons x last ih =>
    obtain ⟨hx, hlast⟩ := List.ne_and_not_mem_of_not_mem_cons hlast
    rcases last with - | ⟨y, last⟩
    · simp [records, Ne.symm hx]
    · rw [records, if_neg (Ne.symm hx), ih hlast (by simp)]

/-! ## 5. The blocks of a long record -/

/-- What is left of a record once whole blocks have been taken off it, as long as something is
left. -/
def lastBlock (size : Nat) (record : List α) : List α :=
  record.drop ((record.length - 1) / size * size)

omit [DecidableEq α] in
/-- What is left after some whole blocks, where it is one block at most, is the last. -/
theorem lastBlock_append {size k : Nat} {pre block : List α} (hpre : pre.length = k * size)
    (hne : block ≠ []) (hle : block.length ≤ size) : lastBlock size (pre ++ block) = block := by
  have hpos : 0 < block.length := List.length_pos_iff.mpr hne
  have hdiv : ((pre ++ block).length - 1) / size = k := by
    rw [List.length_append, hpre, show k * size + block.length - 1 =
      (block.length - 1) + k * size by omega, Nat.add_mul_div_right _ _ (by omega),
      Nat.div_eq_of_lt (by omega), Nat.zero_add]
  rw [lastBlock, hdiv, ← hpre]
  simp

end LineReader
