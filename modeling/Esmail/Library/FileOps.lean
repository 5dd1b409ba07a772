/-
# A file, written step by step

What `std::fs::write` does to a directory, as the list of its steps: the file is opened, which empties it,
and then its bytes are written.  A process that is killed, or a step that fails, cuts the list off
(`cut`).  `write` may be cut with any beginning of the bytes in the file; `replace`, which writes another
file and renames it, may not (`cut_replace`).
-/
import Mathlib.Logic.Function.Basic
import Mathlib.Tactic.Common

namespace FileOps

variable {Name : Type}

/-- A directory: the bytes of each file in it. -/
abbrev FileMap (Name : Type) := Name → Option (List UInt8)

/-- One step. -/
inductive Op (Name : Type)
  | mkdir
  | create (name : Name)
  | append (name : Name) (byte : UInt8)
  | rename (source target : Name)
  deriving DecidableEq, Repr

/-- `std::fs::write`. -/
def write (name : Name) (bytes : List UInt8) : List (Op Name) :=
  .create name :: bytes.map (.append name)

/-- A temporary file, written and renamed. -/
def replace (temp name : Name) (bytes : List UInt8) : List (Op Name) :=
  write temp bytes ++ [.rename temp name]

theorem length_write (name : Name) (bytes : List UInt8) :
    (write name bytes).length = bytes.length + 1 := by
  simp [write]

variable [DecidableEq Name]

/-- What a step leaves. -/
def Op.apply (files : FileMap Name) : Op Name → FileMap Name
  | .mkdir => files
  | .create name => Function.update files name (some [])
  | .append name byte => Function.update files name ((files name).map (· ++ [byte]))
  | .rename source target =>
    match files source with
    | none => files
    | some bytes => Function.update (Function.update files source none) target (some bytes)

/-- What the first `k` of the steps leave. -/
def cut (ops : List (Op Name)) (k : Nat) (files : FileMap Name) : FileMap Name :=
  (ops.take k).foldl Op.apply files

@[simp] theorem cut_zero (ops : List (Op Name)) (files : FileMap Name) : cut ops 0 files = files := rfl

@[simp] theorem cut_cons_succ (op : Op Name) (ops : List (Op Name)) (k : Nat) (files : FileMap Name) :
    cut (op :: ops) (k + 1) files = cut ops k (op.apply files) := rfl

/-- The bytes that were appended, and nothing else. -/
theorem foldl_append (name : Name) : ∀ (bytes : List UInt8) (files : FileMap Name),
    (bytes.map (Op.append name)).foldl Op.apply files =
      Function.update files name ((files name).map (· ++ bytes))
  | [], files => by
    rw [List.map_nil, List.foldl_nil]
    simp
  | byte :: bytes, files => by
    rw [List.map_cons, List.foldl_cons, foldl_append name bytes]
    simp [Op.apply, Option.map_map, Function.comp_def]

/-- A write that is cut off: the file is as it was, or it has the first of the bytes. -/
theorem cut_write (name : Name) (bytes : List UInt8) (k : Nat) (files : FileMap Name) :
    cut (write name bytes) (k + 1) files = Function.update files name (some (bytes.take k)) := by
  rw [write, cut_cons_succ, cut, ← List.map_take, foldl_append]
  simp [Op.apply]

/-- A replacement that is cut off: the file is as it was until it is the new one. -/
theorem cut_replace {temp name : Name} (hne : temp ≠ name) (bytes : List UInt8) (k : Nat)
    (files : FileMap Name) :
    cut (replace temp name bytes) k files name =
      if bytes.length + 2 ≤ k then some bytes else files name := by
  cases k with
  | zero => simp
  | succ k =>
    by_cases hk : bytes.length + 1 ≤ k
    · have hall : (replace temp name bytes).take (k + 1) = replace temp name bytes := by
        refine List.take_of_length_le ?_
        simp [replace, length_write, hk]
      have hwrite := cut_write temp bytes bytes.length files
      rw [cut, ← length_write temp, List.take_length] at hwrite
      rw [cut, hall, if_pos (by omega), replace, List.foldl_append, hwrite]
      simp [Op.apply]
    · have hsome : (replace temp name bytes).take (k + 1) = (write temp bytes).take (k + 1) := by
        refine List.take_append_of_le_length ?_
        rw [length_write]
        omega
      have hcut := cut_write temp bytes k files
      rw [cut] at hcut
      rw [cut, hsome, hcut, if_neg (by omega), Function.update_of_ne hne.symm]

end FileOps
