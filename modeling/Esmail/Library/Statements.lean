/-
# Statement sequences, one of which may fail

A program that changes its store by STATEMENTS, one after another, gives up at the first that
fails.  What a statement did before that stays done, unless a transaction takes it back.  `Sql`
is the monad of such programs: beside the store it carries a counter that says which of the
statements still to come is the failing one, if any is.  At most one fails, so the ROLLBACK after
it does not.

`Spec P x Q E` is the triple of such a program: from a store with `P` it ends in one with `Q`, or
is cut off in one with `E`.  `Keeps I x` is the case in which all three are one invariant; it
composes along a sequence, a loop and a transaction.
-/
import Mathlib.Tactic.Common

namespace Statements

/-- A connection: the store, and how many statements still succeed before one fails. -/
structure Conn (σ : Type) where
  store : σ
  left : Option Nat

/-- A program of statements: its result, `none` where it gave up. -/
def Sql (σ α : Type) : Type := Conn σ → Option α × Conn σ

namespace Sql

variable {σ α β : Type}

def bind (x : Sql σ α) (f : α → Sql σ β) : Sql σ β := fun c =>
  match x c with
  | (some a, c') => f a c'
  | (none, c') => (none, c')

instance : Monad (Sql σ) where
  pure a := fun c => (some a, c)
  bind := Sql.bind

/-- One statement, which reads the store and may change it. -/
def issue (f : σ → α × σ) : Sql σ α := fun c =>
  match c.left with
  | some 0 => (none, { c with left := none })
  | some (n + 1) => (some (f c.store).1, ⟨(f c.store).2, some n⟩)
  | none => (some (f c.store).1, ⟨(f c.store).2, none⟩)

def execute (f : σ → σ) : Sql σ Unit := issue fun s => ((), f s)

def query (f : σ → α) : Sql σ α := issue fun s => (f s, s)

/-- A failure that the program goes on after. -/
def attempt (x : Sql σ α) : Sql σ (Option α) := fun c => (some (x c).1, (x c).2)

/-- A query that found no row is a failure too. -/
def demand (a : Option α) : Sql σ α := fun c => (a, c)

def forEach (f : β → Sql σ Unit) : List β → Sql σ Unit
  | [] => pure ()
  | x :: xs => do
    f x
    forEach f xs

/-- BEGIN, a program, and COMMIT; where one of them fails the store is put back. -/
def transaction (x : Sql σ α) : Sql σ α := fun c =>
  match (do execute id; let a ← x; execute id; pure a : Sql σ α) c with
  | (some a, c') => (some a, c')
  | (none, c') => (none, { c' with store := c.store })

/-! ## 1. Programs none of whose statements fails -/

@[simp] theorem bind_apply (x : Sql σ α) (f : α → Sql σ β) (c : Conn σ) :
    (x >>= f) c = match x c with
      | (some a, c') => f a c'
      | (none, c') => (none, c') := rfl

@[simp] theorem pure_apply (a : α) (c : Conn σ) : (pure a : Sql σ α) c = (some a, c) := rfl

@[simp] theorem execute_ok (f : σ → σ) (s : σ) :
    execute f ⟨s, none⟩ = (some (), ⟨f s, none⟩) := rfl

@[simp] theorem query_ok (f : σ → α) (s : σ) : query f ⟨s, none⟩ = (some (f s), ⟨s, none⟩) := rfl

@[simp] theorem attempt_apply (x : Sql σ α) (c : Conn σ) :
    attempt x c = (some (x c).1, (x c).2) := rfl

/-- A loop whose body makes `f` of the store makes a fold of it. -/
theorem forEach_ok {body : β → Sql σ Unit} {f : σ → β → σ}
    (h : ∀ x s, body x ⟨s, none⟩ = (some (), ⟨f s x, none⟩)) (xs : List β) (s : σ) :
    forEach body xs ⟨s, none⟩ = (some (), ⟨xs.foldl f s, none⟩) := by
  induction xs generalizing s with
  | nil => rfl
  | cons x xs ih =>
    simp only [forEach, bind_apply, h, List.foldl_cons]
    exact ih _

theorem transaction_ok {x : Sql σ α} {s s' : σ} {a : α}
    (h : x ⟨s, none⟩ = (some a, ⟨s', none⟩)) :
    transaction x ⟨s, none⟩ = (some a, ⟨s', none⟩) := by
  simp [transaction, h]

/-! ## 2. Programs cut off anywhere -/

@[simp] theorem execute_fails (f : σ → σ) (s : σ) :
    execute f ⟨s, some 0⟩ = (none, ⟨s, none⟩) := rfl

@[simp] theorem execute_succ (f : σ → σ) (s : σ) (n : Nat) :
    execute f ⟨s, some (n + 1)⟩ = (some (), ⟨f s, some n⟩) := rfl

@[simp] theorem query_fails (f : σ → α) (s : σ) :
    query f ⟨s, some 0⟩ = (none, ⟨s, none⟩) := rfl

@[simp] theorem query_succ (f : σ → α) (s : σ) (n : Nat) :
    query f ⟨s, some (n + 1)⟩ = (some (f s), ⟨s, some n⟩) := rfl

/-- From a store with `P`, the program ends in one with `Q`, or is cut off in one with `E`. -/
def Spec (P : σ → Prop) (x : Sql σ α) (Q : α → σ → Prop) (E : σ → Prop) : Prop :=
  ∀ c, P c.store →
    (∀ a, (x c).1 = some a → Q a (x c).2.store) ∧ ((x c).1 = none → E (x c).2.store)

/-- Wherever the program ends or is cut off, the invariant stands. -/
def Keeps (I : σ → Prop) (x : Sql σ α) : Prop := Spec I x (fun _ => I) I

variable {P P' E I : σ → Prop} {Q : α → σ → Prop} {R : β → σ → Prop}

theorem Spec.pure {a : α} (h : ∀ s, P s → Q a s) : Spec P (pure a : Sql σ α) Q E := by
  intro c hc
  constructor
  · rintro b hb
    obtain rfl := Option.some.inj hb
    exact h c.store hc
  · intro hnone
    exact absurd hnone (by simp)

theorem Spec.bind {x : Sql σ α} {f : α → Sql σ β} (hx : Spec P x Q E)
    (hf : ∀ a, Spec (Q a) (f a) R E) : Spec P (x >>= f) R E := by
  intro c hc
  obtain ⟨hok, hcut⟩ := hx c hc
  rw [bind_apply]
  split
  · next a c' he =>
    rw [he] at hok
    exact hf a c' (hok a rfl)
  · next c' he =>
    rw [he] at hcut
    exact ⟨fun b hb => absurd hb (by simp), fun _ => hcut rfl⟩

theorem Spec.issue {f : σ → α × σ} (hok : ∀ s, P s → Q (f s).1 (f s).2) (hcut : ∀ s, P s → E s) :
    Spec P (issue f) Q E := by
  rintro ⟨s, left⟩ hs
  have hdone : ∀ a, some (f s).1 = some a → Q a (f s).2 := by
    rintro a ha
    obtain rfl := Option.some.inj ha
    exact hok s hs
  cases left with
  | none => exact ⟨hdone, fun h => absurd h (by simp [Sql.issue])⟩
  | some n =>
    cases n with
    | zero => exact ⟨fun a h => absurd h (by simp [Sql.issue]), fun _ => hcut s hs⟩
    | succ n => exact ⟨hdone, fun h => absurd h (by simp [Sql.issue])⟩

theorem Spec.execute {f : σ → σ} {Q : Unit → σ → Prop} (hok : ∀ s, P s → Q () (f s))
    (hcut : ∀ s, P s → E s) : Spec P (execute f) Q E := Spec.issue hok hcut

/-- A statement that keeps the invariant, and that what was there before it keeps it too. -/
theorem Keeps.execute {f : σ → σ} (h : ∀ s, I s → I (f s)) : Keeps I (execute f) :=
  Spec.execute h fun _ hs => hs

theorem Keeps.query (f : σ → α) : Keeps I (query f) := Spec.issue (fun _ h => h) fun _ h => h

theorem Keeps.demand (a : Option α) : Keeps I (demand a : Sql σ α) :=
  fun _ hc => ⟨fun _ _ => hc, fun _ => hc⟩

theorem Keeps.bind {x : Sql σ α} {f : α → Sql σ β} (hx : Keeps I x) (hf : ∀ a, Keeps I (f a)) :
    Keeps I (x >>= f) := Spec.bind hx hf

theorem Keeps.pure (a : α) : Keeps I (pure a : Sql σ α) := Spec.pure fun _ h => h

theorem Keeps.forEach {f : β → Sql σ Unit} (hf : ∀ x, Keeps I (f x)) (xs : List β) :
    Keeps I (forEach f xs) := by
  induction xs with
  | nil => exact Keeps.pure ()
  | cons x xs ih => exact (hf x).bind fun _ => ih

theorem Keeps.transaction {x : Sql σ α} (hx : Keeps I x) : Keeps I (transaction x) := by
  intro c hc
  have hall : Keeps I (do Sql.execute id; let a ← x; Sql.execute id; Pure.pure a : Sql σ α) :=
    (Keeps.execute fun _ h => h).bind fun _ =>
      hx.bind fun _ => (Keeps.execute fun _ h => h).bind fun _ => Keeps.pure _
  obtain ⟨hok, -⟩ := hall c hc
  simp only [Sql.transaction]
  split
  · next a c' he =>
    rw [he] at hok
    exact ⟨hok, fun h => absurd h (by simp)⟩
  · exact ⟨fun a h => absurd h (by simp), fun _ => hc⟩

/-- What an invariant says of the store at the end, however the program ended. -/
theorem Keeps.store {x : Sql σ α} (hx : Keeps I x) (c : Conn σ) (hc : I c.store) :
    I (x c).2.store := by
  obtain ⟨hok, hcut⟩ := hx c hc
  cases h : (x c).1 with
  | none => exact hcut h
  | some a => exact hok a h

end Sql

end Statements
