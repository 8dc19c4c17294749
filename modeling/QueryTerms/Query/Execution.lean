import QueryTerms.Error
import QueryTerms.Sql.Database

/-!
# Executions

Running a query sends statements to a database and ends with a result or an error.  Which
statements are sent, and in which order, is part of what a query means; an execution keeps them.

**Executions.** `Execution`, a monad that stops at the first error and remembers what was sent
before it, the failing statement included.

**Sending.** `Execution.send` executes one statement for a leaf.
-/

namespace QueryTerms

/-- A statement as it was sent. -/
structure Statement where
  sql : String
  bound : Table String Bound

/-- The outcome of a run, and the statements sent on the way. -/
structure Execution (α : Type) where
  outcome : Except QueryError α
  statements : List Statement

namespace Execution

variable {α β : Type}

/-- A result for which nothing is sent. -/
def ofExcept (outcome : Except QueryError α) : Execution α := ⟨outcome, []⟩

/-- A failure for which nothing is sent. -/
def fail (cause : QueryError) : Execution α := ⟨.error cause, []⟩

/-- Runs `next` on the result, unless there is none. -/
def andThen (first : Execution α) (next : α → Execution β) : Execution β :=
  match first.outcome with
  | .ok value => ⟨(next value).outcome, first.statements ++ (next value).statements⟩
  | .error cause => ⟨.error cause, first.statements⟩

instance : Monad Execution where
  pure value := ⟨.ok value, []⟩
  bind := andThen

instance : MonadLift (Except QueryError) Execution := ⟨ofExcept⟩

/-- Executes a statement for a leaf. -/
def send (database : Database) (leaf : String) (statement : Statement) : Execution Cursor where
  outcome :=
    match database.execute statement.sql statement.bound with
    | .ok cursor => .ok cursor
    | .error message => .error (.execution leaf message)
  statements := [statement]

/-- A value that is at hand is had without a statement. -/
theorem pure_eq (value : α) : (pure value : Execution α) = ⟨.ok value, []⟩ := rfl

/-- What follows is executed after the first run. -/
theorem bind_eq (first : Execution α) (next : α → Execution β) :
    first >>= next = first.andThen next := rfl

/-- A value that is passed on as it is leaves the run as it is. -/
theorem id_map' (run : Execution α) : id <$> run = run := by
  obtain ⟨outcome, statements⟩ := run
  cases outcome <;> simp [Functor.map, andThen]

/-- A value that is at hand is passed on. -/
theorem pure_bind' (value : α) (next : α → Execution β) : pure value >>= next = next value := by
  simp [pure_eq, bind_eq, andThen]

/-- Only the order of the runs matters, not how they are put together. -/
theorem bind_assoc' {γ : Type} (run : Execution α) (f : α → Execution β) (g : β → Execution γ) :
    run >>= f >>= g = run >>= fun value => f value >>= g := by
  obtain ⟨outcome, statements⟩ := run
  cases outcome with
  | error cause => rfl
  | ok value =>
    simp only [bind_eq, andThen]
    cases (f value).outcome <;> simp [List.append_assoc]

instance : LawfulMonad Execution := LawfulMonad.mk' Execution id_map' pure_bind' bind_assoc'

end Execution

end QueryTerms
