import RecordStore.Store.Error
import RecordStore.Store.Request

/-!
# Planned faults

A store in memory can be told to fail: at the n-th call of an operation from now on, by leaving entries of a batch
undone, or by looking at fewer items in a read than it is asked to. `Faults` holds what was planned, and which calls
there have been.
-/

namespace RecordStore

/-- A failure to come: once `callsAway` more calls of its operation have been made. -/
structure ComingFailure where
  operation : Operation
  callsAway : Nat
  code : ErrorCode
deriving DecidableEq, Repr

namespace ComingFailure

/-- The failure after one more call of an operation. -/
def advance (operation : Operation) (f : ComingFailure) : ComingFailure :=
  if f.operation = operation then { f with callsAway := f.callsAway - 1 } else f

/-- Whether a call of an operation is to fail by it. -/
def isDue (operation : Operation) (f : ComingFailure) : Bool :=
  f.operation = operation && f.callsAway = 0

/-- The error that a failure makes. -/
def error (f : ComingFailure) : StoreError :=
  ⟨f.code, "injected failure on " ++ f.operation.name, none⟩

end ComingFailure

/-- The faults that are planned for a store, and the calls that it has seen. -/
structure Faults where
  /-- The operations called so far, the last one first. -/
  calls : List Operation := []
  /-- The failures to come, in the order in which they were planned. -/
  failures : List ComingFailure := []
  /-- How many entries the next batch of an operation leaves undone. -/
  undone : List (Operation × Nat) := []
  /-- How many items a read looks at, at most. -/
  ceiling : Option Nat := none
deriving DecidableEq, Repr

namespace Faults

/-- How often an operation was called. -/
def timesCalled (faults : Faults) (operation : Operation) : Nat :=
  faults.calls.count operation

/-- Counts a call. Of the failures that are due, the one planned first happens and is gone. -/
def note (faults : Faults) (operation : Operation) : Except StoreError Unit × Faults :=
  let failures := faults.failures.map (·.advance operation)
  let faults := { faults with calls := operation :: faults.calls }
  match failures.find? (·.isDue operation) with
  | some f => (.error f.error, { faults with failures := failures.eraseP (·.isDue operation) })
  | none => (.ok (), { faults with failures })

/-- Plans that the `n`-th call of an operation from now on fails; the first is the next one. -/
def failAt (faults : Faults) (operation : Operation) (n : Nat) (code : ErrorCode) : Faults :=
  { faults with failures := faults.failures ++ [⟨operation, max n 1, code⟩] }

/-- Plans that the next batch of an operation leaves entries undone. -/
def leaveUndone (faults : Faults) (operation : Operation) (count : Nat) : Faults :=
  { faults with undone := (operation, count) :: faults.undone.filter fun entry => entry.1 ≠ operation }

/-- How many entries a batch is to leave undone, which holds for one batch. -/
def takeUndone (faults : Faults) (operation : Operation) : Nat × Faults :=
  ((faults.undone.lookup operation).getD 0,
    { faults with undone := faults.undone.filter fun entry => entry.1 ≠ operation })

/-- How many items a read looks at when it is asked to look at so many. -/
def limit (faults : Faults) (requested : Option Nat) : Option Nat :=
  match requested, faults.ceiling with
  | some a, some b => some (min a b)
  | some a, none => some a
  | none, b => b

end Faults

end RecordStore
