/-
DisciplinedConvex/Session.lean

Sessions: a list of steps, one register for each.

Every step adds a register, an empty one if it fails or builds nothing, and the
ledger goes from step to step.
-/
import DisciplinedConvex.Session.Step

namespace DisciplinedConvex

/-- The ledger and the registers after some steps. -/
structure Session where
  ledger : Ledger
  registers : Registers

namespace Session

/-- A session without steps whose first number is `first`. -/
def startingAt (first : Nat) : Session where
  ledger := .startingAt first
  registers := #[]

/-- What a step does to the registers that are there before it. -/
def cleared (rs : Registers) : Step → Except Fault Registers
  | .drop a => rs.clear a
  | _ => .ok rs

/-- Takes a step. -/
def step (s : Session) (st : Step) : Except Fault Reply × Session :=
  match cleared s.registers st with
  | .error f => (.error f, { s with registers := s.registers.push .empty })
  | .ok rs =>
    match (st.build rs).perform s.ledger with
    | (.ok r, ledger) => (.ok r, { ledger, registers := rs.push r.cell })
    | (.error f, ledger) => (.error f, { ledger, registers := rs.push .empty })

/-- Takes steps one after the other; a step that fails does not end the session. -/
def run (s : Session) : List Step → List (Except Fault Reply) × Session
  | [] => ([], s)
  | st :: steps =>
    let (r, s) := s.step st
    let (rs, s) := run s steps
    (r :: rs, s)

/-- The events after the first `n`. -/
def eventsSince (s : Session) (n : Nat) : List Event :=
  (s.ledger.events.extract n s.ledger.events.size).toList

theorem run_append (s : Session) (xs ys : List Step) :
    s.run (xs ++ ys) =
      ((s.run xs).1 ++ ((s.run xs).2.run ys).1, ((s.run xs).2.run ys).2) := by
  induction xs generalizing s with
  | nil => rfl
  | cons st xs ih => simp [run, ih]

end Session

end DisciplinedConvex
