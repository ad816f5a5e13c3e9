/-
DisciplinedConvex/Ledger.lean

The ledger of a run: the number that the next node gets, and everything that
was reported so far.

Numbers and reports are never taken back.  A build that fails keeps those it
has spent (`Build` hands on the ledger together with the fault), so the ledger
accounts for every node, whether or not anything still refers to it.
-/
import DisciplinedConvex.Problem

namespace DisciplinedConvex

/-! ### Events -/

/-- Something worth reporting. -/
inductive Event where
  /-- A node was built. -/
  | built (node : Expr)
  /-- A product is built with its factors exchanged, so that the constant one stands on the left. -/
  | factorMoved (lhs rhs : Shape)
  /-- The divisor of a quotient is zero. -/
  | zeroDivisor (divisor : Expr)
  /-- A constraint was built. -/
  | constrained (constraint : Constraint)
  /-- The verdict on a problem with so many constraints is asked for. -/
  | checked (constraints : Nat)

/-- How loud an event is reported. -/
inductive Level where
  | trace
  | debug
  | warn
deriving DecidableEq, Repr

def Level.label : Level → String
  | trace => "TRACE"
  | debug => "DEBUG"
  | warn => "WARN"

/-- What a field of a report holds. -/
inductive Field where
  | number (n : Nat)
  | text (s : String)
deriving DecidableEq, Repr

namespace Event

def level : Event → Level
  | built _ => .trace
  | factorMoved .. | constrained _ | checked _ => .debug
  | zeroDivisor _ => .warn

def message : Event → String
  | built _ => "built expression node"
  | factorMoved .. => "moving constant factor to the left"
  | zeroDivisor _ => "dividing by a zero constant"
  | constrained _ => "built constraint"
  | checked _ => "checking problem for DCP compliance"

/-- The fields of the report of an event. -/
def fields : Event → List (String × Field)
  | built e =>
    [("id", .number e.id), ("kind", .text e.kind), ("shape", .text e.shape.text),
      ("curvature", .text e.curvature.label), ("sign", .text e.sign.label)]
  | factorMoved lhs rhs => [("lhs", .text lhs.text), ("rhs", .text rhs.text)]
  | zeroDivisor e => [("divisor", .text e.text)]
  | constrained c =>
    [("kind", .text c.kind.inspect), ("lhs", .text c.lhs.text), ("rhs", .text c.rhs.text),
      ("shape", .text c.shape.text)]
  | checked n => [("constraints", .number n)]

/-- The node that an event reports as built. -/
def node? : Event → Option Expr
  | built e => some e
  | _ => none

end Event

/-! ### The ledger -/

/-- The next number and the events so far, the oldest first. -/
structure Ledger where
  next : Nat
  events : Array Event

namespace Ledger

/-- A ledger without events whose first number is `first`. -/
def startingAt (first : Nat) : Ledger where
  next := first
  events := #[]

instance : Inhabited Ledger := ⟨startingAt 0⟩

/-- Adds an event. -/
def report (l : Ledger) (e : Event) : Ledger :=
  { l with events := l.events.push e }

/-- Spends a number.  The next one is always larger; a counter of 64 bits is followed up to its last
number. -/
def spend (l : Ledger) : Ledger :=
  { l with next := l.next + 1 }

/-- The node with the next number, and the ledger in which it is accounted for. -/
def enter (l : Ledger) (attributes : Attributes) (make : Label → Expr) : Expr × Ledger :=
  let e := make { id := l.next, attributes }
  (e, l.spend.report (.built e))

@[simp] theorem events_report (l : Ledger) (e : Event) :
    (l.report e).events.toList = l.events.toList ++ [e] := by
  simp [report]

@[simp] theorem events_spend (l : Ledger) : l.spend.events = l.events := rfl

end Ledger

/-! ### Builds -/

/-- A computation that keeps a ledger and may fail. -/
abbrev Build := ExceptT Fault (StateM Ledger)

namespace Build

/-- The result of a build and the ledger after it. -/
def perform {α : Type} (b : Build α) (l : Ledger) : Except Fault α × Ledger := b.run.run l

/-- Reports an event. -/
def report (e : Event) : Build Unit := modify (·.report e)

/-- Builds a node: spends a number for it and reports it. -/
def node (attributes : Attributes) (make : Label → Expr) : Build Expr :=
  modifyGet (·.enter attributes make)

/-- Takes over a check. -/
def check {α : Type} (x : Except Error α) : Build α :=
  MonadExcept.ofExcept (x.mapError Fault.rejected)

/-- Takes over a computation that may stop. -/
def attempt {α : Type} (x : Except Abort α) : Build α :=
  MonadExcept.ofExcept (x.mapError Fault.aborted)

/-- Stops where the build is refused. -/
def insist {α : Type} (b : Build α) : Build α :=
  tryCatch b fun f => throw f.insist

/-- Spends a number on nothing. -/
def freshId : Build Nat := modifyGet fun l => (l.next, l.spend)

/-! ### What is left of the ledger -/

variable {α β : Type}

@[simp] theorem perform_pure (a : α) (l : Ledger) : (pure a : Build α).perform l = (.ok a, l) := rfl

@[simp] theorem perform_throw (f : Fault) (l : Ledger) :
    (throw f : Build α).perform l = (.error f, l) := rfl

/-- A fault ends the build, and the ledger stays as it was then. -/
theorem perform_bind (b : Build α) (f : α → Build β) (l : Ledger) :
    (b >>= f).perform l =
      match b.perform l with
      | (.ok a, l') => (f a).perform l'
      | (.error e, l') => (.error e, l') := by
  have hstep : (b >>= f).perform l = (ExceptT.bindCont f (b.perform l).1) (b.perform l).2 := rfl
  rw [hstep]
  rcases b.perform l with ⟨_ | _, _⟩ <;> rfl

@[simp] theorem perform_report (e : Event) (l : Ledger) :
    (report e).perform l = (.ok (), l.report e) := rfl

@[simp] theorem perform_node (a : Attributes) (make : Label → Expr) (l : Ledger) :
    (node a make).perform l =
      (.ok (make ⟨l.next, a⟩), l.spend.report (.built (make ⟨l.next, a⟩))) :=
  rfl

@[simp] theorem perform_freshId (l : Ledger) : freshId.perform l = (.ok l.next, l.spend) := rfl

@[simp] theorem perform_check (x : Except Error α) (l : Ledger) :
    (check x).perform l = (x.mapError .rejected, l) := by
  cases x <;> rfl

@[simp] theorem perform_attempt (x : Except Abort α) (l : Ledger) :
    (attempt x).perform l = (x.mapError .aborted, l) := by
  cases x <;> rfl

/-- Insisting changes the fault and nothing else. -/
theorem perform_insist (b : Build α) (l : Ledger) :
    b.insist.perform l = ((b.perform l).1.mapError Fault.insist, (b.perform l).2) := by
  rcases h : b.perform l with ⟨f | a, l'⟩
  · have hb : b l = (.error f, l') := h
    simp only [perform, insist, tryCatch, tryCatchThe, MonadExceptOf.tryCatch, ExceptT.tryCatch,
      ExceptT.run, ExceptT.mk, bind, StateT.bind, StateT.run, hb]
    rfl
  · have hb : b l = (.ok a, l') := h
    simp only [perform, insist, tryCatch, tryCatchThe, MonadExceptOf.tryCatch, ExceptT.tryCatch,
      ExceptT.run, ExceptT.mk, bind, StateT.bind, StateT.run, hb]
    rfl

end Build

end DisciplinedConvex
