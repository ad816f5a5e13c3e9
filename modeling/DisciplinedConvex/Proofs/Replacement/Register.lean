/-
DisciplinedConvex/Proofs/Replacement/Register.lean

Registers that are alike, and operands in which a constant is exchanged for another.

A literal may be exchanged for one whose value has the same shape and the same sign,
whatever its entries and its storage are; a literal that stands for no value is kept.
Registers that are alike are read with the same faults, and what is read from them is
alike (`Operand.found_agrees`).
-/
import DisciplinedConvex.Session.Register
import DisciplinedConvex.Proofs.Replacement.Expression

namespace DisciplinedConvex

open Build

variable {σ : Sign.Correspondence}

/-! ### Registers -/

/-- Cells of the same kind that hold what is alike. -/
inductive Cell.Alike (σ : Sign.Correspondence) : Cell → Cell → Prop where
  | empty : Alike σ .empty .empty
  | expr {e e' : Expr} (h : e.Alike σ e') : Alike σ (.expr e) (.expr e')
  | constraint {c c' : Constraint} (h : c.Alike σ c') : Alike σ (.constraint c) (.constraint c')
  | problem {p p' : Problem} (h : p.Alike σ p') : Alike σ (.problem p) (.problem p')

namespace Registers

/-- As many registers, and cell by cell alike. -/
structure Alike (σ : Sign.Correspondence) (rs rs' : Registers) : Prop where
  size : rs.size = rs'.size
  cell (i : ℕ) : Option.Rel (Cell.Alike σ) rs[i]? rs'[i]?

theorem alike_empty : Alike σ #[] #[] where
  size := rfl
  cell i := by
    simp only [List.getElem?_toArray, List.getElem?_nil]
    exact .none

variable {rs rs' : Registers}

theorem Alike.push (h : rs.Alike σ rs') {c c' : Cell} (hc : c.Alike σ c') :
    Alike σ (rs.push c) (rs'.push c') where
  size := by rw [Array.size_push, Array.size_push, h.size]
  cell i := by
    rw [Array.getElem?_push, Array.getElem?_push, ← h.size]
    split
    · exact .some hc
    · exact h.cell i

theorem Alike.clear (h : rs.Alike σ rs') (i : ℕ) :
    Agree (Alike σ) (rs.clear i) (rs'.clear i) := by
  unfold Registers.clear
  rw [← h.size]
  split
  · refine .ok ⟨by rw [Array.size_setIfInBounds, Array.size_setIfInBounds, h.size], fun j => ?_⟩
    rw [Array.getElem?_setIfInBounds, Array.getElem?_setIfInBounds, ← h.size]
    split
    · exact .some .empty
    · exact h.cell j
  · exact .error _

/-- A register is read with the same fault, or with results that are alike. -/
theorem Alike.reads (h : rs.Alike σ rs') (i : ℕ) :
    Agree (Expr.Alike σ) (rs.expr i) (rs'.expr i) ∧
      Agree (Constraint.Alike σ) (rs.constraint i) (rs'.constraint i) ∧
      Agree (Problem.Alike σ) (rs.problem i) (rs'.problem i) := by
  have hi := h.cell i
  unfold Registers.expr Registers.constraint Registers.problem
  generalize rs[i]? = x, rs'[i]? = y at hi
  cases hi with
  | none => exact ⟨.error _, .error _, .error _⟩
  | some hc =>
    cases hc with
    | empty => exact ⟨.error _, .error _, .error _⟩
    | expr he => exact ⟨.ok he, .error _, .error _⟩
    | constraint hc => exact ⟨.error _, .ok hc, .error _⟩
    | problem hp => exact ⟨.error _, .error _, .ok hp⟩

/-- The parts of what a register holds, none if there is no such register. -/
def parts : Option Cell → List Expr
  | some (.expr e) => e.children
  | some (.constraint c) => [c.lhs, c.rhs, c.residual]
  | some (.problem p) => p.expressions
  | some .empty | none => []

theorem Alike.parts (h : rs.Alike σ rs') (i : ℕ) :
    List.Forall₂ (Expr.Alike σ) (Registers.parts rs[i]?) (Registers.parts rs'[i]?) := by
  have hi := h.cell i
  generalize rs[i]? = x, rs'[i]? = y at hi
  cases hi with
  | none => exact .nil
  | some hc =>
    cases hc with
    | empty => exact .nil
    | expr he => exact he.children
    | constraint hc => exact .cons hc.lhs (.cons hc.rhs (.cons hc.residual .nil))
    | problem hp => exact hp.expressions

theorem part_eq (rs : Registers) (i n : ℕ) :
    rs.part i n =
      match (parts rs[i]?)[n]? with
      | some e => .ok e
      | none => .error .badReference := by
  unfold part parts
  rfl

theorem Alike.part (h : rs.Alike σ rs') (i n : ℕ) :
    Agree (Expr.Alike σ) (rs.part i n) (rs'.part i n) := by
  have hn := forall₂_getElem? (h.parts i) n
  rw [part_eq, part_eq]
  generalize (Registers.parts rs[i]?)[n]? = x, (Registers.parts rs'[i]?)[n]? = y at hn
  cases hn with
  | none => exact .error _
  | some he => exact .ok he

end Registers

/-! ### Operands -/

/-- A literal for another whose value is alike. -/
inductive Literal.Exchanges : Literal → Literal → Prop where
  | same (l : Literal) : Exchanges l l
  | alike {l m : Literal} {v w : Value} (hl : l.value = .ok v) (hm : m.value = .ok w)
      (h : v.Alike w) : Exchanges l m

/-- The same register, or a literal for another. -/
inductive Operand.Exchanges : Operand → Operand → Prop where
  | register (i : ℕ) : Exchanges (.register i) (.register i)
  | literal {l m : Literal} (h : l.Exchanges m) : Exchanges (.literal l) (.literal m)

theorem Operand.Exchanges.refl (a : Operand) : a.Exchanges a := by
  cases a with
  | register i => exact .register i
  | literal l => exact .literal (.same l)

/-- The values agree, also where there are none. -/
theorem Literal.Exchanges.value {l m : Literal} (h : l.Exchanges m) :
    Agree Value.Alike l.value m.value := by
  cases h with
  | same =>
    refine (Agree.of_eq rfl).mono ?_
    rintro v _ rfl
    exact .refl v
  | alike hl hm h =>
    rw [hl, hm]
    exact .ok h

/-- Operands that are complete and alike. -/
inductive Ready.Alike (σ : Sign.Correspondence) : Ready → Ready → Prop where
  | expr {e e' : Expr} (h : e.Alike σ e') : Alike σ (.expr e) (.expr e')
  | value {v w : Value} (h : v.Alike w) : Alike σ (.value v) (.value w)

/-- Operands that were read and are alike as soon as they are complete. -/
def Found.Alike (σ : Sign.Correspondence) (f g : Found) : Prop :=
  Agree (Ready.Alike σ) f.ready g.ready

/-- A literal that has a value is read, and this is the value when it is complete. -/
theorem Literal.found_of_value {l : Literal} {v : Value} (h : l.value = .ok v) :
    ∃ f : Found, (∀ rs, (Operand.literal l).found rs = .ok f) ∧ f.ready = .ok (.value v) := by
  have hread : l.value.map Found.value = .ok (.value v) := by rw [h]; rfl
  cases l with
  | dense rows cols entries =>
    have hready : (Literal.dense rows cols entries).value.map Ready.value = .ok (.value v) := by
      rw [h]; rfl
    exact ⟨.dense rows cols entries, fun _ => rfl, hready⟩
  | scalar x => exact ⟨.value v, fun _ => hread, rfl⟩
  | sparse rows cols ts => exact ⟨.value v, fun _ => hread, rfl⟩
  | array l => exact ⟨.value v, fun _ => hread, rfl⟩

/-- A literal is read in any registers in the same way. -/
theorem Literal.found_alike (l : Literal) (rs rs' : Registers) :
    Agree (Found.Alike σ) ((Operand.literal l).found rs) ((Operand.literal l).found rs') := by
  have hvalue : Agree Value.Alike l.value l.value := (Literal.Exchanges.same l).value
  have hmap : Agree (Found.Alike σ) (l.value.map .value) (l.value.map .value) :=
    hvalue.map fun v w h => .ok (.value h)
  -- a dense literal is read at once, and its value is formed on completion
  cases l with
  | dense rows cols entries => exact .ok (hvalue.map fun v w h => .value h)
  | scalar x => exact hmap
  | sparse rows cols ts => exact hmap
  | array l => exact hmap

theorem Operand.found_agrees {rs rs' : Registers} (hrs : rs.Alike σ rs') {a a' : Operand}
    (h : a.Exchanges a') : Agree (Found.Alike σ) (a.found rs) (a'.found rs') := by
  cases h with
  | register i => exact (hrs.reads i).1.map fun e e' he => .ok (.expr he)
  | @literal l m h =>
    cases h with
    | same => exact l.found_alike rs rs'
    | alike hl hm h =>
      obtain ⟨f, hf, hready⟩ := Literal.found_of_value hl
      obtain ⟨g, hg, hready'⟩ := Literal.found_of_value hm
      rw [hf, hg]
      refine .ok ?_
      rw [Found.Alike, hready, hready']
      exact .ok (.value h)

theorem Ready.Alike.cast {r r' : Ready} (h : r.Alike σ r') :
    r.cast.Agrees (Expr.Alike σ) r'.cast := by
  cases h with
  | expr h => exact agrees_pure h
  | value h => exact (constant_agrees h).insist

end DisciplinedConvex
