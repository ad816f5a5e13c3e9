/-
DisciplinedConvex/Proofs/Graph/Buildable.lean

What sessions can build.

An expression is buildable if some session, after any steps whatever, hands it
out: as the answer to a step, as a side or the residual of a constraint, as an
expression of a problem, or as an entry of a pass.  Steps that fail are steps
like any other.  Each step keeps the registers well-formed (`step_wellFormed`),
so does every run (`run_wellFormed`), and so everything buildable is well-formed
(`Buildable.wellFormed`).
-/
import DisciplinedConvex.Session
import DisciplinedConvex.Proofs.Graph.WellFormed

namespace DisciplinedConvex

/-! ### What a session hands out -/

/-- The expressions that a reply hands out. -/
def Reply.exprs : Reply → List Expr
  | expr e => [e]
  | constraint c => [c.lhs, c.rhs, c.residual]
  | problem p _ => p.expressions
  | entries r => r.head ++ r.copy ++ r.rest
  | number _ | nothing => []

/-- Some session hands out the expression. -/
def Expr.Buildable (e : Expr) : Prop :=
  ∃ first steps r, .ok r ∈ ((Session.startingAt first).run steps).1 ∧ e ∈ r.exprs

/-- What a session answers with is buildable. -/
theorem Expr.Buildable.of_answer (first : ℕ) (steps : List Step) (n : ℕ) {e : Expr}
    (h : ((Session.startingAt first).run steps).1[n]? = some (.ok (.expr e))) : e.Buildable :=
  ⟨first, steps, _, List.mem_of_getElem? h, List.mem_singleton_self _⟩

theorem Shape.zero_lt_two : (0 : UInt64) < 2 := by decide

/-- Two rows and one column. -/
def Shape.pair : Shape where
  rows := 2
  cols := 1
  rows_pos := zero_lt_two
  cols_pos := scalar.cols_pos

/-- A column of two entries that are declared to be at least zero. -/
def Expr.column : Expr :=
  .var ⟨0, .affine, .nonneg, .pair⟩ { shape := .pair, bound := some .nonneg }

/-- The column taken `-2` times. -/
def Expr.scaledColumn : Expr :=
  .mul ⟨2, .affine, .nonpos, .pair⟩
    (.const ⟨1, .constant, .nonpos, .scalar⟩ (.scalar (-2.0))) column

theorem Expr.column_buildable : column.Buildable :=
  .of_answer 0 [.declare 2 1 none [.nonneg]] 0 rfl

/-- Two steps build the scaled column, numbers from zero on. -/
theorem Expr.scaledColumn_buildable : scaledColumn.Buildable := by
  let steps : List Step := [
    .declare 2 1 none [.nonneg],
    .operate .product (.literal (.scalar (-2.0))) (.register 0) true]
  exact .of_answer 0 steps 1 rfl

/-- Some session builds the constraint. -/
def Constraint.Buildable (c : Constraint) : Prop :=
  ∃ first steps, .ok (.constraint c) ∈ ((Session.startingAt first).run steps).1

/-- Some session poses the problem. -/
def Problem.Buildable (p : Problem) : Prop :=
  ∃ first steps v, .ok (.problem p v) ∈ ((Session.startingAt first).run steps).1

/-- The scaled column is to be made large, and the column stays at least at zero. -/
def Problem.scaledColumn : Problem where
  objective := { sense := .maximize, expr := Expr.scaledColumn }
  constraints :=
    let zero : Expr := .const ⟨3, .constant, .zero, .scalar⟩ (.scalar 0.0)
    [{ kind := .inequality
       lhs := zero
       rhs := Expr.column
       residual :=
        .add ⟨5, .affine, .nonpos, .pair⟩ zero
          (.neg ⟨4, .affine, .nonpos, .pair⟩ Expr.column) }]

theorem Problem.scaledColumn_buildable : scaledColumn.Buildable := by
  let steps : List Step := [
    .declare 2 1 none [.nonneg],
    .operate .product (.literal (.scalar (-2.0))) (.register 0) true,
    .compare .atLeast (.register 0) (.literal (.scalar 0.0)),
    .pose .maximize (.register 1) [2]]
  have hanswer : ((Session.startingAt 0).run steps).1[3]? =
      some (.ok (.problem scaledColumn (.ok ()))) := rfl
  exact ⟨0, steps, _, List.mem_of_getElem? hanswer⟩

/-! ### Well-formed registers -/

/-- What a reply hands out is well-formed. -/
def Reply.WellFormed : Reply → Prop
  | expr e => e.WellFormed
  | constraint c => c.WellFormed
  | problem p _ => p.WellFormed
  | entries r => ∀ e ∈ r.head ++ r.copy ++ r.rest, e.WellFormed
  | number _ | nothing => True

/-- What a register holds is well-formed. -/
def Cell.WellFormed : Cell → Prop
  | empty => True
  | expr e => e.WellFormed
  | constraint c => c.WellFormed
  | problem p => p.WellFormed

theorem Reply.WellFormed.cell {r : Reply} (hr : r.WellFormed) : r.cell.WellFormed := by
  cases r <;> first | exact hr | trivial

theorem Reply.WellFormed.exprs {r : Reply} (hr : r.WellFormed) {e : Expr} (he : e ∈ r.exprs) :
    e.WellFormed := by
  cases r with
  | expr a => rwa [List.mem_singleton.1 he]
  | constraint c =>
    simp only [Reply.exprs, List.mem_cons, List.not_mem_nil, or_false] at he
    rcases he with rfl | rfl | rfl
    · exact Constraint.WellFormed.lhs hr
    · exact Constraint.WellFormed.rhs hr
    · exact Constraint.WellFormed.residual hr
  | problem p v => exact Problem.WellFormed.expressions hr he
  | entries r => exact hr e he
  | number n => cases he
  | nothing => cases he

namespace Registers

/-- Every register is well-formed. -/
def WellFormed (rs : Registers) : Prop := ∀ (i : ℕ) (c : Cell), rs[i]? = some c → c.WellFormed

theorem wellFormed_empty : WellFormed #[] := by
  intro i c hc
  simp at hc

variable {rs : Registers}

theorem WellFormed.push (h : rs.WellFormed) {c : Cell} (hc : c.WellFormed) :
    WellFormed (rs.push c) := by
  intro i d hd
  rw [Array.getElem?_push] at hd
  split at hd
  · cases hd
    exact hc
  · exact h i d hd

theorem WellFormed.clear (h : rs.WellFormed) {i : ℕ} {rs' : Registers}
    (hc : rs.clear i = .ok rs') : rs'.WellFormed := by
  unfold Registers.clear at hc
  split at hc
  · cases hc
    intro j d hd
    rw [Array.getElem?_setIfInBounds] at hd
    split at hd
    · cases hd
      trivial
    · exact h j d hd
  · cases hc

theorem WellFormed.expr (h : rs.WellFormed) {i : ℕ} {e : Expr} (he : rs.expr i = .ok e) :
    e.WellFormed := by
  unfold Registers.expr at he
  split at he
  · rename_i a ha
    cases he
    exact h i _ ha
  · cases he

theorem WellFormed.constraint (h : rs.WellFormed) {i : ℕ} {c : Constraint}
    (hc : rs.constraint i = .ok c) : c.WellFormed := by
  unfold Registers.constraint at hc
  split at hc
  · rename_i a ha
    cases hc
    exact h i _ ha
  · cases hc

theorem WellFormed.problem (h : rs.WellFormed) {i : ℕ} {p : Problem}
    (hp : rs.problem i = .ok p) : p.WellFormed := by
  unfold Registers.problem at hp
  split at hp
  · rename_i a ha
    cases hp
    exact h i _ ha
  · cases hp

theorem WellFormed.constraints (h : rs.WellFormed) {is : List ℕ} {cs : List Constraint}
    (hcs : is.mapM rs.constraint = .ok cs) : ∀ c ∈ cs, c.WellFormed := by
  induction is generalizing cs with
  | nil =>
    cases hcs
    simp
  | cons i is ih =>
    rw [List.mapM_cons] at hcs
    rcases hc : rs.constraint i with f | c
    · rw [hc] at hcs
      cases hcs
    rcases hrest : is.mapM rs.constraint with f | rest
    · rw [hc, hrest] at hcs
      cases hcs
    rw [hc, hrest] at hcs
    cases hcs
    simpa using ⟨h.constraint hc, ih hrest⟩

/-- Parts of what a register holds. -/
theorem WellFormed.part (h : rs.WellFormed) {i n : ℕ} {e : Expr} (he : rs.part i n = .ok e) :
    e.WellFormed := by
  unfold Registers.part at he
  dsimp only at he
  split at he
  · rename_i a ha
    cases he
    have hmem := List.mem_of_getElem? ha
    split at hmem
    · rename_i hr
      exact Expr.WellFormed.child (h i _ hr) hmem
    · rename_i hr
      exact Reply.WellFormed.exprs (r := .constraint _) (h i _ hr) hmem
    · rename_i hr
      exact Problem.WellFormed.expressions (h i _ hr) hmem
    · cases hmem
    · cases hmem
  · cases he

end Registers

/-! ### Steps -/

open Build

theorem yields_lookUp {α : Type} (x : Except Fault α) :
    (Step.lookUp x).Yields fun a => x = .ok a := by
  intro l a l' hl
  cases x with
  | error f => cases hl
  | ok b => cases hl; rfl

/-- An operand that was read holds a well-formed expression or a value. -/
def Found.WellFormed : Found → Prop
  | expr e => e.WellFormed
  | value _ | dense .. => True

/-- A complete operand holds a well-formed expression or a value. -/
def Ready.WellFormed : Ready → Prop
  | expr e => e.WellFormed
  | value _ => True

variable {rs : Registers}

theorem Operand.found_wellFormed (h : rs.WellFormed) {a : Operand} {f : Found}
    (hf : a.found rs = .ok f) : f.WellFormed := by
  unfold Operand.found at hf
  split at hf
  · rename_i i
    rcases he : rs.expr i with _ | e
    · rw [he] at hf
      cases hf
    · rw [he] at hf
      cases hf
      exact h.expr he
  · cases hf
    trivial
  · rename_i l _
    rcases hv : l.value with _ | v
    · rw [hv] at hf
      cases hf
    · rw [hv] at hf
      cases hf
      trivial

theorem Found.WellFormed.ready {f : Found} (hf : f.WellFormed) {r : Ready}
    (hr : f.ready = .ok r) : r.WellFormed := by
  cases f with
  | expr e => cases hr; exact hf
  | value v => cases hr; trivial
  | dense rows cols entries =>
    rcases hv : (Literal.dense rows cols entries).value with _ | v
    · rw [Found.ready, hv] at hr
      cases hr
    · rw [Found.ready, hv] at hr
      cases hr
      trivial

theorem Ready.WellFormed.cast {r : Ready} (hr : r.WellFormed) :
    r.cast.Yields Expr.WellFormed := by
  cases r with
  | expr e => exact yields_pure hr
  | value v => exact (constant_wellFormed v).insist

namespace Step

/-- An operand is read and completed before it is cast. -/
theorem yields_operand (h : rs.WellFormed) (a : Operand) {α : Type} {q : α → Prop}
    {f : Found → Build α} (hf : ∀ a : Found, a.WellFormed → (f a).Yields q) :
    (lookUp (a.found rs) >>= f).Yields q :=
  (yields_lookUp _).bind fun c hc => hf c (Operand.found_wellFormed h hc)

theorem yields_ready {f : Found} (hf : f.WellFormed) {α : Type} {q : α → Prop}
    {g : Ready → Build α} (hg : ∀ r : Ready, r.WellFormed → (g r).Yields q) :
    (lookUp f.ready >>= g).Yields q :=
  (yields_lookUp _).bind fun r hr => hg r (hf.ready hr)

theorem inForm_yields {α : Type} {q : α → Prop} (isChecked : Bool) {b : Build α}
    (hb : b.Yields q) : (inForm isChecked b).Yields q := by
  unfold inForm
  split
  · exact hb
  · exact hb.insist

theorem iterate_wellFormed {f : Expr → Build Expr}
    (hf : ∀ e, e.WellFormed → (f e).Yields Expr.WellFormed) (n : ℕ) {e : Expr}
    (he : e.WellFormed) : (iterate n f e).Yields Expr.WellFormed := by
  induction n generalizing e with
  | zero => exact yields_pure he
  | succ n ih => exact (hf e he).bind fun a ha => ih ha

theorem link_wellFormed (h : rs.WellFormed) (l : Link) {e : Expr} (he : e.WellFormed) :
    (link rs l e).Yields Expr.WellFormed := by
  cases l with
  | operate op b =>
    refine yields_operand h b fun b hb => yields_ready hb fun b hb => ?_
    exact hb.cast.bind fun b hb => operation_wellFormed op he hb
  | negate => exact negation_wellFormed he
  | transpose => exact (transposed_wellFormed he).mono fun _ ht => ht.1
  | index key => exact indexed_wellFormed he key
  | double => exact sum_wellFormed he he

theorem passes_wellFormed {e : Expr} (he : e.WellFormed) (n : ℕ) :
    (passes e n).Yields fun r => ∀ e ∈ r.head ++ r.copy ++ r.rest, e.WellFormed := by
  refine (Entries.take_wellFormed n (Entries.ofExpr_wellFormed he)).bind fun head hhead => ?_
  refine (Entries.take_wellFormed _ hhead.2).bind fun copy hcopy => ?_
  refine (Entries.take_wellFormed _ hhead.2).bind fun rest hrest => ?_
  refine yields_pure fun a ha => ?_
  rcases List.mem_append.1 ha with ha | ha
  · rcases List.mem_append.1 ha with ha | ha
    · exact hhead.1 a ha
    · exact hcopy.1 a ha
  · exact hrest.1 a ha

/-- A builder of expressions answers with a well-formed expression. -/
theorem reply_wellFormed {b : Build Expr} (hb : b.Yields Expr.WellFormed) :
    (do return Reply.expr (← b) : Build Reply).Yields Reply.WellFormed :=
  hb.bind fun _ he => yields_pure he

/-- Every step builds from well-formed registers what is well-formed. -/
theorem build_wellFormed (h : rs.WellFormed) (st : Step) :
    (st.build rs).Yields Reply.WellFormed := by
  cases st with
  | declare rows cols name bounds =>
    exact reply_wellFormed (newVariable_wellFormed rows cols name bounds).insist
  | constant l isChecked =>
    refine (yields_lookUp _).bind fun v _ => ?_
    exact reply_wellFormed (inForm_yields isChecked (constant_wellFormed v))
  | filled rows cols x => exact reply_wellFormed (filled_wellFormed rows cols x).insist
  | identity n => exact reply_wellFormed (identity_wellFormed n).insist
  | cast a =>
    refine yields_operand h a fun a ha => yields_ready ha fun a ha => ?_
    exact reply_wellFormed ha.cast
  | operate op a b isChecked =>
    refine yields_operand h a fun a ha => yields_operand h b fun b hb => ?_
    refine yields_ready ha fun a ha => yields_ready hb fun b hb => ?_
    refine ha.cast.bind fun x hx => hb.cast.bind fun y hy => ?_
    exact reply_wellFormed (inForm_yields isChecked (operation_wellFormed op hx hy))
  | negate a =>
    refine (yields_lookUp _).bind fun e he => ?_
    exact reply_wellFormed (negation_wellFormed (h.expr he))
  | transpose a =>
    refine (yields_lookUp _).bind fun e he => ?_
    exact reply_wellFormed ((transposed_wellFormed (h.expr he)).mono fun _ ht => ht.1)
  | index a key =>
    refine (yields_lookUp _).bind fun e he => ?_
    exact reply_wellFormed (indexed_wellFormed (h.expr he) key)
  | entry a n =>
    refine (yields_lookUp _).bind fun e he => ?_
    have hp := Entries.ofExpr_wellFormed (h.expr he)
    refine (Entries.nth?_wellFormed n hp).bind fun r hr => ?_
    cases r with
    | some a => exact yields_pure (hr a rfl)
    | none => exact yields_pure trivial
  | chain a l n =>
    refine (yields_lookUp _).bind fun e he => ?_
    exact reply_wellFormed (iterate_wellFormed (fun _ ha => link_wellFormed h l ha) n (h.expr he))
  | part a n =>
    refine (yields_lookUp _).bind fun e he => ?_
    exact yields_pure (h.part he)
  | asMinimization a =>
    refine (yields_lookUp _).bind fun p hp => ?_
    exact reply_wellFormed (asMinimization_wellFormed (h.problem hp).objective)
  | compare c a b =>
    refine yields_operand h a fun a ha => yields_operand h b fun b hb => ?_
    refine yields_ready ha fun a ha => yields_ready hb fun b hb => ?_
    have hsides : (c.sides a b).1.WellFormed ∧ (c.sides a b).2.WellFormed := by
      cases c
      · exact ⟨ha, hb⟩
      · exact ⟨ha, hb⟩
      · exact ⟨hb, ha⟩
    refine hsides.1.cast.bind fun lhs hlhs => hsides.2.cast.bind fun rhs hrhs => ?_
    exact (constraint_wellFormed c.kind hlhs hrhs).bind fun _ hc => yields_pure hc
  | pose sense a constraints =>
    refine yields_operand h a fun a ha => (yields_lookUp _).bind fun cs hcs => ?_
    refine yields_ready ha fun a ha => ha.cast.bind fun e he => ?_
    exact (yields_report _).bind fun _ _ => yields_pure ⟨he, h.constraints hcs⟩
  | entries a n =>
    refine (yields_lookUp _).bind fun e he => ?_
    exact (passes_wellFormed (h.expr he) n).bind fun _ hr => yields_pure hr
  | freshId => exact yields_freshId.bind fun _ _ => yields_pure trivial
  | drop a => exact yields_pure trivial
  | idle => exact yields_pure trivial

end Step

/-! ### Runs -/

namespace Session

/-- A step that fails empties its own register only; any other one fills it with what it built. -/
theorem step_wellFormed {s : Session} (h : s.registers.WellFormed) (st : Step) :
    (s.step st).2.registers.WellFormed ∧ ∀ r, (s.step st).1 = .ok r → r.WellFormed := by
  unfold step
  split
  · exact ⟨h.push trivial, by simp⟩
  rename_i rs hrs
  have hcleared : rs.WellFormed := by
    cases st <;> first | exact h.clear hrs | (cases hrs; exact h)
  split
  · rename_i r l hr
    have hwf := Step.build_wellFormed hcleared st _ _ _ hr
    refine ⟨hcleared.push hwf.cell, fun r' hr' => ?_⟩
    cases hr'
    exact hwf
  · exact ⟨hcleared.push trivial, by simp⟩

/-- Every answer of a run that starts well-formed is well-formed, and so are the registers left. -/
theorem run_wellFormed {s : Session} (h : s.registers.WellFormed) (steps : List Step) :
    (s.run steps).2.registers.WellFormed ∧ ∀ r, .ok r ∈ (s.run steps).1 → r.WellFormed := by
  -- on the steps, for every session to start from: the registers after a step are well-formed again
  induction steps generalizing s with
  | nil => exact ⟨h, by simp [run]⟩
  | cons st steps ih =>
    have hst := step_wellFormed h st
    have hrest := ih hst.1
    refine ⟨hrest.1, fun r hr => ?_⟩
    rcases List.mem_cons.1 hr with hr | hr
    · exact hst.2 r hr.symm
    · exact hrest.2 r hr

theorem answers_wellFormed {first : ℕ} {steps : List Step} {r : Reply}
    (hr : .ok r ∈ ((startingAt first).run steps).1) : r.WellFormed :=
  (run_wellFormed (s := startingAt first) Registers.wellFormed_empty steps).2 r hr

end Session

theorem Expr.Buildable.wellFormed {e : Expr} (he : e.Buildable) : e.WellFormed := by
  obtain ⟨first, steps, r, hr, hmem⟩ := he
  exact (Session.answers_wellFormed hr).exprs hmem

theorem Constraint.Buildable.wellFormed {c : Constraint} (hc : c.Buildable) : c.WellFormed := by
  obtain ⟨first, steps, hr⟩ := hc
  exact Session.answers_wellFormed hr

theorem Problem.Buildable.wellFormed {p : Problem} (hp : p.Buildable) : p.WellFormed := by
  obtain ⟨first, steps, v, hr⟩ := hp
  exact Session.answers_wellFormed hr

end DisciplinedConvex
