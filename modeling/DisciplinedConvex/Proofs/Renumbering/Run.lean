/-
DisciplinedConvex/Proofs/Renumbering/Run.lean

A session does not depend on the number it starts from.

Registers are read with the same faults and operands are cast to the same expressions,
with raised numbers; so a step on raised registers does what it does on the registers,
and gives the same answer with raised numbers (`Session.step_shift`), and so does a run
(`Session.run_shift`).  A session that starts at `c` is one that starts at zero, raised
by `c`: it succeeds and fails alike, step by step, and what it answers differs in the
numbers alone, and in texts only where a variable has no name (`Session.run_renumbered`).
-/
import DisciplinedConvex.Session
import DisciplinedConvex.Proofs.Renumbering.Build
import DisciplinedConvex.Proofs.Replacement.Register

namespace DisciplinedConvex

open Build

variable {c : ℕ}

/-! ### Registers -/

/-- The cell with all numbers raised. -/
def Cell.shift (c : ℕ) : Cell → Cell
  | empty => empty
  | expr e => expr (e.shift c)
  | constraint k => constraint (k.shift c)
  | problem p => problem (p.shift c)

namespace Registers

/-- The registers with all numbers raised. -/
def shift (c : ℕ) (rs : Registers) : Registers := rs.map (Cell.shift c)

theorem getElem?_shift (rs : Registers) (i : ℕ) : (rs.shift c)[i]? = rs[i]?.map (Cell.shift c) :=
  Array.getElem?_map

theorem shift_push (rs : Registers) (d : Cell) :
    shift c (rs.push d) = (rs.shift c).push (d.shift c) :=
  Array.map_push

/-- A register is read with the same fault, or with raised numbers. -/
theorem expr_shift (rs : Registers) (i : ℕ) :
    (rs.shift c).expr i = (rs.expr i).map (Expr.shift c) := by
  unfold expr
  rw [getElem?_shift]
  rcases rs[i]? with _ | _ | _ | _ | _ <;> rfl

theorem constraint_shift (rs : Registers) (i : ℕ) :
    (rs.shift c).constraint i = (rs.constraint i).map (Constraint.shift c) := by
  unfold constraint
  rw [getElem?_shift]
  rcases rs[i]? with _ | _ | _ | _ | _ <;> rfl

theorem problem_shift (rs : Registers) (i : ℕ) :
    (rs.shift c).problem i = (rs.problem i).map (Problem.shift c) := by
  unfold problem
  rw [getElem?_shift]
  rcases rs[i]? with _ | _ | _ | _ | _ <;> rfl

theorem constraints_shift (rs : Registers) (is : List ℕ) :
    is.mapM (rs.shift c).constraint =
      (is.mapM rs.constraint).map (List.map (Constraint.shift c)) := by
  induction is with
  | nil => rfl
  | cons i is ih =>
    rw [List.mapM_cons, List.mapM_cons, constraint_shift, ih]
    rcases rs.constraint i with f | k
    · rfl
    · rcases is.mapM rs.constraint with f | ks <;> rfl

theorem parts_shift (d : Option Cell) :
    parts (d.map (Cell.shift c)) = (parts d).map (Expr.shift c) := by
  rcases d with _ | _ | e | k | p
  · rfl
  · rfl
  · exact e.children_shift
  · rfl
  · exact p.expressions_shift

theorem part_shift (rs : Registers) (i n : ℕ) :
    (rs.shift c).part i n = (rs.part i n).map (Expr.shift c) := by
  rw [part_eq, part_eq, getElem?_shift, parts_shift, List.getElem?_map]
  rcases (parts rs[i]?)[n]? with _ | e <;> rfl

/-- The same register is emptied, if there is one. -/
theorem clear_shift (rs : Registers) (i : ℕ) :
    (rs.shift c).clear i = (rs.clear i).map (shift c) := by
  have hsize : (rs.shift c).size = rs.size := Array.size_map
  unfold clear
  rw [hsize]
  split
  · have hset : (rs.setIfInBounds i .empty).map (Cell.shift c) =
        (rs.map (Cell.shift c)).setIfInBounds i (Cell.shift c .empty) := Array.map_setIfInBounds
    exact congrArg Except.ok hset.symm
  · rfl

end Registers

/-! ### Operands -/

/-- The operand with all numbers raised. -/
def Found.shift (c : ℕ) : Found → Found
  | expr e => expr (e.shift c)
  | value v => value v
  | dense rows cols entries => dense rows cols entries

/-- The operand with all numbers raised. -/
def Ready.shift (c : ℕ) : Ready → Ready
  | expr e => expr (e.shift c)
  | value v => value v

theorem Operand.found_shift (rs : Registers) (a : Operand) :
    a.found (rs.shift c) = (a.found rs).map (Found.shift c) := by
  cases a with
  | register i =>
    rw [found, found, Registers.expr_shift]
    rcases rs.expr i with f | e <;> rfl
  | literal l =>
    have hvalue (x : Except Fault Value) :
        x.map Found.value = (x.map Found.value).map (Found.shift c) := by
      cases x <;> rfl
    cases l with
    | dense rows cols entries => rfl
    | scalar x => exact hvalue (Literal.scalar x).value
    | sparse rows cols ts => exact hvalue (Literal.sparse rows cols ts).value
    | array l => exact hvalue (Literal.array l).value

theorem Found.ready_shift (f : Found) : (f.shift c).ready = f.ready.map (Ready.shift c) := by
  cases f with
  | expr e => rfl
  | value v => rfl
  | dense rows cols entries =>
    rw [shift, ready]
    rcases (Literal.dense rows cols entries).value with f | v <;> rfl

theorem Ready.cast_shifts (r : Ready) : Shifts c r.cast (Expr.shift c) (r.shift c).cast := by
  cases r with
  | expr e => exact shifts_pure e _
  | value v => exact (constant_shifts v).insist

/-! ### Answers -/

/-- The report of the passes with all numbers raised. -/
def EntryReport.shift (c : ℕ) (r : EntryReport) : EntryReport :=
  { r with
    head := r.head.map (Expr.shift c)
    copy := r.copy.map (Expr.shift c)
    rest := r.rest.map (Expr.shift c) }

/-- The answer with all numbers raised; the verdict on a problem is the one on the raised
problem. -/
def Reply.shift (c : ℕ) : Reply → Reply
  | expr e => expr (e.shift c)
  | constraint k => constraint (k.shift c)
  | problem p _ => problem (p.shift c) (p.shift c).verdict
  | entries r => entries (r.shift c)
  | number n => number (n + c)
  | nothing => nothing

theorem Reply.cell_shift (r : Reply) : (r.shift c).cell = r.cell.shift c := by
  cases r <;> rfl

/-! ### Steps -/

namespace Step

variable {α α' β β' : Type} {f : α → α'} {g : β → β'} {rs : Registers}

/-- What is looked up is found with raised numbers, or not at all. -/
theorem lookUp_shifts {x : Except Fault α} {x' : Except Fault α'} (h : x' = x.map f)
    {k : α → Build β} {k' : α' → Build β'} (hk : ∀ a, Shifts c (k a) g (k' (f a))) :
    Shifts c (lookUp x >>= k) g (lookUp x' >>= k') := by
  subst h
  have hlook : Shifts c (lookUp x) f (lookUp (x.map f)) := by
    intro l
    cases x <;> rfl
  exact hlook.bind hk

theorem inForm_shifts (isChecked : Bool) {b : Build α} {b' : Build α'} (h : Shifts c b f b') :
    Shifts c (inForm isChecked b) f (inForm isChecked b') :=
  h.ite h.insist

theorem iterate_shifts {f f' : Expr → Build Expr}
    (hf : ∀ e, Shifts c (f e) (Expr.shift c) (f' (e.shift c))) (n : ℕ) (e : Expr) :
    Shifts c (iterate n f e) (Expr.shift c) (iterate n f' (e.shift c)) := by
  induction n generalizing e with
  | zero => exact shifts_pure e _
  | succ n ih => exact (hf e).bind fun a => ih a

theorem link_shifts (l : Link) (e : Expr) :
    Shifts c (link rs l e) (Expr.shift c) (link (rs.shift c) l (e.shift c)) := by
  cases l with
  | operate op b =>
    refine lookUp_shifts (b.found_shift rs) fun b => lookUp_shifts b.ready_shift fun b => ?_
    exact b.cast_shifts.bind fun b => operation_shifts op e b
  | negate => exact negation_shifts e
  | transpose => exact transposed_shifts e
  | index key => exact indexed_shifts e key
  | double => exact sum_shifts e e

theorem passes_shifts (e : Expr) (n : ℕ) :
    Shifts c (passes e n) (EntryReport.shift c) (passes (e.shift c) n) := by
  unfold passes
  rw [Entries.ofExpr_shift]
  refine (Entries.take_shifts n (.ofExpr e)).bind fun head => ?_
  refine (Entries.take_shifts _ head.2).bind fun copy => ?_
  refine (Entries.take_shifts _ head.2).bind fun rest => ?_
  exact shifts_pure _ _

/-- A builder of expressions answers with the same expression, with raised numbers. -/
theorem reply_shifts {b b' : Build Expr} (h : Shifts c b (Expr.shift c) b') :
    Shifts c (do return Reply.expr (← b)) (Reply.shift c) (do return Reply.expr (← b')) :=
  h.bind fun e => shifts_pure (Reply.expr e) _

/-- Every step does on raised registers what it does on the registers. -/
theorem build_shifts (st : Step) :
    Shifts c (st.build rs) (Reply.shift c) (st.build (rs.shift c)) := by
  cases st with
  | declare rows cols name bounds =>
    exact reply_shifts (newVariable_shifts rows cols name bounds).insist
  | constant l isChecked =>
    have hvalue : l.value = l.value.map id := by cases l.value <;> rfl
    exact lookUp_shifts hvalue fun v => reply_shifts (inForm_shifts isChecked (constant_shifts v))
  | filled rows cols x => exact reply_shifts (filled_shifts rows cols x).insist
  | identity n => exact reply_shifts (identity_shifts n).insist
  | cast a =>
    refine lookUp_shifts (a.found_shift rs) fun a => lookUp_shifts a.ready_shift fun a => ?_
    exact reply_shifts a.cast_shifts
  | operate op a b isChecked =>
    refine lookUp_shifts (a.found_shift rs) fun a => lookUp_shifts (b.found_shift rs) fun b => ?_
    refine lookUp_shifts a.ready_shift fun a => lookUp_shifts b.ready_shift fun b => ?_
    refine a.cast_shifts.bind fun x => b.cast_shifts.bind fun y => ?_
    exact reply_shifts (inForm_shifts isChecked (operation_shifts op x y))
  | negate a =>
    exact lookUp_shifts (rs.expr_shift a) fun e => reply_shifts (negation_shifts e)
  | transpose a =>
    exact lookUp_shifts (rs.expr_shift a) fun e => reply_shifts (transposed_shifts e)
  | index a key =>
    exact lookUp_shifts (rs.expr_shift a) fun e => reply_shifts (indexed_shifts e key)
  | entry a n =>
    refine lookUp_shifts (rs.expr_shift a) fun e => ?_
    rw [Entries.ofExpr_shift]
    refine (Entries.nth?_shifts n (.ofExpr e)).bind fun x => ?_
    cases x with
    | some a => exact shifts_pure (Reply.expr a) _
    | none => exact shifts_pure Reply.nothing _
  | chain a l n =>
    refine lookUp_shifts (rs.expr_shift a) fun e => reply_shifts ?_
    exact iterate_shifts (link_shifts l) n e
  | part a n =>
    exact lookUp_shifts (rs.part_shift a n) fun e => shifts_pure (Reply.expr e) _
  | asMinimization a =>
    exact lookUp_shifts (rs.problem_shift a) fun p =>
      reply_shifts (asMinimization_shifts p.objective)
  | compare k a b =>
    refine lookUp_shifts (a.found_shift rs) fun a => lookUp_shifts (b.found_shift rs) fun b => ?_
    refine lookUp_shifts a.ready_shift fun a => lookUp_shifts b.ready_shift fun b => ?_
    -- to change places and to raise numbers come to the same in either order
    have hsides : (k.sides (a.shift c) (b.shift c)).1 = (k.sides a b).1.shift c ∧
        (k.sides (a.shift c) (b.shift c)).2 = (k.sides a b).2.shift c := by
      cases k <;> exact ⟨rfl, rfl⟩
    rw [hsides.1, hsides.2]
    refine (Ready.cast_shifts _).bind fun x => (Ready.cast_shifts _).bind fun y => ?_
    exact (constraint_shifts k.kind x y).bind fun d => shifts_pure (Reply.constraint d) _
  | pose sense a constraints =>
    refine lookUp_shifts (a.found_shift rs) fun a => ?_
    refine lookUp_shifts (rs.constraints_shift constraints) fun cs => ?_
    refine lookUp_shifts a.ready_shift fun a => a.cast_shifts.bind fun e => ?_
    exact (verdict_shifts ⟨⟨sense, e⟩, cs⟩).bind fun v =>
      shifts_pure (Reply.problem ⟨⟨sense, e⟩, cs⟩ v) _
  | entries a n =>
    refine lookUp_shifts (rs.expr_shift a) fun e => (passes_shifts e n).bind fun r => ?_
    exact shifts_pure (Reply.entries r) _
  | freshId => exact shifts_freshId.bind fun n => shifts_pure (Reply.number n) _
  | drop a => exact shifts_pure Reply.nothing _
  | idle => exact shifts_pure Reply.nothing _

end Step

/-! ### Runs -/

namespace Session

/-- The session with all numbers raised. -/
def shift (c : ℕ) (s : Session) : Session where
  ledger := s.ledger.shift c
  registers := s.registers.shift c

/-- To start from a later number is to start with all numbers raised. -/
theorem shift_startingAt (first : ℕ) : (startingAt first).shift c = startingAt (first + c) := by
  simp [startingAt, shift, Ledger.startingAt, Ledger.shift, Registers.shift]

theorem shift_push (l : Ledger) (rs : Registers) (d : Cell) :
    shift c ⟨l, rs.push d⟩ = ⟨l.shift c, (rs.shift c).push (d.shift c)⟩ :=
  congrArg (Session.mk _) (rs.shift_push d)

theorem cleared_shift (rs : Registers) (st : Step) :
    cleared (rs.shift c) st = (cleared rs st).map (Registers.shift c) := by
  cases st with
  | drop a => exact rs.clear_shift a
  | _ => rfl

/-- A step fails with the same fault, or gives the same answer with raised numbers. -/
theorem step_shift (s : Session) (st : Step) :
    (s.shift c).step st = ((s.step st).1.map (Reply.shift c), (s.step st).2.shift c) := by
  have hcleared : cleared (s.shift c).registers st = _ := cleared_shift s.registers st
  unfold step
  rw [hcleared]
  rcases cleared s.registers st with f | rs
  · -- there is no register to be emptied, and nothing is built
    exact congrArg (Prod.mk _) (shift_push s.ledger s.registers .empty).symm
  · have hbuild : (st.build (rs.shift c)).perform (s.shift c).ledger = _ :=
      st.build_shifts s.ledger
    dsimp only [Except.map]
    rw [hbuild]
    rcases (st.build rs).perform s.ledger with ⟨f | r, l⟩
    · exact congrArg (Prod.mk _) (shift_push l rs .empty).symm
    · rw [shift_push, ← r.cell_shift]
      rfl

theorem run_shift (s : Session) (steps : List Step) :
    (s.shift c).run steps =
      ((s.run steps).1.map (Except.map (Reply.shift c)), (s.run steps).2.shift c) := by
  -- on the steps, for every session: after a step the sessions differ by the same numbers again
  induction steps generalizing s with
  | nil => rfl
  | cons st steps ih =>
    rw [run, run, step_shift]
    dsimp only
    rw [ih]
    rfl

theorem run_startingAt (first : ℕ) (steps : List Step) :
    (startingAt (first + c)).run steps =
      (((startingAt first).run steps).1.map (Except.map (Reply.shift c)),
        ((startingAt first).run steps).2.shift c) := by
  rw [← shift_startingAt, run_shift]

/-- The verdict that a session answers with is the verdict on the problem. -/
theorem verdict_of_answer {first : ℕ} {steps : List Step} {p : Problem} {v : Except Error Unit}
    (h : .ok (.problem p v) ∈ ((startingAt first).run steps).1) : v = p.verdict := by
  -- with its numbers raised by nothing, the answer is what it was
  have hzero : ((startingAt first).run steps).1 =
      ((startingAt first).run steps).1.map (Except.map (Reply.shift 0)) :=
    congrArg Prod.fst (run_startingAt (c := 0) first steps)
  rw [hzero] at h
  obtain ⟨f | r, -, hr⟩ := List.mem_map.1 h
  · cases hr
  · cases r with
    | problem q w =>
      cases hr
      rfl
    | _ => cases hr

/-- Where every variable that was built has a name, so has every variable of what was built. -/
theorem Accounted.named {s : Session} (hs : s.Accounted)
    (h : ∀ l d, s.ledger.Lists (.var l d) → d.name.isSome = true) {e : Expr}
    (he : s.ledger.Lists e) : e.Named :=
  fun l d hv => h l d (hs.orderly.reaches he hv).1

/-- The same steps from zero and from a later number, which is any number at all here.  Step by step
they fail with the same fault, or give the same answer with all numbers raised, and the ledger and
the registers are the same in the end.  A node with its number raised is of the same kind, knows the
same and is told from others as before; walks, variables and verdicts are the same.  And if every
variable that was built has a name, then so are all texts, those of constraints and verdicts among
them, except where a number is shown as such. -/
theorem run_renumbered (c : ℕ) (steps : List Step) :
    let before := (startingAt 0).run steps
    let after := (startingAt c).run steps
    (after.1 = before.1.map (Except.map (Reply.shift c)) ∧ after.2 = before.2.shift c) ∧
    (∀ e : Expr, (e.shift c).id = e.id + c ∧ (e.shift c).kind = e.kind ∧
      (e.shift c).shape = e.shape ∧ (e.shift c).curvature = e.curvature ∧
      (e.shift c).sign = e.sign ∧ (e.shift c).children = e.children.map (Expr.shift c) ∧
      (e.shift c).walk = e.walk.map (Expr.shift c) ∧
      (e.shift c).variableIds = e.variableIds.map (· + c) ∧
      ∀ a : Expr, (e.shift c == a.shift c) = (e == a)) ∧
    (∀ es : List Expr, Expr.countDistinct (es.map (Expr.shift c)) = Expr.countDistinct es) ∧
    (∀ k : Constraint, (k.shift c).kind = k.kind ∧ (k.shift c).shape = k.shape ∧
      (k.shift c).isCertified = k.isCertified ∧
      (k.shift c).variableIds = k.variableIds.map (· + c) ∧
      ∀ m : Constraint, (k.shift c).sameStructure (m.shift c) = k.sameStructure m) ∧
    (∀ p v, .ok (.problem p v) ∈ before.1 →
      (p.shift c).verdict.mapError Error.kind = v.mapError Error.kind ∧
      (p.shift c).isCertified = p.isCertified ∧
      (p.shift c).variableIds = p.variableIds.map (· + c) ∧
      (p.shift c).variableShapes = p.variableShapes.map (Problem.raise c)) ∧
    ((∀ l d, before.2.ledger.Lists (.var l d) → d.name.isSome = true) →
      (∀ e, before.2.ledger.Lists e → (e.shift c).text = e.text ∧
        (e.shift c).inspect = e.inspectBy fun n => n.id + c) ∧
      (∀ k, .ok (.constraint k) ∈ before.1 →
        (Event.constrained (k.shift c)).fields = (Event.constrained k).fields ∧
        (k.shift c).inspect = k.inspectBy fun n => n.id + c) ∧
      ∀ p v, .ok (.problem p v) ∈ before.1 → (p.shift c).verdict = v ∧
        ∀ k ∈ p.constraints, ∀ i,
          Problem.constraintFault (k.shift c) i = Problem.constraintFault k i) := by
  intro before after
  have hrun : after = _ := Nat.zero_add c ▸ run_startingAt (c := c) 0 steps
  refine ⟨⟨by rw [hrun], by rw [hrun]⟩, fun e => ?_, Expr.countDistinct_shift, fun k => ?_,
    fun p v hp => ?_, fun hnames => ?_⟩
  · exact ⟨e.id_shift, e.kind_shift, e.shape_shift, e.curvature_shift, e.sign_shift,
      e.children_shift, e.walk_shift, e.variableIds_shift, e.beq_shift⟩
  · exact ⟨rfl, k.residual.shape_shift, k.isCertified_shift, k.variableIds_shift,
      k.sameStructure_shift⟩
  · rw [verdict_of_answer hp]
    exact ⟨p.verdict_kind_shift, p.isCertified_shift, p.variableIds_shift, p.variableShapes_shift⟩
  · obtain ⟨-, hs, hreplies⟩ := run_accounted (accounted_startingAt 0) steps
    -- all that an answer holds was built, so that its variables have names
    have hnamed {e : Expr} (he : before.2.ledger.Lists e) : e.Named := hs.named hnames he
    have hconstraint {k : Constraint}
        (hk : ∀ e ∈ [k.lhs, k.rhs, k.residual], before.2.ledger.Lists e) : k.Named :=
      ⟨hnamed (hk _ (by simp)), hnamed (hk _ (by simp)), hnamed (hk _ (by simp))⟩
    refine ⟨fun e he => ⟨(hnamed he).text_shift, (hnamed he).inspect_shift⟩, fun k hk => ?_,
      fun p v hp => ?_⟩
    · have hk := hconstraint fun e he => hreplies _ hk e (List.mem_append_left _ he)
      exact ⟨hk.fields_shift, hk.inspect_shift⟩
    · have hlists (e : Expr) (he : e ∈ (Cell.problem p).exprs) : before.2.ledger.Lists e :=
        hreplies _ hp e (List.mem_append_right _ he)
      have hks (k : Constraint) (hk : k ∈ p.constraints) : k.Named :=
        hconstraint fun e he =>
          hlists e (List.mem_cons_of_mem _ (List.mem_flatMap.2 ⟨k, hk, he⟩))
      refine ⟨?_, fun k hk i => Problem.constraintFault_shift (hks k hk) i⟩
      rw [verdict_of_answer hp]
      exact Problem.verdict_shift (hnamed (hlists _ List.mem_cons_self)) hks

/-- Two variables with names, a comparison that is refused for the shapes of its sides, another one,
and a problem that is not certified, numbers from seven on. -/
theorem run_renumbered_seven :
    let steps : List Step := [
      .declare 2 1 (some "x") [],
      .declare 2 1 (some "y") [.nonneg],
      .operate .sum (.register 0) (.register 1) true,
      .compare .atMost (.register 2) (.literal (.dense 3 1 #[1.0, 2.0, 3.0])),
      .compare .atMost (.register 2) (.literal (.scalar 1.0)),
      .operate .product (.literal (.dense 2 2 #[1.0, -1.0, 0.0, 1.0])) (.register 0) true,
      .pose .minimize (.register 5) [4]]
    let before := (startingAt 0).run steps
    let after := (startingAt 7).run steps
    ∃ k p v, before.1[4]? = some (.ok (.constraint k)) ∧
      after.1[4]? = some (.ok (.constraint (k.shift 7))) ∧
      p.isCertified = false ∧ before.1[6]? = some (.ok (.problem p v)) ∧
      after.1[6]? = some (.ok (.problem (p.shift 7) v)) ∧
      (Event.constrained (k.shift 7)).fields = (Event.constrained k).fields ∧
      (k.lhs.shift 7).walk = k.lhs.walk.map (Expr.shift 7) := by
  intro steps before after
  obtain ⟨⟨hanswers, -⟩, hexpr, -, -, -, hnamed⟩ := run_renumbered 7 steps
  obtain ⟨k, p, v, hk, hp, hnot⟩ : ∃ k p v, before.1[4]? = some (.ok (.constraint k)) ∧
      before.1[6]? = some (.ok (.problem p v)) ∧ p.isCertified = false :=
    ⟨_, _, _, rfl, rfl, by decide +kernel⟩
  obtain ⟨l₀, d₀, l₁, d₁, hvariables, hd₀, hd₁⟩ : ∃ l₀ d₀ l₁ d₁,
      before.2.ledger.nodes.filter Expr.isVariable = [.var l₀ d₀, .var l₁ d₁] ∧
        d₀.name = some "x" ∧ d₁.name = some "y" := ⟨_, _, _, _, rfl, rfl, rfl⟩
  obtain ⟨-, hconstraints, hproblems⟩ := hnamed fun l d hl => by
    have hmem : .var l d ∈ before.2.ledger.nodes.filter Expr.isVariable :=
      List.mem_filter.2 ⟨hl, rfl⟩
    rw [hvariables] at hmem
    simp only [List.mem_cons, Expr.var.injEq, List.not_mem_nil, or_false] at hmem
    rcases hmem with ⟨-, rfl⟩ | ⟨-, rfl⟩
    · rw [hd₀]
      rfl
    · rw [hd₁]
      rfl
  have hverdict := (hproblems p _ (List.mem_of_getElem? hp)).1
  have hafter (i : ℕ) : after.1[i]? = before.1[i]?.map (Except.map (Reply.shift 7)) := by
    rw [show after.1 = _ from hanswers, List.getElem?_map]
  refine ⟨k, p, v, hk, ?_, hnot, hp, ?_, (hconstraints k (List.mem_of_getElem? hk)).1,
    (hexpr k.lhs).2.2.2.2.2.2.1⟩
  · rw [hafter, hk]
    rfl
  · rw [hafter, hp, ← hverdict]
    rfl

end Session

end DisciplinedConvex
