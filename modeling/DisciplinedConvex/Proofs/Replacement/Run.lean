/-
DisciplinedConvex/Proofs/Replacement/Run.lean

Two sessions that take the same steps on other leaves.

A step is exchanged for one that does the same with other leaves: another constant of
the same shape and the same sign, or another variable of the same shape.  Two sessions
of such steps answer step by step with the same fault or with what is alike, so that
no verdict depends on more of the constants than shape and sign, or on more of the
variables than the shape; and where declarations are given up only, signs get sharper
the other way (`Session.run_exchanged`).
-/
import DisciplinedConvex.Proofs.Graph.Buildable
import DisciplinedConvex.Proofs.Replacement.Register

namespace DisciplinedConvex

open Build

variable {σ : Sign.Correspondence} {δ : Sign → Sign → Prop}

/-! ### Declarations -/

/-- The sign that bounds declare, of which the last one counts. -/
def Bound.declaredSign (bounds : List Bound) : Sign :=
  match bounds.getLast? with
  | some b => b.sign
  | none => .unknown

namespace Declaration

theorem shape_declare (d : Declaration) (bounds : List Bound) :
    (d.declare bounds).shape = d.shape := by
  induction bounds generalizing d with
  | nil => rfl
  | cons b bounds ih => exact ih { d with bound := some b }

theorem bound_declare (d : Declaration) (bounds : List Bound) :
    (d.declare bounds).bound = bounds.getLast?.or d.bound := by
  induction bounds generalizing d with
  | nil => rfl
  | cons b bounds ih =>
    have hrest : (d.declare (b :: bounds)).bound = bounds.getLast?.or (some b) :=
      ih { d with bound := some b }
    rw [hrest, List.getLast?_cons]
    cases bounds.getLast? <;> rfl

theorem sign_declare (shape : Shape) (name : Option String) (bounds : List Bound) :
    (({ shape, name } : Declaration).declare bounds).sign = Bound.declaredSign bounds := by
  rw [sign, bound_declare, Option.or_none]
  rfl

end Declaration

/-! ### Exchanged steps -/

/-- The same link with another literal. -/
inductive Link.Exchanges : Link → Link → Prop where
  | same (l : Link) : Exchanges l l
  | operate (op : Operation) {b b' : Operand} (h : b.Exchanges b') :
      Exchanges (.operate op b) (.operate op b')

/-- The value of which a step makes a constant and nothing else. -/
def Step.value? : Step → Option Value
  | constant l _ | cast (.literal l) => l.value.toOption
  | filled rows cols x =>
    match Shape.ofDims rows cols with
    | .ok s => some (if s.isScalar then .scalar x else .dense (Dense.filled s.rows s.cols x))
    | .error _ => none
  | identity n => some (.dense (Dense.identity n))
  | _ => none

/-- The same step with other leaves.  A variable keeps its shape, and its declared signs are related
as given; a constant keeps shape and sign, and it may be made in another way. -/
inductive Step.Exchanges (δ : Sign → Sign → Prop) : Step → Step → Prop where
  | same (st : Step) : Exchanges δ st st
  | declare (rows cols : UInt64) (name name' : Option String) {bounds bounds' : List Bound}
      (h : δ (Bound.declaredSign bounds) (Bound.declaredSign bounds')) :
      Exchanges δ (.declare rows cols name bounds) (.declare rows cols name' bounds')
  | leaf {st st' : Step} {v w : Value} {s : Shape} (hv : st.value? = some v)
      (hw : st'.value? = some w) (hs : v.shape = .ok s) (h : v.Alike w) : Exchanges δ st st'
  | constant {l m : Literal} (h : l.Exchanges m) (isChecked : Bool) :
      Exchanges δ (.constant l isChecked) (.constant m isChecked)
  | cast {a a' : Operand} (h : a.Exchanges a') : Exchanges δ (.cast a) (.cast a')
  | operate (op : Operation) {a a' b b' : Operand} (ha : a.Exchanges a') (hb : b.Exchanges b')
      (isChecked : Bool) : Exchanges δ (.operate op a b isChecked) (.operate op a' b' isChecked)
  | chain (a : ℕ) {l l' : Link} (h : l.Exchanges l') (n : ℕ) :
      Exchanges δ (.chain a l n) (.chain a l' n)
  | compare (c : Comparison) {a a' b b' : Operand} (ha : a.Exchanges a') (hb : b.Exchanges b') :
      Exchanges δ (.compare c a b) (.compare c a' b')
  | pose (sense : Sense) {a a' : Operand} (h : a.Exchanges a') (constraints : List ℕ) :
      Exchanges δ (.pose sense a constraints) (.pose sense a' constraints)

/-! ### Answers -/

/-- Two passes that saw as many entries, one by one alike. -/
structure EntryReport.Alike (σ : Sign.Correspondence) (r r' : EntryReport) : Prop where
  length : r.length = r'.length
  head : List.Forall₂ (Expr.Alike σ) r.head r'.head
  remaining : r.remaining = r'.remaining
  copy : List.Forall₂ (Expr.Alike σ) r.copy r'.copy
  rest : List.Forall₂ (Expr.Alike σ) r.rest r'.rest
  isFinished : r.isFinished = r'.isFinished

/-- Answers of the same kind that hand out what is alike; the verdicts on problems are the same, up
to the text that names what is not certified. -/
inductive Reply.Alike (σ : Sign.Correspondence) : Reply → Reply → Prop where
  | expr {e e' : Expr} (h : e.Alike σ e') : Alike σ (.expr e) (.expr e')
  | constraint {c c' : Constraint} (h : c.Alike σ c') : Alike σ (.constraint c) (.constraint c')
  | problem {p p' : Problem} {v v' : Except Error Unit} (h : p.Alike σ p')
      (hv : v.mapError Error.kind = v'.mapError Error.kind) :
      Alike σ (.problem p v) (.problem p' v')
  | entries {r r' : EntryReport} (h : r.Alike σ r') : Alike σ (.entries r) (.entries r')
  | number (n n' : ℕ) : Alike σ (.number n) (.number n')
  | nothing : Alike σ .nothing .nothing

/-- What is certified of the parts of an answer. -/
def Reply.verdicts : Reply → List Bool
  | constraint c => [c.isCertified]
  | problem p _ =>
    p.isCertified :: p.objective.isCertified :: p.constraints.map Constraint.isCertified
  | expr _ | entries _ | number _ | nothing => []

namespace Reply.Alike

variable {r r' : Reply}

theorem cell (h : r.Alike σ r') : r.cell.Alike σ r'.cell := by
  cases h with
  | expr h => exact .expr h
  | constraint h => exact .constraint h
  | problem h hv => exact .problem h
  | entries h => exact .empty
  | number n n' => exact .empty
  | nothing => exact .empty

theorem exprs (h : r.Alike σ r') : List.Forall₂ (Expr.Alike σ) r.exprs r'.exprs := by
  cases h with
  | expr h => exact .cons h .nil
  | constraint h => exact .cons h.lhs (.cons h.rhs (.cons h.residual .nil))
  | problem h hv => exact h.expressions
  | entries h => exact List.rel_append (List.rel_append h.head h.copy) h.rest
  | number n n' => exact .nil
  | nothing => exact .nil

theorem verdicts (h : r.Alike σ r') : r.verdicts = r'.verdicts := by
  cases h with
  | constraint h => exact congrArg ([·]) h.isCertified
  | problem h hv =>
    rw [Reply.verdicts, Reply.verdicts, h.isCertified, h.objective_isCertified,
      Problem.Alike.map_isCertified h.constraints]
  | expr | entries | number | nothing => rfl

end Reply.Alike

namespace Step

/-! ### Parts of steps -/

variable {rs rs' : Registers} {α α' : Type} {q : α → α' → Prop}

theorem agrees_lookUp {x : Except Fault α} {y : Except Fault α'} (h : Agree q x y) :
    (lookUp x).Agrees q (lookUp y) := by
  intro l l'
  cases h with
  | ok h => exact .ok h
  | error f => exact .error f

theorem inForm_agrees (isChecked : Bool) {b : Build α} {b' : Build α'} (h : b.Agrees q b') :
    (inForm isChecked b).Agrees q (inForm isChecked b') := by
  unfold inForm
  split
  · exact h
  · exact h.insist

theorem iterate_agrees {f f' : Expr → Build Expr}
    (hf : ∀ e e', e.Alike σ e' → (f e).Agrees (Expr.Alike σ) (f' e')) (n : ℕ) {e e' : Expr}
    (he : e.Alike σ e') : (iterate n f e).Agrees (Expr.Alike σ) (iterate n f' e') := by
  induction n generalizing e e' with
  | zero => exact agrees_pure he
  | succ n ih => exact (hf e e' he).bind fun a a' ha => ih ha

theorem link_agrees (hrs : rs.Alike σ rs') {l l' : Link} (h : l.Exchanges l') {e e' : Expr}
    (he : e.Alike σ e') : (link rs l e).Agrees (Expr.Alike σ) (link rs' l' e') := by
  have hoperate (op : Operation) {b b' : Operand} (hb : b.Exchanges b') :
      (link rs (.operate op b) e).Agrees (Expr.Alike σ) (link rs' (.operate op b') e') := by
    refine (agrees_lookUp (Operand.found_agrees hrs hb)).bind fun f f' hf => ?_
    refine (agrees_lookUp hf).bind fun r r' hr => ?_
    exact hr.cast.bind fun b b' hb => operation_agrees op he hb
  cases h with
  | operate op hb => exact hoperate op hb
  | same =>
    cases l with
    | operate op b => exact hoperate op (.refl b)
    | negate => exact negation_agrees he
    | transpose => exact (transposed_agrees he).mono fun _ _ ht => ht.1
    | index key => exact indexed_agrees he key
    | double => exact sum_agrees he he

theorem passes_agrees {e e' : Expr} (he : e.Alike σ e') (n : ℕ) :
    (passes e n).Agrees (EntryReport.Alike σ) (passes e' n) := by
  have hstart := Entries.ofExpr_alike he
  refine (Entries.take_agrees n hstart).bind fun head head' hhead => ?_
  have hdrain : (Entries.drain head.2).Agrees
      (fun r r' => List.Forall₂ (Expr.Alike σ) r.1 r'.1 ∧ r.2.Alike σ r'.2)
      (Entries.drain head'.2) := by
    unfold Entries.drain
    rw [← hhead.2.remaining]
    exact Entries.take_agrees _ hhead.2
  -- the second pass and the rest of the first one start at the same place
  refine hdrain.bind fun copy copy' hcopy => hdrain.bind fun rest rest' hrest => ?_
  exact agrees_pure
    ⟨hstart.remaining, hhead.1, hhead.2.remaining, hcopy.1, hrest.1, hrest.2.isFinished⟩

/-- Builders of expressions that agree give answers that are alike. -/
theorem reply_agrees {b b' : Build Expr} (h : b.Agrees (Expr.Alike σ) b') :
    (do return Reply.expr (← b) : Build Reply).Agrees (Reply.Alike σ)
      (do return Reply.expr (← b')) :=
  h.bind fun _ _ he => agrees_pure (.expr he)

/-! ### Leaves -/

theorem newVariable_agrees (rows cols : UInt64) (name name' : Option String)
    {bounds bounds' : List Bound}
    (h : σ.rel (Bound.declaredSign bounds) (Bound.declaredSign bounds')) :
    (newVariable rows cols name bounds).Agrees (Expr.Alike σ)
      (newVariable rows cols name' bounds') := by
  refine (agrees_check (.of_eq rfl)).bind ?_
  rintro s _ rfl
  have hshape : (({ shape := s, name } : Declaration).declare bounds).shape =
      (({ shape := s, name := name' } : Declaration).declare bounds').shape := by
    rw [Declaration.shape_declare, Declaration.shape_declare]
  refine agrees_node fun _ _ => .var ⟨hshape, rfl, ?_, nofun⟩ hshape
  rwa [Declaration.attributes, Declaration.attributes, Declaration.sign_declare,
    Declaration.sign_declare]

/-- A constant that is not refused is the same in the form that stops. -/
theorem insist_constant {v : Value} {s : Shape} (hs : v.shape = .ok s) :
    (Build.constant v).insist = Build.constant v := by
  have hok (l : Ledger) : (Build.constant v).insist.perform l = (Build.constant v).perform l := by
    rw [perform_insist, Build.constant, perform_bind, perform_check, hs]
    rfl
  exact funext hok

theorem value_of_toOption {l : Literal} {v : Value} (h : l.value.toOption = some v) :
    l.value = .ok v := by
  rcases hl : l.value with f | u
  · rw [hl] at h
    cases h
  · rw [hl] at h
    cases h
    rfl

/-- Whatever the registers hold, a step that makes a constant of a value makes no more of it. -/
theorem build_of_value {st : Step} {v : Value} {s : Shape} (hv : st.value? = some v)
    (hs : v.shape = .ok s) (rs : Registers) :
    st.build rs = (do return Reply.expr (← Build.constant v)) := by
  cases st with
  | constant l isChecked =>
    rw [build, value_of_toOption hv]
    show (do return Reply.expr (← inForm isChecked (Build.constant v))) = _
    rw [inForm, insist_constant hs, ite_self]
  | filled rows cols x =>
    rcases ht : Shape.ofDims rows cols with e | t
    · simp only [value?, ht] at hv
      cases hv
    · simp only [value?, ht] at hv
      obtain rfl := Option.some.inj hv
      rw [build, filled_of_shape ht, insist_constant hs]
  | identity n =>
    obtain rfl := Option.some.inj hv
    rw [build, Build.identity, insist_constant hs]
  | cast a =>
    cases a with
    | register i => cases hv
    | literal l =>
      obtain ⟨f, hf, hready⟩ := Literal.found_of_value (value_of_toOption hv)
      rw [build, hf]
      show (do let a ← lookUp f.ready; return Reply.expr (← a.cast)) = _
      rw [hready]
      show (do return Reply.expr (← (Build.constant v).insist)) = _
      rw [insist_constant hs]
  | _ => cases hv

/-! ### Steps -/

theorem constant_agrees {l m : Literal} (h : l.Exchanges m) (isChecked : Bool) :
    ((constant l isChecked).build rs).Agrees (Reply.Alike σ)
      ((constant m isChecked).build rs') := by
  refine (agrees_lookUp h.value).bind fun v w hv => ?_
  exact reply_agrees (inForm_agrees isChecked (Build.constant_agrees hv))

theorem cast_agrees (hrs : rs.Alike σ rs') {a a' : Operand} (h : a.Exchanges a') :
    ((cast a).build rs).Agrees (Reply.Alike σ) ((cast a').build rs') := by
  refine (agrees_lookUp (Operand.found_agrees hrs h)).bind fun f f' hf => ?_
  refine (agrees_lookUp hf).bind fun r r' hr => ?_
  exact reply_agrees hr.cast

theorem operate_agrees (hrs : rs.Alike σ rs') (op : Operation) {a a' b b' : Operand}
    (ha : a.Exchanges a') (hb : b.Exchanges b') (isChecked : Bool) :
    ((operate op a b isChecked).build rs).Agrees (Reply.Alike σ)
      ((operate op a' b' isChecked).build rs') := by
  refine (agrees_lookUp (Operand.found_agrees hrs ha)).bind fun f f' hf => ?_
  refine (agrees_lookUp (Operand.found_agrees hrs hb)).bind fun g g' hg => ?_
  refine (agrees_lookUp hf).bind fun r r' hr => (agrees_lookUp hg).bind fun t t' ht => ?_
  refine hr.cast.bind fun x x' hx => ht.cast.bind fun y y' hy => ?_
  exact reply_agrees (inForm_agrees isChecked (operation_agrees op hx hy))

theorem chain_agrees (hrs : rs.Alike σ rs') (a : ℕ) {l l' : Link} (h : l.Exchanges l') (n : ℕ) :
    ((chain a l n).build rs).Agrees (Reply.Alike σ) ((chain a l' n).build rs') := by
  refine (agrees_lookUp (hrs.reads a).1).bind fun e e' he => ?_
  exact reply_agrees (iterate_agrees (fun _ _ hc => link_agrees hrs h hc) n he)

theorem compare_agrees (hrs : rs.Alike σ rs') (c : Comparison) {a a' b b' : Operand}
    (ha : a.Exchanges a') (hb : b.Exchanges b') :
    ((compare c a b).build rs).Agrees (Reply.Alike σ) ((compare c a' b').build rs') := by
  refine (agrees_lookUp (Operand.found_agrees hrs ha)).bind fun f f' hf => ?_
  refine (agrees_lookUp (Operand.found_agrees hrs hb)).bind fun g g' hg => ?_
  refine (agrees_lookUp hf).bind fun r r' hr => (agrees_lookUp hg).bind fun t t' ht => ?_
  -- the sides change places before they are cast, so that they are cast in this order
  have hsides : (c.sides r t).1.Alike σ (c.sides r' t').1 ∧
      (c.sides r t).2.Alike σ (c.sides r' t').2 := by
    cases c with
    | equal | atMost => exact ⟨hr, ht⟩
    | atLeast => exact ⟨ht, hr⟩
  refine hsides.1.cast.bind fun x x' hx => hsides.2.cast.bind fun y y' hy => ?_
  exact (constraint_agrees c.kind hx hy).bind fun d d' hd => agrees_pure (.constraint hd)

theorem pose_agrees (hrs : rs.Alike σ rs') (sense : Sense) {a a' : Operand} (h : a.Exchanges a')
    (constraints : List ℕ) :
    ((pose sense a constraints).build rs).Agrees (Reply.Alike σ)
      ((pose sense a' constraints).build rs') := by
  refine (agrees_lookUp (Operand.found_agrees hrs h)).bind fun f f' hf => ?_
  have hcs := Agree.mapM constraints fun i => (hrs.reads i).2.1
  refine (agrees_lookUp hcs).bind fun cs cs' hcs => ?_
  refine (agrees_lookUp hf).bind fun r r' hr => hr.cast.bind fun e e' he => ?_
  refine (agrees_report _ _).bind fun _ _ _ => agrees_pure ?_
  have hp : Problem.Alike σ ⟨⟨sense, e⟩, cs⟩ ⟨⟨sense, e'⟩, cs'⟩ := ⟨rfl, he, hcs⟩
  refine .problem hp ?_
  rw [Problem.verdict_kind, Problem.verdict_kind, hp.isCertified]

/-- A step fails with the same fault, or gives an answer that is alike. -/
theorem build_agrees (hδ : ∀ s t, δ s t → σ.rel s t) (hrs : rs.Alike σ rs') {st st' : Step}
    (h : st.Exchanges δ st') : (st.build rs).Agrees (Reply.Alike σ) (st'.build rs') := by
  cases h with
  | declare rows cols name name' h =>
    exact reply_agrees (newVariable_agrees rows cols name name' (hδ _ _ h)).insist
  | leaf hv hw hs h =>
    rw [build_of_value hv hs, build_of_value hw (h.shape ▸ hs)]
    exact reply_agrees (Build.constant_agrees h)
  | constant h isChecked => exact constant_agrees h isChecked
  | cast h => exact cast_agrees hrs h
  | operate op ha hb isChecked => exact operate_agrees hrs op ha hb isChecked
  | chain a h n => exact chain_agrees hrs a h n
  | compare c ha hb => exact compare_agrees hrs c ha hb
  | pose sense h constraints => exact pose_agrees hrs sense h constraints
  | same =>
    cases st with
    | declare rows cols name bounds =>
      exact reply_agrees (newVariable_agrees rows cols name name (σ.refl _)).insist
    | constant l isChecked => exact constant_agrees (.same l) isChecked
    | filled rows cols x => exact reply_agrees (filled_agrees rows cols x).insist
    | identity n => exact reply_agrees (Build.constant_agrees (.refl _)).insist
    | cast a => exact cast_agrees hrs (.refl a)
    | operate op a b isChecked => exact operate_agrees hrs op (.refl a) (.refl b) isChecked
    | negate a =>
      refine (agrees_lookUp (hrs.reads a).1).bind fun e e' he => ?_
      exact reply_agrees (negation_agrees he)
    | transpose a =>
      refine (agrees_lookUp (hrs.reads a).1).bind fun e e' he => ?_
      exact reply_agrees ((transposed_agrees he).mono fun _ _ ht => ht.1)
    | index a key =>
      refine (agrees_lookUp (hrs.reads a).1).bind fun e e' he => ?_
      exact reply_agrees (indexed_agrees he key)
    | entry a n =>
      refine (agrees_lookUp (hrs.reads a).1).bind fun e e' he => ?_
      refine (Entries.nth?_agrees n (Entries.ofExpr_alike he)).bind fun x x' hx => ?_
      cases hx with
      | none => exact agrees_pure .nothing
      | some he => exact agrees_pure (.expr he)
    | chain a l n => exact chain_agrees hrs a (.same l) n
    | part a n =>
      refine (agrees_lookUp (hrs.part a n)).bind fun e e' he => ?_
      exact agrees_pure (.expr he)
    | asMinimization a =>
      refine (agrees_lookUp (hrs.reads a).2.2).bind fun p p' hp => ?_
      exact reply_agrees (asMinimization_agrees hp.sense hp.objective)
    | compare c a b => exact compare_agrees hrs c (.refl a) (.refl b)
    | pose sense a constraints => exact pose_agrees hrs sense (.refl a) constraints
    | entries a n =>
      refine (agrees_lookUp (hrs.reads a).1).bind fun e e' he => ?_
      exact (passes_agrees he n).bind fun _ _ hr => agrees_pure (.entries hr)
    | freshId => exact agrees_freshId.bind fun n n' _ => agrees_pure (.number n n')
    | drop a => exact agrees_pure .nothing
    | idle => exact agrees_pure .nothing

end Step

/-! ### Runs -/

namespace Session

variable {s s' : Session}

theorem cleared_of_value (rs : Registers) {st : Step} {v : Value} (h : st.value? = some v) :
    cleared rs st = .ok rs := by
  cases st with
  | drop a => cases h
  | _ => rfl

/-- Steps that are exchanged empty the same register. -/
theorem cleared_agrees {rs rs' : Registers} (hrs : rs.Alike σ rs') {st st' : Step}
    (h : st.Exchanges δ st') :
    Agree (Registers.Alike σ) (cleared rs st) (cleared rs' st') := by
  cases h with
  | same =>
    cases st with
    | drop a => exact hrs.clear a
    | _ => exact .ok hrs
  | leaf hv hw hs h =>
    rw [cleared_of_value rs hv, cleared_of_value rs' hw]
    exact .ok hrs
  | _ => exact .ok hrs

/-- A step that fails empties its own register in both sessions; any other one fills both with what
is alike. -/
theorem step_agrees (hδ : ∀ s t, δ s t → σ.rel s t) (hs : s.registers.Alike σ s'.registers)
    {st st' : Step} (h : st.Exchanges δ st') :
    Agree (Reply.Alike σ) (s.step st).1 (s'.step st').1 ∧
      (s.step st).2.registers.Alike σ (s'.step st').2.registers := by
  have hcleared := cleared_agrees hs h
  unfold step
  generalize cleared s.registers st = x, cleared s'.registers st' = y at hcleared
  cases hcleared with
  | error f => exact ⟨.error f, hs.push .empty⟩
  | @ok rs rs' hrs =>
    have hbuild := Step.build_agrees hδ hrs h s.ledger s'.ledger
    dsimp only
    generalize (st.build rs).perform s.ledger = u, (st'.build rs').perform s'.ledger = u' at hbuild
    obtain ⟨r, l⟩ := u
    obtain ⟨r', l'⟩ := u'
    cases hbuild with
    | ok hr => exact ⟨.ok hr, hrs.push hr.cell⟩
    | error f => exact ⟨.error f, hrs.push .empty⟩

theorem run_agrees (hδ : ∀ s t, δ s t → σ.rel s t) (hs : s.registers.Alike σ s'.registers)
    {steps steps' : List Step} (h : List.Forall₂ (Step.Exchanges δ) steps steps') :
    List.Forall₂ (Agree (Reply.Alike σ)) (s.run steps).1 (s'.run steps').1 := by
  -- on the steps, for any two sessions to start from: a step leaves registers that are alike again
  induction h generalizing s s' with
  | nil => exact .nil
  | cons hst _ ih =>
    obtain ⟨hr, hs⟩ := step_agrees hδ hs hst
    exact .cons hr (ih hs)

theorem startingAt_alike (first first' : ℕ) :
    (startingAt first).registers.Alike σ (startingAt first').registers :=
  Registers.alike_empty

/-- Two sessions take the same steps on other leaves: constants of the same shape and the same sign,
and variables of the same shape with any declarations.  Step by step they fail with the same fault,
or what they answer is of the same kinds, shapes and curvatures, and the same is certified.  Where
each variable is declared in the second as in the first or is not declared in the first, all signs
of the second promise at least what those of the first do. -/
theorem run_exchanged (first first' : ℕ) {steps steps' : List Step}
    (h : List.Forall₂ (Step.Exchanges fun _ _ => True) steps steps') :
    List.Forall₂
      (Agree fun r r' => r.Alike .any r' ∧ r.verdicts = r'.verdicts ∧
        List.Forall₂ (fun e e' => e.kind = e'.kind ∧ e.shape = e'.shape ∧
          e.curvature = e'.curvature) r.exprs r'.exprs)
      ((startingAt first).run steps).1 ((startingAt first').run steps').1 ∧
    (List.Forall₂ (Step.Exchanges fun s t => t = s ∨ s = .unknown) steps steps' →
      List.Forall₂
        (Agree fun r r' => r.Alike .sharper r' ∧
          List.Forall₂ (fun e e' => e'.sign ≤ e.sign) r.exprs r'.exprs)
        ((startingAt first).run steps).1 ((startingAt first').run steps').1) := by
  constructor
  · have hany (s t : Sign) (_ : True) : Sign.Correspondence.any.rel s t := trivial
    have hrun := run_agrees hany (startingAt_alike first first') h
    refine hrun.imp fun _ _ hr => hr.mono fun r r' hr => ⟨hr, hr.verdicts, ?_⟩
    exact hr.exprs.imp fun e e' he => ⟨he.kind, he.shape, he.curvature⟩
  · intro hdeclared
    have hsharper (s t : Sign) (hst : t = s ∨ s = .unknown) :
        Sign.Correspondence.sharper.rel s t := by
      rcases hst with rfl | rfl
      · exact t.le_refl
      · exact ⟨nofun, nofun⟩
    have hrun := run_agrees hsharper (startingAt_alike first first') hdeclared
    refine hrun.imp fun _ _ hr => hr.mono fun r r' hr => ⟨hr, ?_⟩
    exact hr.exprs.imp fun e e' he => he.attributes.sign

/-- A column and its product with a row, under a constraint, after a division that is refused.  The
second column is declared to be at least zero, which the first is not, and has other factors. -/
theorem run_exchanged_column :
    let session (bounds : List Bound) (zero row bound : Literal) : List Step := [
      .declare 2 1 none bounds,
      .operate .product (.literal zero) (.register 0) true,
      .operate .quotient (.register 0) (.register 1) true,
      .operate .product (.literal row) (.register 0) true,
      .compare .atMost (.register 3) (.literal bound),
      .pose .minimize (.register 3) [4]]
    let answers := ((startingAt 0).run
      (session [] (.scalar 0.0) (.dense 1 2 #[1.0, 2.0]) (.scalar 1.0))).1
    let answers' := ((startingAt 7).run
      (session [.nonneg] (.sparse 1 1 []) (.sparse 1 2 [⟨0, 1, 3.0⟩]) (.dense 1 1 #[4.0]))).1
    ∃ e e' c c', answers[3]? = some (.ok (.expr e)) ∧ answers'[3]? = some (.ok (.expr e')) ∧
      answers[4]? = some (.ok (.constraint c)) ∧ answers'[4]? = some (.ok (.constraint c')) ∧
      e.curvature = e'.curvature ∧ e'.sign ≤ e.sign ∧ c.isCertified = c'.isCertified := by
  intro session answers answers'
  have hzero : Literal.Exchanges (.scalar 0.0) (.sparse 1 1 []) :=
    .alike rfl rfl ⟨rfl, by decide +kernel⟩
  have hrow : Literal.Exchanges (.dense 1 2 #[1.0, 2.0]) (.sparse 1 2 [⟨0, 1, 3.0⟩]) :=
    .alike rfl rfl ⟨rfl, by decide +kernel⟩
  have hbound : Literal.Exchanges (.scalar 1.0) (.dense 1 1 #[4.0]) :=
    .alike rfl rfl ⟨rfl, by decide +kernel⟩
  have hsteps (δ : Sign → Sign → Prop) (hδ : δ .unknown .nonneg) :
      List.Forall₂ (Step.Exchanges δ)
        (session [] (.scalar 0.0) (.dense 1 2 #[1.0, 2.0]) (.scalar 1.0))
        (session [.nonneg] (.sparse 1 1 []) (.sparse 1 2 [⟨0, 1, 3.0⟩]) (.dense 1 1 #[4.0])) :=
    .cons (.declare 2 1 none none hδ) <|
    .cons (.operate .product (.literal hzero) (.register 0) true) <|
    .cons (.same _) <|
    .cons (.operate .product (.literal hrow) (.register 0) true) <|
    .cons (.compare .atMost (.register 3) (.literal hbound)) <|
    .cons (.same _) .nil
  obtain ⟨hrun, hsharper⟩ := run_exchanged 0 7 (hsteps _ trivial)
  obtain ⟨e, e', he, he'⟩ : ∃ e e', answers[3]? = some (.ok (.expr e)) ∧
      answers'[3]? = some (.ok (.expr e')) := ⟨_, _, rfl, rfl⟩
  obtain ⟨c, c', hc, hc'⟩ : ∃ c c', answers[4]? = some (.ok (.constraint c)) ∧
      answers'[4]? = some (.ok (.constraint c')) := ⟨_, _, rfl, rfl⟩
  have hexpr := (Agree.of_getElem? hrun he he').2.2
  have hverdict := (Agree.of_getElem? hrun hc hc').2.1
  have hsign := (Agree.of_getElem? (hsharper (hsteps _ (.inr rfl))) he he').2
  exact ⟨e, e', c, c', he, he', hc, hc', (List.forall₂_cons.1 hexpr).1.2.2,
    (List.forall₂_cons.1 hsign).1, (List.cons.inj hverdict).1⟩

end Session

end DisciplinedConvex
