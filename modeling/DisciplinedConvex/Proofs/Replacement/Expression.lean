/-
DisciplinedConvex/Proofs/Replacement/Expression.lean

Expressions that are alike, and that the builders keep them so.

Two expressions are alike if they differ in their leaves and in numbers of nodes only,
and the attributes at each node are alike.  What a builder decides, it decides by the
shapes and by what is constant (which factor of a product goes to the left, where a
transpose needs no node, which divisor is refused), so on expressions that are alike
it fails with the same fault or builds expressions that are alike.
-/
import DisciplinedConvex.Build.Comparison
import DisciplinedConvex.Build.Entries
import DisciplinedConvex.Build.Leaf
import DisciplinedConvex.Proofs.Replacement.Attributes

namespace DisciplinedConvex

variable {σ : Sign.Correspondence}

/-- The same shape and the same sign; entries and storage may differ. -/
structure Value.Alike (v w : Value) : Prop where
  shape : v.shape = w.shape
  sign : v.sign = w.sign

theorem Value.Alike.refl (v : Value) : v.Alike v := ⟨rfl, rfl⟩

/-- Node by node the same operation on operands that are alike, and attributes that are alike. -/
inductive Expr.Alike (σ : Sign.Correspondence) : Expr → Expr → Prop where
  | var {l l' : Label} {d d' : Declaration} (hl : l.attributes.Alike σ l'.attributes)
      (hd : d.shape = d'.shape) : Alike σ (.var l d) (.var l' d')
  | const {l l' : Label} {v v' : Value} (hl : l.attributes.Alike σ l'.attributes)
      (hv : v.Alike v') : Alike σ (.const l v) (.const l' v')
  | add {l l' : Label} {a a' b b' : Expr} (hl : l.attributes.Alike σ l'.attributes)
      (ha : Alike σ a a') (hb : Alike σ b b') : Alike σ (.add l a b) (.add l' a' b')
  | neg {l l' : Label} {a a' : Expr} (hl : l.attributes.Alike σ l'.attributes)
      (ha : Alike σ a a') : Alike σ (.neg l a) (.neg l' a')
  | mul {l l' : Label} {k k' a a' : Expr} (hl : l.attributes.Alike σ l'.attributes)
      (hk : Alike σ k k') (ha : Alike σ a a') : Alike σ (.mul l k a) (.mul l' k' a')
  | div {l l' : Label} {a a' k k' : Expr} (hl : l.attributes.Alike σ l'.attributes)
      (ha : Alike σ a a') (hk : Alike σ k k') : Alike σ (.div l a k) (.div l' a' k')
  | transpose {l l' : Label} {a a' : Expr} (hl : l.attributes.Alike σ l'.attributes)
      (ha : Alike σ a a') : Alike σ (.transpose l a) (.transpose l' a')
  | index {l l' : Label} {a a' : Expr} {s : Selection} (hl : l.attributes.Alike σ l'.attributes)
      (ha : Alike σ a a') : Alike σ (.index l a s) (.index l' a' s)

namespace Expr.Alike

variable {a a' : Expr}

theorem attributes (h : a.Alike σ a') : a.attributes.Alike σ a'.attributes := by
  cases h <;> assumption

theorem kind (h : a.Alike σ a') : a.kind = a'.kind := by
  cases h <;> rfl

theorem children (h : a.Alike σ a') : List.Forall₂ (Expr.Alike σ) a.children a'.children := by
  cases h with
  | var hl hd => exact .nil
  | const hl hv => exact .nil
  | add hl ha hb => exact .cons ha (.cons hb .nil)
  | neg hl ha => exact .cons ha .nil
  | mul hl hk ha => exact .cons hk (.cons ha .nil)
  | div hl ha hk => exact .cons ha (.cons hk .nil)
  | transpose hl ha => exact .cons ha .nil
  | index hl ha => exact .cons ha .nil

theorem shape (h : a.Alike σ a') : a.shape = a'.shape := h.attributes.shape

theorem curvature (h : a.Alike σ a') : a.curvature = a'.curvature := h.attributes.curvature

theorem isConstant (h : a.Alike σ a') : a.isConstant = a'.isConstant :=
  congrArg Curvature.isConstant h.curvature

theorem isScalar (h : a.Alike σ a') : a.isScalar = a'.isScalar := congrArg Shape.isScalar h.shape

/-- Constants have the same sign, whatever was declared of the variables in them. -/
theorem isZero (h : a.Alike σ a') (hc : a.curvature = .constant) : a.isZero = a'.isZero :=
  congrArg Sign.isZero (h.attributes.constant hc)

end Expr.Alike

namespace Build

/-! ### Leaves -/

theorem constant_agrees {v w : Value} (h : v.Alike w) :
    (constant v).Agrees (Expr.Alike σ) (constant w) := by
  refine (agrees_check (.of_eq h.shape)).bind ?_
  rintro s _ rfl
  exact agrees_node fun _ _ => .const ⟨rfl, rfl, h.sign ▸ σ.refl _, fun _ => h.sign⟩ h

/-- With dimensions that make a shape, filling is to make a constant. -/
theorem filled_of_shape {rows cols : UInt64} {s : Shape} (h : Shape.ofDims rows cols = .ok s)
    (x : Float) :
    filled rows cols x =
      constant (if s.isScalar then .scalar x else .dense (Dense.filled s.rows s.cols x)) := by
  rw [filled, h]
  show (if s.isScalar then constant _ else constant _) = _
  split
  · rfl
  · rfl

theorem filled_agrees (rows cols : UInt64) (x : Float) :
    (filled rows cols x).Agrees (Expr.Alike σ) (filled rows cols x) := by
  rcases h : Shape.ofDims rows cols with e | s
  · rw [filled, h]
    exact agrees_throw (.rejected e)
  · rw [filled_of_shape h]
    exact constant_agrees (.refl _)

/-! ### Operations -/

variable {a a' b b' k k' : Expr}

theorem sum_agrees (ha : a.Alike σ a') (hb : b.Alike σ b') :
    (sum a b).Agrees (Expr.Alike σ) (sum a' b') :=
  (agrees_check (ha.attributes.add hb.attributes)).bind fun _ _ hl =>
    agrees_node fun _ _ => .add hl ha hb

theorem negation_agrees (ha : a.Alike σ a') :
    (negation a).Agrees (Expr.Alike σ) (negation a') :=
  agrees_node fun _ _ => .neg ha.attributes.neg ha

theorem difference_agrees (ha : a.Alike σ a') (hb : b.Alike σ b') :
    (difference a b).Agrees (Expr.Alike σ) (difference a' b') :=
  (negation_agrees hb).bind fun _ _ hc => sum_agrees ha hc

/-- A transpose keeps the curvature. -/
theorem transposed_agrees (ha : a.Alike σ a') :
    (transposed a).Agrees (fun t t' => t.Alike σ t' ∧ t.curvature = a.curvature)
      (transposed a') := by
  unfold transposed
  rw [← ha.isScalar]
  split
  · exact agrees_pure ⟨ha, rfl⟩
  · exact agrees_node fun _ _ => ⟨.transpose ha.attributes.transpose ha, rfl⟩

theorem scaled_agrees (hk : k.Alike σ k') (hconst : k.curvature = .constant)
    (ha : a.Alike σ a') : (scaled k a).Agrees (Expr.Alike σ) (scaled k' a') :=
  (agrees_check (hk.attributes.mul hconst ha.attributes)).bind fun _ _ hl =>
    agrees_node fun _ _ => .mul hl hk ha

/-- The constant factor is found on the same side. -/
theorem product_agrees (ha : a.Alike σ a') (hb : b.Alike σ b') :
    (product a b).Agrees (Expr.Alike σ) (product a' b') := by
  unfold product
  rw [← ha.isConstant, ← hb.isConstant, ← ha.shape, ← hb.shape]
  split
  · rename_i hconst
    exact scaled_agrees ha (beq_iff_eq.1 hconst) hb
  split
  · -- the constant factor stands on the right; its transpose is constant with the same sign
    rename_i hconst
    refine (agrees_check (.of_eq rfl)).bind fun _ _ _ => ?_
    refine (agrees_report _ _).bind fun _ _ _ => ?_
    refine (transposed_agrees hb).bind fun k k' hk => ?_
    refine (transposed_agrees ha).bind fun x x' hx => ?_
    have hk' : k.curvature = .constant := hk.2.trans (beq_iff_eq.1 hconst)
    refine (scaled_agrees hk.1 hk' hx.1).bind fun p p' hp => ?_
    exact (transposed_agrees hp).mono fun _ _ ht => ht.1
  · exact agrees_throw _

/-- The divisor is zero on both sides or on neither: it is constant. -/
theorem quotient_agrees (ha : a.Alike σ a') (hk : k.Alike σ k') :
    (quotient a k).Agrees (Expr.Alike σ) (quotient a' k') := by
  unfold quotient
  rw [← hk.isConstant, ← hk.isScalar]
  split
  · rename_i h
    have hconst : k.curvature = .constant := beq_iff_eq.1 (Bool.and_eq_true _ _ ▸ h).1
    have hnode : (node (a.attributes.div k.attributes) (.div · a k)).Agrees (Expr.Alike σ)
        (node (a'.attributes.div k'.attributes) (.div · a' k')) :=
      agrees_node fun _ _ => .div (ha.attributes.div hk.attributes hconst) ha hk
    -- whether the zero divisor is reported makes no difference to what is built
    rw [← hk.isZero hconst]
    split
    · exact (agrees_report _ _).bind fun _ _ _ => hnode
    · exact hnode
  · exact agrees_throw _

theorem selected_agrees (ha : a.Alike σ a') (s : Selection) :
    (selected a s).Agrees (Expr.Alike σ) (selected a' s) := by
  refine (agrees_attempt (.of_eq rfl)).bind ?_
  rintro t _ rfl
  exact agrees_node fun _ _ => .index (ha.attributes.select t) ha

theorem indexed_agrees (ha : a.Alike σ a') (key : Key) :
    (indexed a key).Agrees (Expr.Alike σ) (indexed a' key) := by
  unfold indexed
  rw [← ha.isScalar, ← ha.shape]
  split
  · exact agrees_pure ha
  · refine (agrees_check (.of_eq rfl)).bind ?_
    rintro s _ rfl
    exact selected_agrees ha s

theorem entry_agrees (ha : a.Alike σ a') (row col : UInt64) :
    (entry a row col).Agrees (Expr.Alike σ) (entry a' row col) := by
  unfold entry
  rw [← ha.isScalar]
  split
  · exact agrees_pure ha
  · exact selected_agrees ha _

theorem operation_agrees (op : Operation) (ha : a.Alike σ a') (hb : b.Alike σ b') :
    (op.apply a b).Agrees (Expr.Alike σ) (op.apply a' b') := by
  cases op with
  | sum => exact sum_agrees ha hb
  | difference => exact difference_agrees ha hb
  | product => exact product_agrees ha hb
  | quotient => exact quotient_agrees ha hb

end Build

/-! ### Constraints and problems -/

/-- The same kind of constraint on sides that are alike. -/
structure Constraint.Alike (σ : Sign.Correspondence) (c c' : Constraint) : Prop where
  kind : c.kind = c'.kind
  lhs : c.lhs.Alike σ c'.lhs
  rhs : c.rhs.Alike σ c'.rhs
  residual : c.residual.Alike σ c'.residual

theorem Constraint.Alike.isCertified {c c' : Constraint} (h : c.Alike σ c') :
    c.isCertified = c'.isCertified := by
  unfold Constraint.isCertified Expr.isAffine Expr.isConvex
  rw [h.kind, h.residual.curvature]

/-- The same sense, objectives that are alike, and as many constraints, each like the other. -/
structure Problem.Alike (σ : Sign.Correspondence) (p p' : Problem) : Prop where
  sense : p.objective.sense = p'.objective.sense
  objective : p.objective.expr.Alike σ p'.objective.expr
  constraints : List.Forall₂ (Constraint.Alike σ) p.constraints p'.constraints

namespace Problem.Alike

variable {p p' : Problem}

theorem objective_isCertified (h : p.Alike σ p') :
    p.objective.isCertified = p'.objective.isCertified := by
  unfold Objective.isCertified Expr.isConvex Expr.isConcave
  rw [h.sense, h.objective.curvature]

theorem map_isCertified {cs cs' : List Constraint} (h : List.Forall₂ (Constraint.Alike σ) cs cs') :
    cs.map Constraint.isCertified = cs'.map Constraint.isCertified := by
  induction h with
  | nil => rfl
  | cons hc _ ih => rw [List.map_cons, List.map_cons, hc.isCertified, ih]

theorem isCertified (h : p.Alike σ p') : p.isCertified = p'.isCertified := by
  have hall : p.constraints.all Constraint.isCertified =
      p'.constraints.all Constraint.isCertified := by
    have hmap := map_isCertified h.constraints
    simpa [List.all_map] using congrArg (List.all · id) hmap
  rw [Problem.isCertified, Problem.isCertified, h.objective_isCertified, hall]

theorem expressions (h : p.Alike σ p') :
    List.Forall₂ (Expr.Alike σ) p.expressions p'.expressions := by
  refine .cons h.objective ?_
  rw [List.forall₂_map_left_iff, List.forall₂_map_right_iff]
  exact h.constraints.imp fun _ _ hc => hc.residual

end Problem.Alike

namespace Build

theorem constraint_agrees (kind : ConstraintKind) {a a' b b' : Expr} (ha : a.Alike σ a')
    (hb : b.Alike σ b') :
    (constraint kind a b).Agrees (Constraint.Alike σ) (constraint kind a' b') := by
  refine (difference_agrees ha hb).bind fun r r' hr => ?_
  exact (agrees_report _ _).bind fun _ _ _ => agrees_pure ⟨rfl, ha, hb, hr⟩

theorem asMinimization_agrees {o o' : Objective} (hs : o.sense = o'.sense)
    (ho : o.expr.Alike σ o'.expr) :
    (asMinimization o).Agrees (Expr.Alike σ) (asMinimization o') := by
  unfold asMinimization
  rw [← hs]
  split
  · exact agrees_pure ho
  · exact negation_agrees ho

end Build

/-! ### Entries one by one -/

namespace Entries

open Build

/-- Passes at the same place over expressions that are alike. -/
structure Alike (σ : Sign.Correspondence) (p p' : Entries) : Prop where
  expr : p.expr.Alike σ p'.expr
  next : p.next = p'.next
  stop : p.stop = p'.stop

variable {p p' : Entries}

theorem ofExpr_alike {e e' : Expr} (he : e.Alike σ e') : (ofExpr e).Alike σ (ofExpr e') where
  expr := he
  next := rfl
  stop := congrArg Shape.numel he.shape

theorem Alike.advance (h : p.Alike σ p') : p.advance.Alike σ p'.advance :=
  ⟨h.expr, congrArg (· + 1) h.next, h.stop⟩

theorem Alike.remaining (h : p.Alike σ p') : p.remaining = p'.remaining := by
  rw [Entries.remaining, Entries.remaining, h.stop, h.next]

theorem Alike.isFinished (h : p.Alike σ p') : p.isFinished = p'.isFinished := by
  rw [Entries.isFinished, Entries.isFinished, h.stop, h.next]

theorem Alike.build (h : p.Alike σ p') : p.build.Agrees (Expr.Alike σ) p'.build := by
  unfold Entries.build
  rw [← h.next, ← h.expr.shape]
  exact entry_agrees h.expr _ _

theorem take_agrees (n : ℕ) (h : p.Alike σ p') :
    (p.take n).Agrees (fun r r' => List.Forall₂ (Expr.Alike σ) r.1 r'.1 ∧ r.2.Alike σ r'.2)
      (p'.take n) := by
  induction n generalizing p p' with
  | zero => exact agrees_pure ⟨.nil, h⟩
  | succ n ih =>
    unfold take
    rw [← h.isFinished]
    split
    · exact agrees_pure ⟨.nil, h⟩
    · refine h.build.bind fun e e' he => ?_
      refine (ih h.advance).bind fun r r' hr => ?_
      exact agrees_pure ⟨.cons he hr.1, hr.2⟩

theorem nth?_agrees (n : ℕ) (h : p.Alike σ p') :
    (p.nth? n).Agrees (Option.Rel (Expr.Alike σ)) (p'.nth? n) :=
  (take_agrees (n + 1) h).bind fun _ _ hr => agrees_pure (forall₂_getElem? hr.1 n)

end Entries

end DisciplinedConvex
