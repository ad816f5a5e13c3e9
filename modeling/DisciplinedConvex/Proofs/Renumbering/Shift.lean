/-
DisciplinedConvex/Proofs/Renumbering/Shift.lean

Expressions, constraints and problems with all numbers raised.

`shift c` adds `c` to the number of every node and changes nothing else.  It keeps the
order of numbers and tells apart what they told apart: so what is looked up, marked or
sorted by number comes out the same with its numbers raised, namely the walk
(`Expr.walk_shift`), the variables (`Expr.variableIds_shift`,
`Problem.variableShapes_shift`) and sets of expressions (`Expr.countDistinct_shift`).
No verdict depends on a number.  The only text that shows one is the text of a variable
without a name, and where there is none all texts are the same (`Expr.text_shift`).
-/
import DisciplinedConvex.Ledger
import DisciplinedConvex.Proofs.Traversal.Walk

namespace DisciplinedConvex

variable {c : ℕ}

/-! ### Expressions -/

/-- The label with its number raised. -/
def Label.shift (c : ℕ) (l : Label) : Label := { l with id := l.id + c }

namespace Expr

/-- The expression with the number of every node raised. -/
def shift (c : ℕ) : Expr → Expr
  | var l d => var (l.shift c) d
  | const l v => const (l.shift c) v
  | add l a b => add (l.shift c) (a.shift c) (b.shift c)
  | neg l a => neg (l.shift c) (a.shift c)
  | mul l k a => mul (l.shift c) (k.shift c) (a.shift c)
  | div l a k => div (l.shift c) (a.shift c) (k.shift c)
  | transpose l a => transpose (l.shift c) (a.shift c)
  | index l a s => index (l.shift c) (a.shift c) s

@[simp] theorem label_shift (e : Expr) : (e.shift c).label = e.label.shift c := by
  cases e <;> rfl

@[simp] theorem id_shift (e : Expr) : (e.shift c).id = e.id + c := by
  rw [Expr.id, label_shift]
  rfl

@[simp] theorem attributes_shift (e : Expr) : (e.shift c).attributes = e.attributes := by
  rw [attributes, label_shift]
  rfl

@[simp] theorem curvature_shift (e : Expr) : (e.shift c).curvature = e.curvature := by
  rw [curvature, attributes_shift, curvature]

@[simp] theorem sign_shift (e : Expr) : (e.shift c).sign = e.sign := by
  rw [sign, attributes_shift, sign]

@[simp] theorem shape_shift (e : Expr) : (e.shift c).shape = e.shape := by
  rw [shape, attributes_shift, shape]

@[simp] theorem isConstant_shift (e : Expr) : (e.shift c).isConstant = e.isConstant := by
  rw [isConstant, curvature_shift, isConstant]

@[simp] theorem isAffine_shift (e : Expr) : (e.shift c).isAffine = e.isAffine := by
  rw [isAffine, curvature_shift, isAffine]

@[simp] theorem isConvex_shift (e : Expr) : (e.shift c).isConvex = e.isConvex := by
  rw [isConvex, curvature_shift, isConvex]

@[simp] theorem isConcave_shift (e : Expr) : (e.shift c).isConcave = e.isConcave := by
  rw [isConcave, curvature_shift, isConcave]

@[simp] theorem isZero_shift (e : Expr) : (e.shift c).isZero = e.isZero := by
  rw [isZero, sign_shift, isZero]

@[simp] theorem isScalar_shift (e : Expr) : (e.shift c).isScalar = e.isScalar := by
  rw [isScalar, shape_shift, isScalar]

@[simp] theorem kind_shift (e : Expr) : (e.shift c).kind = e.kind := by
  cases e <;> rfl

@[simp] theorem isVariable_shift (e : Expr) : (e.shift c).isVariable = e.isVariable := by
  cases e <;> rfl

@[simp] theorem children_shift (e : Expr) : (e.shift c).children = e.children.map (shift c) := by
  cases e <;> rfl

theorem map_id_shift (es : List Expr) :
    (es.map (shift c)).map Expr.id = (es.map Expr.id).map (· + c) := by
  rw [List.map_map, List.map_map]
  exact List.map_congr_left fun e _ => id_shift e

/-! ### What goes by number -/

theorem beq_shift (a b : Expr) : (a.shift c == b.shift c) = (a == b) := by
  rw [Bool.eq_iff_iff, beq_iff_id_eq, beq_iff_id_eq, id_shift, id_shift, Nat.add_right_cancel_iff]

theorem countDistinct_shift (es : List Expr) :
    countDistinct (es.map (shift c)) = countDistinct es := by
  have himage :
      ((es.map Expr.id).map (· + c)).toFinset = (es.map Expr.id).toFinset.image (· + c) := by
    ext i
    simp
  rw [countDistinct_eq_card, countDistinct_eq_card, map_id_shift, himage]
  exact Finset.card_image_of_injective _ (add_left_injective c)

/-- A node was visited just where it was visited with the lower numbers. -/
theorem preorder_shift (visited : List Expr) (e : Expr) :
    preorder (visited.map (shift c)) (e.shift c) = (preorder visited e).map (shift c) := by
  -- from the operands to the node; each operand starts from what the ones before it have visited
  induction e using induction_on_children generalizing visited with
  | h e ih =>
    have hfold (es : List Expr) (hes : ∀ a ∈ es, a ∈ e.children) (ws : List Expr) :
        (es.map (shift c)).foldl preorder (ws.map (shift c)) =
          (es.foldl preorder ws).map (shift c) := by
      induction es generalizing ws with
      | nil => rfl
      | cons a es ihes =>
        rw [List.map_cons, List.foldl_cons, List.foldl_cons, ih a (hes a List.mem_cons_self),
          ihes fun b hb => hes b (List.mem_cons_of_mem a hb)]
    have hvisited : (e.shift c).id ∈ (visited.map (shift c)).map Expr.id ↔
        e.id ∈ visited.map Expr.id := by
      rw [map_id_shift, id_shift]
      exact List.mem_map_of_injective (add_left_injective c)
    rw [preorder_eq, preorder_eq, if_congr hvisited rfl rfl, apply_ite (List.map (shift c)),
      children_shift, ← hfold e.children fun a ha => ha]
    simp

theorem walk_shift (e : Expr) : (e.shift c).walk = e.walk.map (shift c) := by
  rw [walk_eq_preorder, walk_eq_preorder]
  exact preorder_shift [] e

/-- To raise all numbers keeps their order. -/
theorem variableIds_shift (e : Expr) : (e.shift c).variableIds = e.variableIds.map (· + c) := by
  have hfilter : ((e.shift c).walk.filter isVariable).map Expr.id =
      ((e.walk.filter isVariable).map Expr.id).map (· + c) := by
    rw [walk_shift, List.filter_map, map_id_shift]
    congr 3
    exact funext isVariable_shift
  rw [variableIds_eq, variableIds_eq, filterMap_variableId?, filterMap_variableId?, hfilter]
  exact (List.map_mergeSort fun i _ j _ => by simp).symm

end Expr

/-! ### Constraints -/

namespace Constraint

/-- The constraint with all numbers raised. -/
def shift (c : ℕ) (k : Constraint) : Constraint where
  kind := k.kind
  lhs := k.lhs.shift c
  rhs := k.rhs.shift c
  residual := k.residual.shift c

@[simp] theorem isCertified_shift (k : Constraint) : (k.shift c).isCertified = k.isCertified := by
  unfold isCertified
  rw [shift, Expr.isAffine_shift, Expr.isConvex_shift]

theorem sameStructure_shift (k m : Constraint) :
    (k.shift c).sameStructure (m.shift c) = k.sameStructure m := by
  unfold sameStructure
  rw [shift, shift, Expr.beq_shift, Expr.beq_shift]

theorem variableIds_shift (k : Constraint) :
    (k.shift c).variableIds = k.variableIds.map (· + c) :=
  k.residual.variableIds_shift

end Constraint

/-! ### Problems -/

/-- The objective with all numbers raised. -/
def Objective.shift (c : ℕ) (o : Objective) : Objective where
  sense := o.sense
  expr := o.expr.shift c

@[simp] theorem Objective.isCertified_shift (o : Objective) :
    (o.shift c).isCertified = o.isCertified := by
  unfold isCertified
  rw [shift, Expr.isConvex_shift, Expr.isConcave_shift]

namespace Problem

/-- The problem with all numbers raised. -/
def shift (c : ℕ) (p : Problem) : Problem where
  objective := p.objective.shift c
  constraints := p.constraints.map (Constraint.shift c)

@[simp] theorem isCertified_shift (p : Problem) : (p.shift c).isCertified = p.isCertified := by
  have hall : (Constraint.isCertified ∘ Constraint.shift c) = Constraint.isCertified :=
    funext Constraint.isCertified_shift
  rw [isCertified, shift, Objective.isCertified_shift, List.all_map, hall, isCertified]

/-- The verdict is the same but for the text that names what is not certified. -/
theorem verdict_kind_shift (p : Problem) :
    (p.shift c).verdict.mapError Error.kind = p.verdict.mapError Error.kind := by
  rw [verdict_kind, verdict_kind, isCertified_shift]

theorem expressions_shift (p : Problem) :
    (p.shift c).expressions = p.expressions.map (Expr.shift c) := by
  rw [expressions, expressions, List.map_cons, List.map_map]
  exact congrArg _ (List.map_map ..)

/-- The entry with its number raised. -/
def raise (c : ℕ) (v : ℕ × Shape) : ℕ × Shape := (v.1 + c, v.2)

/-- The second map holds what the first one does, with the numbers raised. -/
def Raised (c : ℕ) (found found' : Std.TreeMap ℕ Shape) : Prop :=
  found'.toList.Perm (found.toList.map (raise c))

theorem raised_empty : Raised c ∅ ∅ := .nil

theorem Raised.insert {found found' : Std.TreeMap ℕ Shape} (h : Raised c found found') (i : ℕ)
    (s : Shape) : Raised c (found.insert i s) (found'.insert (i + c) s) := by
  have hother : (fun v : ℕ × Shape => decide ¬(i + c == v.1) = true) ∘ raise c =
      fun v : ℕ × Shape => decide ¬(i == v.1) = true := by
    funext v
    simp [raise]
  calc (found'.insert (i + c) s).toList
      |>.Perm ((i + c, s) :: found'.toList.filter (¬i + c == ·.1)) :=
        Std.TreeMap.toList_insert_perm
    _ |>.Perm ((i + c, s) :: (found.toList.map (raise c)).filter (¬i + c == ·.1)) :=
        (h.filter _).cons _
    _ = ((i, s) :: found.toList.filter (¬i == ·.1)).map (raise c) := by
        rw [List.filter_map, hother, List.map_cons]
        rfl
    _ |>.Perm ((found.insert i s).toList.map (raise c)) :=
        (Std.TreeMap.toList_insert_perm.map _).symm

theorem Raised.addVariables {found found' : Std.TreeMap ℕ Shape} (h : Raised c found found')
    (e : Expr) : Raised c (addVariables found e) (addVariables found' (e.shift c)) := by
  unfold Problem.addVariables
  rw [e.walk_shift, List.foldl_map]
  -- on the nodes, of which only the variables leave an entry
  generalize e.walk = nodes
  induction nodes generalizing found found' with
  | nil => exact h
  | cons n nodes ih =>
    rw [List.foldl_cons, List.foldl_cons]
    cases n with
    | var l d => exact ih (h.insert l.id d.shape)
    | _ => exact ih h

/-- Both lists are in strictly ascending order, so that they are the same if they hold the same. -/
theorem Raised.toList {found found' : Std.TreeMap ℕ Shape} (h : Raised c found found') :
    found'.toList = found.toList.map (raise c) := by
  have hsorted (found : Std.TreeMap ℕ Shape) :
      found.toList.Pairwise fun v w => v.1 < w.1 :=
    Std.TreeMap.ordered_keys_toList.imp Nat.compare_eq_lt.1
  refine h.eq_of_pairwise (fun v w _ _ hvw hwv => absurd hvw hwv.not_gt) (hsorted found') ?_
  exact List.pairwise_map.2 ((hsorted found).imp fun hlt => Nat.add_lt_add_right hlt c)

theorem variableShapes_shift (p : Problem) :
    (p.shift c).variableShapes = p.variableShapes.map (raise c) := by
  have hfold (es : List Expr) {found found' : Std.TreeMap ℕ Shape} (h : Raised c found found') :
      Raised c (es.foldl addVariables found)
        ((es.map (Expr.shift c)).foldl addVariables found') := by
    induction es generalizing found found' with
    | nil => exact h
    | cons e es ih => exact ih (h.addVariables e)
  rw [variableShapes, variableShapes, expressions_shift]
  exact (hfold p.expressions raised_empty).toList

theorem variableIds_shift (p : Problem) : (p.shift c).variableIds = p.variableIds.map (· + c) := by
  rw [variableIds, variableIds, variableShapes_shift, List.map_map, List.map_map]
  rfl

end Problem

/-! ### Texts -/

namespace Expr

/-- Every variable of the expression has a name. -/
def Named (e : Expr) : Prop := ∀ l d, e.Reaches (.var l d) → d.name.isSome = true

theorem Named.child {e a : Expr} (he : e.Named) (ha : a ∈ e.children) : a.Named :=
  fun l d hv => he l d (.child ha hv)

/-- The piece with all numbers raised. -/
def Piece.shift (c : ℕ) : Piece → Piece
  | expr e isOperand => .expr (e.shift c) isOperand
  | text s => .text s

/-- Every variable of the piece has a name. -/
def Piece.Named : Piece → Prop
  | expr e _ => e.Named
  | text _ => True

theorem isCompound_shift (e : Expr) : (e.shift c).isCompound = e.isCompound := by
  cases e <;> rfl

/-- A name takes the place of the number. -/
theorem variableText_shift {l : Label} {d : Declaration} (h : d.name.isSome = true) :
    variableText (l.shift c) d = variableText l d := by
  obtain ⟨name, hname⟩ := Option.isSome_iff_exists.1 h
  rw [variableText, variableText, hname]
  rfl

theorem Named.pieces_shift {e : Expr} (he : e.Named) :
    pieces (e.shift c) = (pieces e).map (Piece.shift c) := by
  cases e with
  | var l d => exact congrArg (fun s => [Piece.text s]) (variableText_shift (he l d (.refl _)))
  | _ => rfl

theorem Named.pieces {e : Expr} (he : e.Named) : ∀ p ∈ pieces e, p.Named := by
  have hchild {a : Expr} (ha : a ∈ e.children) (isOperand : Bool) :
      (Piece.expr a isOperand).Named := he.child ha
  cases e <;> simp_all [Expr.pieces, children, Piece.Named]

/-- What is written does not depend on the numbers. -/
theorem write_shift {out : String} {stack : List Piece} (h : ∀ p ∈ stack, p.Named) :
    write out (stack.map (Piece.shift c)) = write out stack := by
  -- on the pieces as they are written: a node gives way to its pieces, which are named as well
  induction out, stack using write.induct with
  | case1 out => rw [List.map_nil]
  | case2 out s stack ih =>
    rw [List.map_cons, Piece.shift, write, write]
    exact ih fun p hp => h p (List.mem_cons_of_mem _ hp)
  | case3 out e isOperand stack hparens ih =>
    have he : e.Named := h _ List.mem_cons_self
    rw [List.map_cons, Piece.shift, write, write, isCompound_shift, if_pos hparens, if_pos hparens,
      he.pieces_shift, ← ih]
    · rw [List.map_append, List.map_cons]
      rfl
    · intro p hp
      rcases List.mem_append.1 hp with hp | hp
      · exact he.pieces p hp
      · rcases List.mem_cons.1 hp with rfl | hp
        · trivial
        · exact h p (List.mem_cons_of_mem _ hp)
  | case4 out e isOperand stack hparens ih =>
    have he : e.Named := h _ List.mem_cons_self
    rw [List.map_cons, Piece.shift, write, write, isCompound_shift, if_neg hparens, if_neg hparens,
      he.pieces_shift, ← ih]
    · rw [List.map_append]
    · intro p hp
      rcases List.mem_append.1 hp with hp | hp
      · exact he.pieces p hp
      · exact h p (List.mem_cons_of_mem _ hp)

theorem Named.text_shift {e : Expr} (he : e.Named) : (e.shift c).text = e.text := by
  have hpiece : ∀ p ∈ [Piece.expr e false], p.Named := by
    intro p hp
    rw [List.mem_singleton.1 hp]
    exact he
  exact write_shift hpiece

/-- The node with the names of its fields, and with some number in place of its own. -/
def inspectBy (number : Expr → ℕ) (e : Expr) : String :=
  Text.record "Expr"
    [("id", toString (number e)), ("kind", Text.quote e.kind), ("name", Text.quote e.text),
      ("curvature", e.curvature.inspect), ("sign", e.sign.inspect), ("shape", e.shape.inspect)]

theorem inspect_eq (e : Expr) : e.inspect = e.inspectBy Expr.id := rfl

/-- Of a node with its fields only the number is another one. -/
theorem Named.inspect_shift {e : Expr} (he : e.Named) :
    (e.shift c).inspect = e.inspectBy fun n => n.id + c := by
  rw [inspect, inspectBy, id_shift, kind_shift, he.text_shift, curvature_shift, sign_shift,
    shape_shift]

end Expr

namespace Constraint

/-- The constraint with the names of its fields, and with some numbers in place of its own. -/
def inspectBy (number : Expr → ℕ) (k : Constraint) : String :=
  Text.record "Constraint"
    [("kind", k.kind.inspect), ("lhs", k.lhs.inspectBy number), ("rhs", k.rhs.inspectBy number),
      ("expr", k.residual.inspectBy number)]

theorem inspect_eq (k : Constraint) : k.inspect = k.inspectBy Expr.id := rfl

/-- All that a constraint holds has names for its variables. -/
structure Named (k : Constraint) : Prop where
  lhs : k.lhs.Named
  rhs : k.rhs.Named
  residual : k.residual.Named

/-- The report of a constraint shows its sides by their texts. -/
theorem Named.fields_shift {k : Constraint} (hk : k.Named) :
    (Event.constrained (k.shift c)).fields = (Event.constrained k).fields := by
  simp only [Event.fields, shift, shape, hk.lhs.text_shift, hk.rhs.text_shift, Expr.shape_shift]

theorem Named.inspect_shift {k : Constraint} (hk : k.Named) :
    (k.shift c).inspect = k.inspectBy fun n => n.id + c := by
  have hkind : (k.shift c).kind = k.kind := rfl
  have hl : (k.shift c).lhs.inspect = _ := hk.lhs.inspect_shift
  have hr : (k.shift c).rhs.inspect = _ := hk.rhs.inspect_shift
  have he : (k.shift c).residual.inspect = _ := hk.residual.inspect_shift
  rw [inspect, inspectBy, hkind, hl, hr, he]

end Constraint

namespace Problem

theorem constraintFault_shift {k : Constraint} (hk : k.Named) (i : ℕ) :
    constraintFault (k.shift c) i = constraintFault k i := by
  have hkind : (k.shift c).kind = k.kind := rfl
  have hl : (k.shift c).lhs.text = k.lhs.text := hk.lhs.text_shift
  have hr : (k.shift c).rhs.text = k.rhs.text := hk.rhs.text_shift
  have hcurv : (k.shift c).residual.curvature = k.residual.curvature := k.residual.curvature_shift
  unfold constraintFault
  rw [hkind, hl, hr, hcurv]

theorem objectiveFault_shift {o : Objective} (ho : o.expr.Named) :
    objectiveFault (o.shift c) = objectiveFault o := by
  have htext : (o.shift c).expr.text = o.expr.text := ho.text_shift
  have hcurv : (o.shift c).expr.curvature = o.expr.curvature := o.expr.curvature_shift
  have hsense : (o.shift c).sense = o.sense := rfl
  unfold objectiveFault
  rw [hsense, htext, hcurv]

theorem firstUncertified?_shift (p : Problem) :
    (p.shift c).firstUncertified? =
      p.firstUncertified?.map (Prod.map (Constraint.shift c) id) := by
  have hcertified : (fun k : Constraint × ℕ => !k.1.isCertified) ∘
      Prod.map (Constraint.shift c) id = fun k => !k.1.isCertified := by
    funext k
    exact congrArg _ k.1.isCertified_shift
  rw [firstUncertified?, firstUncertified?, shift, List.zipIdx_map, List.find?_map, hcertified]

/-- The verdict is the same, with the text that names what is not certified. -/
theorem verdict_shift {p : Problem} (hobjective : p.objective.expr.Named)
    (hconstraints : ∀ k ∈ p.constraints, k.Named) :
    (p.shift c).verdict = p.verdict := by
  have hobj : (p.shift c).objective = p.objective.shift c := rfl
  unfold verdict
  rw [firstUncertified?_shift, hobj, Objective.isCertified_shift, objectiveFault_shift hobjective]
  rcases hfirst : p.firstUncertified? with _ | ⟨k, i⟩
  · rfl
  · have hmem : k ∈ p.constraints :=
      List.fst_mem_of_mem_zipIdx (List.mem_of_find?_eq_some hfirst)
    simp only [Option.map_some, Prod.map, id, constraintFault_shift (hconstraints k hmem)]

end Problem

end DisciplinedConvex
