/-
DisciplinedConvex/Proofs/Rendering/Association.lean

Expressions that differ in the brackets of their sums.

`Expr.Regrouped` is the least congruence by which sums may be bracketed either way and
a selection may be exchanged for one of the same positions; numbers and attributes of
nodes play no part in it.  Brackets matter neither for shapes nor for values, and both
for the same reason: dimensions have to agree, where scalars give way, and it is all
one in which order they are compared (`agreed_assoc`).  So regrouped expressions have
the same shape, and the same value or none at every assignment (`Regrouped.shape_eq`,
`Regrouped.eval_eq`).
-/
import DisciplinedConvex.Proofs.Exact.Comparison
import DisciplinedConvex.Proofs.Rendering.Picks
import DisciplinedConvex.Proofs.Soundness.Shape

namespace DisciplinedConvex

/-! ### Agreement where one thing gives way -/

section Agreed

variable {α : Type} {e p q r d : α}

/-- All of them are `d`, except for those that are `e`, and one of them is `d`. -/
def Shared (e : α) (ps : List α) (d : α) : Prop := d ∈ ps ∧ ∀ p ∈ ps, p = e ∨ p = d

theorem Shared.of_perm {ps qs : List α} (h : Shared e ps d) (hp : ps.Perm qs) : Shared e qs d :=
  ⟨hp.mem_iff.1 h.1, fun p hmem => h.2 p (hp.mem_iff.2 hmem)⟩

theorem shared_pair_iff :
    Shared e [p, q] d ↔ (d = p ∨ d = q) ∧ (p = e ∨ p = d) ∧ (q = e ∨ q = d) := by
  simp [Shared]

theorem shared_triple_iff : Shared e [p, q, r] d ↔
    (d = p ∨ d = q ∨ d = r) ∧ (p = e ∨ p = d) ∧ (q = e ∨ q = d) ∧ (r = e ∨ r = d) := by
  simp [Shared]

variable [DecidableEq α]

/-- What two things agree on, where `e` gives way to anything. -/
def agreed (e p q : α) : Option α :=
  if p = q ∨ q = e then some p else if p = e then some q else none

theorem agreed_eq_some_iff : agreed e p q = some d ↔ Shared e [p, q] d := by
  rw [shared_pair_iff, agreed]
  by_cases hq : q = e
  · rw [if_pos (.inr hq)]
    aesop
  by_cases hpq : p = q
  · rw [if_pos (.inl hpq)]
    aesop
  · rw [if_neg (by tauto)]
    aesop

/-- What the first two agree on agrees with the third. -/
theorem bind_agreed_eq_some_iff :
    (agreed e p q).bind (agreed e · r) = some d ↔ Shared e [p, q, r] d := by
  simp only [Option.bind_eq_some_iff, agreed_eq_some_iff, shared_pair_iff, shared_triple_iff]
  constructor
  · rintro ⟨u, hu, hd⟩
    aesop
  · rintro ⟨hd, hp, hq, hr⟩
    -- the first two agree on `d`, or both of them give way
    by_cases hpq : d = p ∨ d = q
    · exact ⟨d, ⟨hpq, hp, hq⟩, .inl rfl, .inr rfl, hr⟩
    · have hp : p = e := hp.resolve_right fun h => hpq (.inl h.symm)
      have hq : q = e := hq.resolve_right fun h => hpq (.inr h.symm)
      have hr : d = r := by tauto
      exact ⟨e, ⟨.inl hp.symm, .inl hp, .inl hq⟩, .inr hr, .inl rfl, .inr hr.symm⟩

theorem agreed_comm (e p q : α) : agreed e p q = agreed e q p := by
  refine Option.ext fun d => ?_
  rw [agreed_eq_some_iff, agreed_eq_some_iff]
  exact ⟨fun h => h.of_perm (.swap ..), fun h => h.of_perm (.swap ..)⟩

/-- Three things are compared in either order. -/
theorem agreed_assoc (e p q r : α) :
    (agreed e p q).bind (agreed e · r) = (agreed e q r).bind (agreed e p) := by
  have hcomm : (agreed e q r).bind (agreed e p) = (agreed e q r).bind (agreed e · p) :=
    congrArg _ (funext (agreed_comm e p))
  have hperm : ([p] ++ [q, r]).Perm ([q, r] ++ [p]) := List.perm_append_comm
  refine Option.ext fun d => ?_
  rw [hcomm, bind_agreed_eq_some_iff, bind_agreed_eq_some_iff]
  exact ⟨fun h => h.of_perm hperm, fun h => h.of_perm hperm.symm⟩

end Agreed

/-! ### Operations that can be carried out in either order -/

theorem toOption_broadcast (s t : Shape) : (s.broadcast t).toOption = agreed Shape.scalar s t := by
  unfold Shape.broadcast agreed
  simp only [Shape.isScalar_iff, Bool.or_eq_true, decide_eq_true_eq]
  split_ifs <;> rfl

theorem broadcast_assoc (s t r : Shape) :
    ((s.broadcast t).toOption.bind fun u => (u.broadcast r).toOption) =
      (t.broadcast r).toOption.bind fun u => (s.broadcast u).toOption := by
  simp only [toOption_broadcast]
  exact agreed_assoc _ s t r

namespace Mat

variable {K : Type} [OrderedField K] {a b c : Mat K}

/-- Both dimensions. -/
def dims (a : Mat K) : ℕ × ℕ := (a.rows, a.cols)

theorem isScalar_iff_dims : a.IsScalar ↔ a.dims = (1, 1) := by
  rw [dims, Prod.mk.injEq, IsScalar]

theorem toOption_common (a b : Mat K) :
    (common a b).toOption = agreed (1, 1) a.dims b.dims := by
  have hdims : (a.rows = b.rows ∧ a.cols = b.cols) ↔ a.dims = b.dims := by
    rw [dims, dims, Prod.mk.injEq]
  unfold common agreed
  by_cases heq : a.dims = b.dims ∨ b.dims = (1, 1)
  · rw [if_pos heq, if_pos (heq.imp hdims.2 isScalar_iff_dims.2)]
    rfl
  rw [if_neg heq, if_neg (heq ∘ Or.imp hdims.1 isScalar_iff_dims.1)]
  by_cases hone : a.dims = (1, 1)
  · rw [if_pos hone, if_pos (isScalar_iff_dims.2 hone)]
    rfl
  · rw [if_neg hone, if_neg (hone ∘ isScalar_iff_dims.1)]
    rfl

/-- The sum of two matrices, if their dimensions agree. -/
theorem toOption_add (a b : Mat K) : (a.add b).toOption =
    (agreed (1, 1) a.dims b.dims).map fun d =>
      ofFn d.1 d.2 fun i j => a.spread i j + b.spread i j := by
  rw [← toOption_common, add]
  rcases common a b with f | d <;> rfl

theorem sum_comm (a b : Mat K) : a.add b = b.add a := by
  unfold add
  rw [common_comm]
  simp only [add_comm]

/-- In a sum that is spread over larger dimensions each entry is still the sum of two. -/
theorem spread_ofFn_add {d d' : ℕ × ℕ} (h : agreed (1, 1) a.dims b.dims = some d)
    (h' : agreed (1, 1) d c.dims = some d') {i j : ℕ} (hij : i < d'.1 ∧ j < d'.2) :
    (ofFn d.1 d.2 fun i j => a.spread i j + b.spread i j).spread i j =
      a.spread i j + b.spread i j := by
  obtain ⟨-, ha, hb⟩ := shared_pair_iff.1 (agreed_eq_some_iff.1 h)
  obtain ⟨-, hd, -⟩ := shared_pair_iff.1 (agreed_eq_some_iff.1 h')
  by_cases hone : d = (1, 1)
  · -- a scalar is the sum of two scalars
    subst hone
    have ha : a.IsScalar := isScalar_iff_dims.2 (ha.elim id id)
    have hb : b.IsScalar := isScalar_iff_dims.2 (hb.elim id id)
    rw [spread, if_pos ⟨rfl, rfl⟩, number, entry_ofFn, if_pos ⟨Nat.one_pos, Nat.one_pos⟩]
    simp only [spread, if_pos ha, if_pos hb]
  · obtain rfl := hd.resolve_left hone
    have hsum : ¬(ofFn d.1 d.2 fun i j => a.spread i j + b.spread i j).IsScalar :=
      fun h => hone (isScalar_iff_dims.1 h)
    rw [spread, if_neg hsum, entry_ofFn, if_pos hij]

/-- The sum of three matrices, if their dimensions agree. -/
theorem toOption_add_add (a b c : Mat K) :
    ((a.add b).toOption.bind fun u => (u.add c).toOption) =
      ((agreed (1, 1) a.dims b.dims).bind (agreed (1, 1) · c.dims)).map fun d =>
        ofFn d.1 d.2 fun i j => a.spread i j + b.spread i j + c.spread i j := by
  rw [toOption_add]
  rcases h : agreed (1, 1) a.dims b.dims with _ | d
  · rfl
  simp only [Option.map_some, Option.bind_some, toOption_add]
  change (agreed (1, 1) d c.dims).map _ = _
  rcases h' : agreed (1, 1) d c.dims with _ | d'
  · rfl
  refine congrArg some (Mat.ext rfl rfl (funext fun i => funext fun j => ?_))
  rw [entry_ofFn, entry_ofFn]
  split
  · rename_i hij
    rw [spread_ofFn_add h h' hij]
  · rfl

theorem sum_assoc (a b c : Mat K) :
    ((a.add b).toOption.bind fun u => (u.add c).toOption) =
      (b.add c).toOption.bind fun u => (a.add u).toOption := by
  have hcomm : ((b.add c).toOption.bind fun u => (a.add u).toOption) =
      (b.add c).toOption.bind fun u => (u.add a).toOption := by simp only [sum_comm a]
  have hdims : (agreed (1, 1) a.dims b.dims).bind (agreed (1, 1) · c.dims) =
      (agreed (1, 1) b.dims c.dims).bind (agreed (1, 1) · a.dims) := by
    rw [agreed_assoc]
    exact congrArg _ (funext (agreed_comm _ a.dims))
  rw [hcomm, toOption_add_add, toOption_add_add, hdims]
  simp only [add_rotate (a.spread _ _)]

end Mat

/-! ### Regrouped expressions -/

namespace Expr

/-- Both leaves stand for the same variable, or for equal constants of the same shape. -/
inductive SameLeaf : Expr → Expr → Prop
  | var {l m : Label} {c d : Declaration} (hid : l.id = m.id) (hshape : c.shape = d.shape) :
      SameLeaf (.var l c) (.var m d)
  | const {l m : Label} {v w : Value} (hrows : v.rows = w.rows) (hcols : v.cols = w.cols)
      (hentry : ∀ i j, Decimal.exact (v.entry i j) = Decimal.exact (w.entry i j)) :
      SameLeaf (.const l v) (.const m w)

/-- The expressions differ only in the brackets of sums, and in selections that pick the same
positions in the same order. -/
inductive Regrouped : Expr → Expr → Prop
  | assoc (l m l' m' : Label) (a b c : Expr) :
      Regrouped (.add l (.add m a b) c) (.add l' a (.add m' b c))
  | leaf {a b : Expr} (h : SameLeaf a b) : Regrouped a b
  | add (l m : Label) {a a' b b' : Expr} (ha : Regrouped a a') (hb : Regrouped b b') :
      Regrouped (.add l a b) (.add m a' b')
  | neg (l m : Label) {a a' : Expr} (ha : Regrouped a a') : Regrouped (.neg l a) (.neg m a')
  | mul (l m : Label) {k k' a a' : Expr} (hk : Regrouped k k') (ha : Regrouped a a') :
      Regrouped (.mul l k a) (.mul m k' a')
  | div (l m : Label) {a a' k k' : Expr} (ha : Regrouped a a') (hk : Regrouped k k') :
      Regrouped (.div l a k) (.div m a' k')
  | transpose (l m : Label) {a a' : Expr} (ha : Regrouped a a') :
      Regrouped (.transpose l a) (.transpose m a')
  | index (l m : Label) {a a' : Expr} {s t : Selection} (ha : Regrouped a a')
      (hs : s.SamePositions t) : Regrouped (.index l a s) (.index m a' t)
  | symm {a b : Expr} (h : Regrouped a b) : Regrouped b a
  | trans {a b c : Expr} (h : Regrouped a b) (k : Regrouped b c) : Regrouped a c

theorem Regrouped.refl (e : Expr) : Regrouped e e := by
  induction e with
  | var l d => exact .leaf (.var rfl rfl)
  | const l v => exact .leaf (.const rfl rfl fun _ _ => rfl)
  | add l a b iha ihb => exact .add l l iha ihb
  | neg l a iha => exact .neg l l iha
  | mul l k a ihk iha => exact .mul l l ihk iha
  | div l a k iha ihk => exact .div l l iha ihk
  | transpose l a iha => exact .transpose l l iha
  | index l a s iha => exact .index l l iha ⟨rfl, rfl⟩

/-! ### Shapes -/

/-- The shape that follows from the leaves, whatever is recorded at the nodes. -/
def derivedShape? : Expr → Option Shape
  | var _ d => some d.shape
  | const _ v => v.shape.toOption
  | add _ a b =>
    a.derivedShape?.bind fun s => b.derivedShape?.bind fun t => (s.broadcast t).toOption
  | mul _ k a => k.derivedShape?.bind fun s => a.derivedShape?.bind fun t => (s.times t).toOption
  | neg _ a | div _ a _ => a.derivedShape?
  | transpose _ a => a.derivedShape?.map Shape.transpose
  | index _ _ s => s.shape.toOption

theorem WellFormed.derivedShape?_eq {e : Expr} (he : e.WellFormed) :
    e.derivedShape? = some e.shape := by
  induction he with
  | @var l d hl =>
    have hs : (Expr.var l d).shape = d.shape := congrArg Attributes.shape hl
    rw [derivedShape?, hs]
  | const hshape hcurv hsign =>
    rw [derivedShape?, hshape]
    rfl
  | add ha hb hl iha ihb =>
    rw [derivedShape?, iha, ihb, Option.bind_some, Option.bind_some, shape_of_add hl]
    rfl
  | @neg l a ha hl iha =>
    have hs : (Expr.neg l a).shape = a.attributes.neg.shape := congrArg Attributes.shape hl
    rw [derivedShape?, iha, hs]
    rfl
  | mul hk ha hconst hl ihk iha =>
    rw [derivedShape?, ihk, iha, Option.bind_some, Option.bind_some, shape_of_mul hl]
    rfl
  | @div l a k ha hk hconst hscalar hl iha ihk =>
    have hs : (Expr.div l a k).shape = (a.attributes.div k.attributes).shape :=
      congrArg Attributes.shape hl
    rw [derivedShape?, iha, hs]
    rfl
  | @transpose l a ha hscalar hl iha =>
    have hs : (Expr.transpose l a).shape = a.shape.transpose := congrArg Attributes.shape hl
    rw [derivedShape?, iha, hs]
    rfl
  | @index l a s t ha hscalar hfits ht hl iha =>
    have hs : (Expr.index l a s).shape = t := congrArg Attributes.shape hl
    rw [derivedShape?, ht, hs]
    rfl

/-- Two bindings of three options may be nested either way. -/
theorem bind_assoc_of {α : Type} {op : α → α → Option α}
    (h : ∀ a b c, (op a b).bind (op · c) = (op b c).bind (op a)) (x y z : Option α) :
    ((x.bind fun a => y.bind fun b => op a b).bind fun u => z.bind fun c => op u c) =
      x.bind fun a => (y.bind fun b => z.bind fun c => op b c).bind fun u => op a u := by
  rcases x with _ | a
  · rfl
  rcases y with _ | b
  · rfl
  rcases z with _ | c
  · simp
  · exact h a b c

theorem Regrouped.derivedShape?_eq {e f : Expr} (h : e.Regrouped f) :
    e.derivedShape? = f.derivedShape? := by
  induction h with
  | assoc l m l' m' a b c => exact bind_assoc_of broadcast_assoc _ _ _
  | leaf h =>
    cases h with
    | var hid hshape => exact congrArg some hshape
    | const hrows hcols hentry =>
      simp only [derivedShape?, Value.shape, hrows, hcols]
  | add l m ha hb iha ihb => simp only [derivedShape?, iha, ihb]
  | neg l m ha iha => exact iha
  | mul l m hk ha ihk iha => simp only [derivedShape?, ihk, iha]
  | div l m ha hk iha ihk => exact iha
  | transpose l m ha iha => simp only [derivedShape?, iha]
  | index l m ha hs iha => simp only [derivedShape?, hs.shape]
  | symm h ih => exact ih.symm
  | trans h k ihh ihk => exact ihh.trans ihk

/-- Regrouped expressions have the same shape. -/
theorem Regrouped.shape_eq {e f : Expr} (h : e.Regrouped f) (he : e.WellFormed)
    (hf : f.WellFormed) : e.shape = f.shape :=
  Option.some.inj (he.derivedShape?_eq.symm.trans (h.derivedShape?_eq.trans hf.derivedShape?_eq))

/-! ### Values -/

variable {K : Type} [OrderedField K] {x : Assignment K}

theorem toOption_bind {ε α β : Type} (u : Except ε α) (f : α → Except ε β) :
    (u >>= f).toOption = u.toOption.bind fun a => (f a).toOption := by
  cases u <;> rfl

theorem SameLeaf.eval_eq {e f : Expr} (h : e.SameLeaf f) (x : Assignment K) :
    e.eval x = f.eval x := by
  cases h with
  | var hid hshape => rw [eval, eval, hid, hshape]
  | const hrows hcols hentry =>
    simp only [eval, Value.exact, hrows, hcols, hentry]

theorem Regrouped.toOption_eval_eq {e f : Expr} (h : e.Regrouped f) (x : Assignment K) :
    (e.eval x).toOption = (f.eval x).toOption := by
  induction h with
  | assoc l m l' m' a b c =>
    simp only [eval, toOption_bind]
    exact bind_assoc_of Mat.sum_assoc _ _ _
  | leaf h => rw [h.eval_eq]
  | add l m ha hb iha ihb => simp only [eval, toOption_bind, iha, ihb]
  | neg l m ha iha => simp only [eval, toOption_bind, iha]
  | mul l m hk ha ihk iha => simp only [eval, toOption_bind, ihk, iha]
  | div l m ha hk iha ihk => simp only [eval, toOption_bind, iha, ihk]
  | transpose l m ha iha => simp only [eval, toOption_bind, iha]
  | index l m ha hs iha => simp only [eval, toOption_bind, iha, hs.select]
  | symm h ih => exact ih.symm
  | trans h k ihh ihk => exact ihh.trans ihk

/-- Regrouped expressions have the same value, or both come upon a divisor that is zero. -/
theorem Regrouped.eval_eq {e f : Expr} (h : e.Regrouped f) (he : e.WellFormed)
    (hf : f.WellFormed) (x : Assignment K) : e.eval x = f.eval x := by
  have hoption := h.toOption_eval_eq x
  rcases he.eval_cases x with ⟨v, hv, -⟩ | hv <;> rcases hf.eval_cases x with ⟨w, hw, -⟩ | hw <;>
    rw [hv, hw] at hoption ⊢
  · rw [Option.some.inj hoption]
  · cases hoption
  · cases hoption

end Expr

end DisciplinedConvex
