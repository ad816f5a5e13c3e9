/-
DisciplinedConvex/Proofs/Renumbering/Build.lean

Builds from a ledger with all numbers raised.

`b.Shifts c f b'` says that `b'`, from a ledger with its numbers raised by `c`, comes to
the ledger that `b` comes to, with its numbers raised, and fails with the same fault or
has the result of `b` under `f`.  One lemma for each primitive of builds, and one for
sequencing.  A builder asks of its operands for attributes only, which have no numbers;
so it builds from raised operands the same nodes with raised numbers.
-/
import DisciplinedConvex.Build.Comparison
import DisciplinedConvex.Build.Entries
import DisciplinedConvex.Build.Leaf
import DisciplinedConvex.Proofs.Renumbering.Shift

namespace DisciplinedConvex

variable {c : ℕ}

/-! ### Ledgers -/

/-- The event with all numbers raised. -/
def Event.shift (c : ℕ) : Event → Event
  | built e => built (e.shift c)
  | factorMoved s t => factorMoved s t
  | zeroDivisor e => zeroDivisor (e.shift c)
  | constrained k => constrained (k.shift c)
  | checked n => checked n

namespace Ledger

/-- The ledger with all numbers raised, also the one that comes next. -/
def shift (c : ℕ) (l : Ledger) : Ledger where
  next := l.next + c
  events := l.events.map (Event.shift c)

theorem shift_report (l : Ledger) (e : Event) :
    (l.report e).shift c = (l.shift c).report (e.shift c) := by
  rw [shift, report, Array.map_push]
  rfl

theorem shift_spend (l : Ledger) : l.spend.shift c = (l.shift c).spend := by
  rw [shift, spend, Nat.add_right_comm]
  rfl

end Ledger

/-! ### Builds side by side -/

namespace Build

variable {α α' β β' : Type} {f : α → α'} {g : β → β'}

/-- From raised ledgers the second build does what the first one does, with raised numbers. -/
def Shifts (c : ℕ) (b : Build α) (f : α → α') (b' : Build α') : Prop :=
  ∀ l, b'.perform (l.shift c) = ((b.perform l).1.map f, (b.perform l).2.shift c)

theorem shifts_pure (a : α) (f : α → α') : Shifts c (pure a) f (pure (f a)) :=
  fun _ => rfl

theorem shifts_throw (e : Fault) (f : α → α') : Shifts c (throw e) f (throw e) :=
  fun _ => rfl

/-- Sequencing: the second builds start from a result and from what it is with raised numbers. -/
theorem Shifts.bind {b : Build α} {b' : Build α'} {k : α → Build β} {k' : α' → Build β'}
    (h : Shifts c b f b') (hk : ∀ a, Shifts c (k a) g (k' (f a))) :
    Shifts c (b >>= k) g (b' >>= k') := by
  intro l
  rw [perform_bind, perform_bind, h l]
  rcases b.perform l with ⟨e | a, l₁⟩
  · rfl
  · exact hk a l₁

/-- Either branch of a condition that the numbers have no part in. -/
theorem Shifts.ite {p : Prop} [Decidable p] {b d : Build α} {b' d' : Build α'}
    (hb : Shifts c b f b') (hd : Shifts c d f d') :
    Shifts c (if p then b else d) f (if p then b' else d') := by
  split
  · exact hb
  · exact hd

theorem shifts_report (e : Event) : Shifts c (report e) id (report (e.shift c)) := by
  intro l
  rw [perform_report, perform_report, Ledger.shift_report]
  rfl

/-- The numbers differ by as much as the next numbers do. -/
theorem shifts_node {a : Attributes} {make make' : Label → Expr}
    (h : ∀ i, make' ⟨i + c, a⟩ = (make ⟨i, a⟩).shift c) :
    Shifts c (node a make) (Expr.shift c) (node a make') := by
  intro l
  have hmake : make' ⟨(l.shift c).next, a⟩ = (make ⟨l.next, a⟩).shift c := h l.next
  rw [perform_node, perform_node, hmake, Ledger.shift_report, Ledger.shift_spend]
  rfl

theorem shifts_freshId : Shifts c freshId (· + c) freshId := by
  intro l
  rw [perform_freshId, perform_freshId, Ledger.shift_spend]
  rfl

/-- What has no part in the ledger. -/
theorem shifts_of_perform {b : Build α} {x : Except Fault α} (h : ∀ l, b.perform l = (x, l)) :
    Shifts c b id b := by
  intro l
  rw [h, h]
  cases x <;> rfl

theorem shifts_check (x : Except Error α) : Shifts c (check x) id (check x) :=
  shifts_of_perform (perform_check x)

theorem shifts_attempt (x : Except Abort α) : Shifts c (attempt x) id (attempt x) :=
  shifts_of_perform (perform_attempt x)

theorem Shifts.insist {b : Build α} {b' : Build α'} (h : Shifts c b f b') :
    Shifts c b.insist f b'.insist := by
  intro l
  rw [perform_insist, perform_insist, h l]
  rcases (b.perform l).1 with e | a <;> rfl

/-! ### Leaves -/

theorem newVariable_shifts (rows cols : UInt64) (name : Option String) (bounds : List Bound) :
    Shifts c (newVariable rows cols name bounds) (Expr.shift c)
      (newVariable rows cols name bounds) :=
  (shifts_check _).bind fun _ => shifts_node fun _ => rfl

theorem constant_shifts (v : Value) : Shifts c (constant v) (Expr.shift c) (constant v) :=
  (shifts_check _).bind fun _ => shifts_node fun _ => rfl

theorem filled_shifts (rows cols : UInt64) (x : Float) :
    Shifts c (filled rows cols x) (Expr.shift c) (filled rows cols x) :=
  (shifts_check _).bind fun _ => (constant_shifts _).ite (constant_shifts _)

theorem identity_shifts (n : UInt64) : Shifts c (identity n) (Expr.shift c) (identity n) :=
  constant_shifts _

/-! ### Operations -/

theorem sum_shifts (a b : Expr) :
    Shifts c (sum a b) (Expr.shift c) (sum (a.shift c) (b.shift c)) := by
  unfold sum
  rw [a.attributes_shift, b.attributes_shift]
  exact (shifts_check _).bind fun _ => shifts_node fun _ => rfl

theorem negation_shifts (a : Expr) :
    Shifts c (negation a) (Expr.shift c) (negation (a.shift c)) := by
  unfold negation
  rw [a.attributes_shift]
  exact shifts_node fun _ => rfl

theorem difference_shifts (a b : Expr) :
    Shifts c (difference a b) (Expr.shift c) (difference (a.shift c) (b.shift c)) :=
  (negation_shifts b).bind fun d => sum_shifts a d

theorem transposed_shifts (a : Expr) :
    Shifts c (transposed a) (Expr.shift c) (transposed (a.shift c)) := by
  unfold transposed
  rw [a.isScalar_shift, a.attributes_shift]
  exact (shifts_pure a _).ite (shifts_node fun _ => rfl)

theorem scaled_shifts (k a : Expr) :
    Shifts c (scaled k a) (Expr.shift c) (scaled (k.shift c) (a.shift c)) := by
  unfold scaled
  rw [k.attributes_shift, a.attributes_shift]
  exact (shifts_check _).bind fun _ => shifts_node fun _ => rfl

theorem product_shifts (a b : Expr) :
    Shifts c (product a b) (Expr.shift c) (product (a.shift c) (b.shift c)) := by
  unfold product
  rw [a.isConstant_shift, b.isConstant_shift, a.shape_shift, b.shape_shift]
  refine (scaled_shifts a b).ite (Shifts.ite ?_ (shifts_throw _ _))
  -- the factors change places
  refine (shifts_check _).bind fun _ => (shifts_report (.factorMoved _ _)).bind fun _ => ?_
  refine (transposed_shifts b).bind fun k => (transposed_shifts a).bind fun x => ?_
  exact (scaled_shifts k x).bind fun p => transposed_shifts p

theorem quotient_shifts (a k : Expr) :
    Shifts c (quotient a k) (Expr.shift c) (quotient (a.shift c) (k.shift c)) := by
  have hnode : Shifts c (node (a.attributes.div k.attributes) (.div · a k)) (Expr.shift c)
      (node (a.attributes.div k.attributes) (.div · (a.shift c) (k.shift c))) :=
    shifts_node fun _ => rfl
  unfold quotient
  rw [k.isConstant_shift, k.isScalar_shift, k.isZero_shift, a.attributes_shift, k.attributes_shift]
  refine Shifts.ite (Shifts.ite ?_ ?_) (shifts_throw _ _)
  · exact (shifts_report (.zeroDivisor k)).bind fun _ => hnode
  · exact hnode

theorem selected_shifts (a : Expr) (s : Selection) :
    Shifts c (selected a s) (Expr.shift c) (selected (a.shift c) s) := by
  unfold selected
  rw [a.attributes_shift]
  exact (shifts_attempt _).bind fun _ => shifts_node fun _ => rfl

theorem indexed_shifts (a : Expr) (key : Key) :
    Shifts c (indexed a key) (Expr.shift c) (indexed (a.shift c) key) := by
  unfold indexed
  rw [a.isScalar_shift, a.shape_shift]
  exact (shifts_pure a _).ite ((shifts_check _).bind fun s => selected_shifts a s)

theorem entry_shifts (a : Expr) (row col : UInt64) :
    Shifts c (entry a row col) (Expr.shift c) (entry (a.shift c) row col) := by
  unfold entry
  rw [a.isScalar_shift]
  exact (shifts_pure a _).ite (selected_shifts a _)

theorem operation_shifts (op : Operation) (a b : Expr) :
    Shifts c (op.apply a b) (Expr.shift c) (op.apply (a.shift c) (b.shift c)) := by
  cases op with
  | sum => exact sum_shifts a b
  | difference => exact difference_shifts a b
  | product => exact product_shifts a b
  | quotient => exact quotient_shifts a b

/-! ### Constraints and problems -/

theorem constraint_shifts (kind : ConstraintKind) (a b : Expr) :
    Shifts c (constraint kind a b) (Constraint.shift c)
      (constraint kind (a.shift c) (b.shift c)) := by
  refine (difference_shifts a b).bind fun r => ?_
  exact (shifts_report (.constrained ⟨kind, a, b, r⟩)).bind fun _ =>
    shifts_pure (⟨kind, a, b, r⟩ : Constraint) _

theorem asMinimization_shifts (o : Objective) :
    Shifts c (asMinimization o) (Expr.shift c) (asMinimization (o.shift c)) := by
  obtain ⟨sense, e⟩ := o
  cases sense with
  | minimize => exact shifts_pure e _
  | maximize => exact negation_shifts e

theorem verdict_shifts (p : Problem) :
    Shifts c (verdict p) (fun _ => (p.shift c).verdict) (verdict (p.shift c)) := by
  have hlength : (p.shift c).constraints.length = p.constraints.length := List.length_map _
  unfold verdict
  rw [hlength]
  exact (shifts_report (.checked _)).bind fun _ => shifts_pure p.verdict _

end Build

/-! ### Entries one by one -/

namespace Entries

open Build

/-- The pass over the expression with all numbers raised. -/
def shift (c : ℕ) (p : Entries) : Entries := { p with expr := p.expr.shift c }

theorem ofExpr_shift (e : Expr) : ofExpr (e.shift c) = (ofExpr e).shift c := by
  rw [ofExpr, e.shape_shift]
  rfl

theorem build_shifts (p : Entries) : Shifts c p.build (Expr.shift c) (p.shift c).build := by
  have hshape : (p.shift c).expr.shape = p.expr.shape := p.expr.shape_shift
  unfold build
  rw [hshape]
  exact entry_shifts p.expr _ _

theorem take_shifts (n : ℕ) (p : Entries) :
    Shifts c (p.take n) (Prod.map (List.map (Expr.shift c)) (shift c)) ((p.shift c).take n) := by
  induction n generalizing p with
  | zero => exact shifts_pure ([], p) _
  | succ n ih =>
    unfold take
    refine (shifts_pure ([], p) _).ite ?_
    refine p.build_shifts.bind fun e => (ih p.advance).bind fun r => ?_
    exact shifts_pure (e :: r.1, r.2) _

theorem nth?_shifts (n : ℕ) (p : Entries) :
    Shifts c (p.nth? n) (Option.map (Expr.shift c)) ((p.shift c).nth? n) := by
  refine (take_shifts (n + 1) p).bind fun r => ?_
  have hentry : (r.1.map (Expr.shift c))[n]? = r.1[n]?.map (Expr.shift c) := List.getElem?_map ..
  show Shifts c (pure r.1[n]?) _ (pure (r.1.map (Expr.shift c))[n]?)
  rw [hentry]
  exact shifts_pure r.1[n]? _

end Entries

end DisciplinedConvex
