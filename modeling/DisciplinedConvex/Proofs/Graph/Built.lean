/-
DisciplinedConvex/Proofs/Graph/Built.lean

The nodes that a build makes.

`Ledger.nodes` lists the nodes that a ledger accounts for, and `Ledger.Gains` says
which ones are new in a later ledger, one after another and numbered as they come.
What is gained in turn adds up (`Gains.trans`).  A transpose, a product with the
constant factor on the left and a selection are one node each, and nothing at all
where a scalar stands for itself.
-/
import DisciplinedConvex.Build.Arithmetic
import DisciplinedConvex.Proofs.Indexing.Slice

namespace DisciplinedConvex

/-- The nodes that were built, the oldest first. -/
def Ledger.nodes (l : Ledger) : List Expr := l.events.toList.filterMap Event.node?

/-- The events that are reported so loud, the oldest first. -/
def Ledger.eventsAt (l : Ledger) (v : Level) : List Event := l.events.toList.filter (·.level = v)

/-- From the first ledger to the second exactly these nodes were built, in this order, and numbers
were spent on nothing else. -/
structure Ledger.Gains (l : Ledger) (built : List Expr) (l' : Ledger) : Prop where
  nodes : l'.nodes = l.nodes ++ built
  ids : built.map Expr.id = List.range' l.next built.length
  next : l'.next = l.next + built.length

namespace Ledger

variable {l l₁ l₂ : Ledger} {xs ys : List Expr}

theorem gains_nil (l : Ledger) : l.Gains [] l := ⟨by simp, rfl, rfl⟩

theorem Gains.trans (h : l.Gains xs l₁) (k : l₁.Gains ys l₂) : l.Gains (xs ++ ys) l₂ := by
  refine ⟨?_, ?_, ?_⟩
  · rw [k.nodes, h.nodes, List.append_assoc]
  · rw [List.map_append, h.ids, k.ids, h.next, List.length_append, List.range'_append_1]
  · rw [k.next, h.next, List.length_append, Nat.add_assoc]

/-- An event that is no node changes nothing in what was built. -/
theorem gains_report {e : Event} (he : e.node? = none) (l : Ledger) : l.Gains [] (l.report e) := by
  refine ⟨?_, rfl, rfl⟩
  simp [nodes, he]

/-- A node spends a number and is the one thing built. -/
theorem gains_node {e : Expr} (he : e.id = l.next) : l.Gains [e] (l.spend.report (.built e)) := by
  refine ⟨?_, ?_, rfl⟩
  · simp [nodes, Event.node?]
  · simp [he]

end Ledger

/-! ### Transposes -/

/-- What stands for the transpose of an expression, and the nodes that are built for it: a scalar
stands for its own. -/
inductive Expr.Transposes (a : Expr) : Expr → List Expr → Prop
  | scalar (h : a.isScalar = true) : Transposes a a []
  | matrix (h : a.isScalar = false) (id : ℕ) :
      Transposes a (.transpose ⟨id, a.attributes.transpose⟩ a)
        [.transpose ⟨id, a.attributes.transpose⟩ a]

theorem Expr.Transposes.attributes {a t : Expr} {built : List Expr} (h : a.Transposes t built) :
    t.attributes = a.attributes.transpose := by
  cases h with
  | matrix hs id => rfl
  | scalar hs =>
    have hshape : a.attributes.shape = .scalar := (Shape.isScalar_iff _).1 hs
    have htr : a.attributes.shape.transpose = a.attributes.shape := by
      rw [hshape]
      rfl
    show a.attributes = { a.attributes with shape := a.attributes.shape.transpose }
    rw [htr]

namespace Build

/-- Transposing never fails. -/
theorem perform_transposed (a : Expr) (l : Ledger) :
    ∃ t built l', (transposed a).perform l = (.ok t, l') ∧ a.Transposes t built ∧
      l.Gains built l' := by
  unfold transposed
  split
  · rename_i hs
    exact ⟨a, [], l, rfl, .scalar hs, l.gains_nil⟩
  · rename_i hs
    exact ⟨_, _, _, rfl, .matrix (Bool.eq_false_iff.2 hs) l.next, Ledger.gains_node rfl⟩

/-- A product with the constant factor on the left is one node. -/
theorem perform_scaled {k a : Expr} {attributes : Attributes}
    (h : k.attributes.mul a.attributes = .ok attributes) (l : Ledger) :
    ∃ l', (scaled k a).perform l = (.ok (.mul ⟨l.next, attributes⟩ k a), l') ∧
      l.Gains [.mul ⟨l.next, attributes⟩ k a] l' := by
  refine ⟨_, ?_, Ledger.gains_node rfl⟩
  rw [scaled, perform_bind, perform_check, h]
  rfl

theorem perform_scaled_of_error {k a : Expr} {err : Error}
    (h : k.shape.times a.shape = .error err) (l : Ledger) :
    (scaled k a).perform l = (.error (.rejected err), l) := by
  have hattr : k.attributes.mul a.attributes = .error err := by
    unfold Attributes.mul
    rw [show k.attributes.shape.times a.attributes.shape = .error err from h]
    rfl
  rw [scaled, perform_bind, perform_check, hattr]
  rfl

/-! ### Selections -/

/-- A selection with a shape is one node. -/
theorem perform_selected {a : Expr} {s : Selection} {t : Shape} (ht : s.shape = .ok t)
    (l : Ledger) :
    ∃ l', (selected a s).perform l = (.ok (.index ⟨l.next, a.attributes.select t⟩ a s), l') ∧
      l.Gains [.index ⟨l.next, a.attributes.select t⟩ a s] l' := by
  refine ⟨_, ?_, Ledger.gains_node rfl⟩
  rw [selected, perform_bind, perform_attempt, ht]
  rfl

/-- What a key resolves to always has a shape, so nothing else can fail. -/
theorem perform_indexed {a : Expr} (ha : a.isScalar = false) {key : Key} {s : Selection}
    (hs : key.resolve a.shape = .ok s) (l : Ledger) :
    ∃ t l', s.shape = .ok t ∧
      (indexed a key).perform l = (.ok (.index ⟨l.next, a.attributes.select t⟩ a s), l') ∧
      l.Gains [.index ⟨l.next, a.attributes.select t⟩ a s] l' := by
  obtain ⟨t, ht⟩ := (Key.resolve_fits hs).shape_ok
  obtain ⟨l', hl', hgains⟩ := perform_selected (a := a) ht l
  refine ⟨t, l', ht, ?_, hgains⟩
  rw [indexed, if_neg (Bool.eq_false_iff.1 ha), perform_bind, perform_check, hs]
  exact hl'

theorem perform_indexed_of_error {a : Expr} (ha : a.isScalar = false) {key : Key} {err : Error}
    (h : key.resolve a.shape = .error err) (l : Ledger) :
    (indexed a key).perform l = (.error (.rejected err), l) := by
  rw [indexed, if_neg (Bool.eq_false_iff.1 ha), perform_bind, perform_check, h]
  rfl

/-- What indexing builds is what its key resolves to. -/
theorem indexed_eq_ok_iff {a b : Expr} (ha : a.isScalar = false) {key : Key} {l : Ledger} :
    ((indexed a key).perform l).1 = .ok b ↔ ∃ s t, key.resolve a.shape = .ok s ∧
      s.shape = .ok t ∧ b = .index ⟨l.next, a.attributes.select t⟩ a s := by
  rcases hkey : key.resolve a.shape with e | s
  · rw [perform_indexed_of_error ha hkey]
    exact iff_of_false nofun fun ⟨_, _, h, _⟩ => nomatch h
  · obtain ⟨t, l', ht, hl', -⟩ := perform_indexed ha hkey l
    rw [hl']
    constructor
    · intro h
      exact ⟨s, t, rfl, ht, (Except.ok.inj h).symm⟩
    · rintro ⟨s', t', hs', ht', rfl⟩
      obtain rfl := Except.ok.inj hs'
      obtain rfl := Except.ok.inj (ht.symm.trans ht')
      rfl

theorem exists_indexed_iff {a : Expr} (ha : a.isScalar = false) {key : Key} {l : Ledger} :
    (∃ b, ((indexed a key).perform l).1 = .ok b) ↔ ∃ s, key.resolve a.shape = .ok s := by
  constructor
  · rintro ⟨b, hb⟩
    obtain ⟨s, t, hs, -, -⟩ := (indexed_eq_ok_iff ha).1 hb
    exact ⟨s, hs⟩
  · rintro ⟨s, hs⟩
    obtain ⟨t, l', -, hl', -⟩ := perform_indexed ha hs l
    exact ⟨_, congrArg Prod.fst hl'⟩

end Build

end DisciplinedConvex
