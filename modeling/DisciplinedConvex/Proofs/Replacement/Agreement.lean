/-
DisciplinedConvex/Proofs/Replacement/Agreement.lean

Two computations side by side.

`Agree q x y` says that `x` and `y` fail with the same fault, or both give a result
and `q` relates the results.  `b.Agrees q b'` says so of two builds, whatever their
ledgers hold.  Like the operations they are about, agreements are put together in
sequence: one lemma for each primitive of builds, and `Agrees.bind`.
-/
import Mathlib.Data.List.Forall2
import DisciplinedConvex.Ledger

namespace DisciplinedConvex

/-! ### Results -/

/-- The same fault, or results that are related. -/
inductive Agree {ε α β : Type} (q : α → β → Prop) : Except ε α → Except ε β → Prop where
  | ok {a : α} {b : β} (h : q a b) : Agree q (.ok a) (.ok b)
  | error (f : ε) : Agree q (.error f) (.error f)

namespace Agree

variable {ε ε' α α' β β' : Type} {q : α → α' → Prop} {r : β → β' → Prop}

theorem of_eq {x : Except ε α} {y : Except ε α} (h : x = y) : Agree Eq x y := by
  subst h
  cases x with
  | ok a => exact .ok rfl
  | error f => exact .error f

theorem mono {p : α → α' → Prop} {x : Except ε α} {y : Except ε α'} (h : Agree p x y)
    (hq : ∀ a a', p a a' → q a a') : Agree q x y := by
  cases h with
  | ok h => exact .ok (hq _ _ h)
  | error f => exact .error f

theorem map {f : α → β} {g : α' → β'} {x : Except ε α} {y : Except ε α'} (h : Agree q x y)
    (hr : ∀ a a', q a a' → r (f a) (g a')) : Agree r (x.map f) (y.map g) := by
  cases h with
  | ok h => exact .ok (hr _ _ h)
  | error f => exact .error f

theorem mapError (f : ε → ε') {x : Except ε α} {y : Except ε α'} (h : Agree q x y) :
    Agree q (x.mapError f) (y.mapError f) := by
  cases h with
  | ok h => exact .ok h
  | error e => exact .error (f e)

theorem bind {f : α → Except ε β} {g : α' → Except ε β'} {x : Except ε α} {y : Except ε α'}
    (h : Agree q x y) (hr : ∀ a a', q a a' → Agree r (f a) (g a')) :
    Agree r (x >>= f) (y >>= g) := by
  cases h with
  | ok h => exact hr _ _ h
  | error f => exact .error f

/-- To look up the same places, one after the other. -/
theorem mapM {ι : Type} {f : ι → Except ε α} {g : ι → Except ε α'} (is : List ι)
    (h : ∀ i, Agree q (f i) (g i)) : Agree (List.Forall₂ q) (is.mapM f) (is.mapM g) := by
  induction is with
  | nil => exact .ok .nil
  | cons i is ih =>
    rw [List.mapM_cons, List.mapM_cons]
    exact (h i).bind fun a a' ha => ih.bind fun as as' has => .ok (.cons ha has)

end Agree

/-- Lists that are related item by item are so at each place. -/
theorem forall₂_getElem? {α α' : Type} {q : α → α' → Prop} {as : List α} {as' : List α'}
    (h : List.Forall₂ q as as') (n : ℕ) : Option.Rel q as[n]? as'[n]? := by
  induction h generalizing n with
  | nil => exact .none
  | cons ha _ ih =>
    cases n with
    | zero => exact .some ha
    | succ n => exact ih n

/-- Results at the same place of two lists that agree item by item. -/
theorem Agree.of_getElem? {ε α α' : Type} {q : α → α' → Prop} {xs : List (Except ε α)}
    {ys : List (Except ε α')} (h : List.Forall₂ (Agree q) xs ys) {n : ℕ} {a : α} {a' : α'}
    (ha : xs[n]? = some (.ok a)) (ha' : ys[n]? = some (.ok a')) : q a a' := by
  have hn := forall₂_getElem? h n
  rw [ha, ha'] at hn
  cases hn with
  | some hq =>
    cases hq with
    | ok hq => exact hq

/-! ### Builds -/

namespace Build

variable {α α' β β' : Type} {p q : α → α' → Prop} {r : β → β' → Prop} {b : Build α}
  {b' : Build α'}

/-- The builds fail with the same fault or give related results, whatever the ledgers hold. -/
def Agrees (b : Build α) (q : α → α' → Prop) (b' : Build α') : Prop :=
  ∀ l l', Agree q (b.perform l).1 (b'.perform l').1

theorem Agrees.mono (h : b.Agrees p b') (hq : ∀ a a', p a a' → q a a') : b.Agrees q b' :=
  fun l l' => (h l l').mono hq

theorem agrees_pure {a : α} {a' : α'} (h : q a a') :
    (pure a : Build α).Agrees q (pure a' : Build α') :=
  fun _ _ => .ok h

theorem agrees_throw (f : Fault) : (throw f : Build α).Agrees q (throw f : Build α') :=
  fun _ _ => .error f

/-- Sequencing: the second builds start from results of the first ones that are related. -/
theorem Agrees.bind {f : α → Build β} {f' : α' → Build β'} (h : b.Agrees q b')
    (hf : ∀ a a', q a a' → (f a).Agrees r (f' a')) : (b >>= f).Agrees r (b' >>= f') := by
  intro l l'
  have hb := h l l'
  rw [perform_bind, perform_bind]
  generalize b.perform l = s, b'.perform l' = s' at hb
  obtain ⟨x, l₁⟩ := s
  obtain ⟨y, l₁'⟩ := s'
  cases hb with
  | ok ha => exact hf _ _ ha l₁ l₁'
  | error f => exact .error f

theorem agrees_report (e e' : Event) : (report e).Agrees (fun _ _ => True) (report e') :=
  fun _ _ => .ok trivial

/-- Nodes are related if they are so with any numbers. -/
theorem agrees_node {a a' : Attributes} {make make' : Label → Expr} {q : Expr → Expr → Prop}
    (h : ∀ id id', q (make ⟨id, a⟩) (make' ⟨id', a'⟩)) : (node a make).Agrees q (node a' make') :=
  fun l l' => .ok (h l.next l'.next)

theorem agrees_freshId : freshId.Agrees (fun _ _ => True) freshId :=
  fun _ _ => .ok trivial

theorem agrees_check {x : Except Error α} {y : Except Error α'} (h : Agree q x y) :
    (check x).Agrees q (check y) := by
  intro l l'
  rw [perform_check, perform_check]
  exact h.mapError _

theorem agrees_attempt {x : Except Abort α} {y : Except Abort α'} (h : Agree q x y) :
    (attempt x).Agrees q (attempt y) := by
  intro l l'
  rw [perform_attempt, perform_attempt]
  exact h.mapError _

theorem Agrees.insist (h : b.Agrees q b') : b.insist.Agrees q b'.insist := by
  intro l l'
  rw [perform_insist, perform_insist]
  exact (h l l').mapError _

end Build

end DisciplinedConvex
