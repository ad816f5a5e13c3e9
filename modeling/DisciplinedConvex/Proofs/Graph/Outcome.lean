/-
DisciplinedConvex/Proofs/Graph/Outcome.lean

What a build results in, whatever the ledger holds.

`b.Yields q` says that every result of `b` is as `q` states; a build that fails
has no result.  One lemma for each primitive of builds, and one for sequencing,
so that a builder is taken apart in the order in which it is written.
-/
import DisciplinedConvex.Ledger

namespace DisciplinedConvex.Build

variable {α β : Type} {p q : α → Prop} {r : β → Prop}

/-- Every result of the build is as stated. -/
def Yields (b : Build α) (q : α → Prop) : Prop :=
  ∀ l a l', b.perform l = (.ok a, l') → q a

theorem Yields.mono {b : Build α} (hb : b.Yields p) (h : ∀ a, p a → q a) : b.Yields q :=
  fun l a l' hl => h a (hb l a l' hl)

theorem yields_pure {a : α} (h : q a) : (pure a : Build α).Yields q := by
  intro l b l' hl
  rw [perform_pure] at hl
  cases hl
  exact h

theorem yields_throw (f : Fault) : (throw f : Build α).Yields q := by
  intro l a l' hl
  rw [perform_throw] at hl
  cases hl

/-- Sequencing: what the first build yields is what the second one starts from. -/
theorem Yields.bind {b : Build α} {f : α → Build β} (hb : b.Yields p)
    (hf : ∀ a, p a → (f a).Yields r) : (b >>= f).Yields r := by
  intro l c l' hl
  rw [perform_bind] at hl
  split at hl
  · rename_i a l₁ ha
    exact hf a (hb l a l₁ ha) l₁ c l' hl
  · cases hl

theorem yields_report (e : Event) : (report e).Yields fun _ => True :=
  fun _ _ _ _ => trivial

/-- A node is as stated if it is so with every number. -/
theorem yields_node {a : Attributes} {make : Label → Expr} {q : Expr → Prop}
    (h : ∀ id, q (make ⟨id, a⟩)) : (node a make).Yields q := by
  intro l e l' hl
  rw [perform_node] at hl
  cases hl
  exact h l.next

theorem yields_freshId : freshId.Yields fun _ => True :=
  fun _ _ _ _ => trivial

theorem yields_check (x : Except Error α) : (check x).Yields fun a => x = .ok a := by
  intro l a l' hl
  rw [perform_check] at hl
  cases x with
  | error e => cases hl
  | ok b => cases hl; rfl

theorem yields_attempt (x : Except Abort α) : (attempt x).Yields fun a => x = .ok a := by
  intro l a l' hl
  rw [perform_attempt] at hl
  cases x with
  | error e => cases hl
  | ok b => cases hl; rfl

theorem Yields.insist {b : Build α} (hb : b.Yields q) : b.insist.Yields q := by
  intro l a l' hl
  rw [perform_insist] at hl
  rcases hr : b.perform l with ⟨_ | a', l₁⟩
  · rw [hr] at hl
    cases hl
  · rw [hr] at hl
    cases hl
    exact hb l a _ hr

end DisciplinedConvex.Build
