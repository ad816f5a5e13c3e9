/-
DisciplinedConvex/Proofs/Rendering/Leftward.lean

Texts from their end, and sums with their brackets to the left.

Read from its end the text of an operand begins with what tells the operand: a leaf,
`.T`, a bracket or a parenthesis (`Expr.backward`).  The brackets of sums are not
written, so they are all moved to the left first (`Expr.leftward`), which changes
neither the text nor the leaves and yields a regrouped expression
(`regrouped_leftward`, `backward_leftward`).
-/
import DisciplinedConvex.Proofs.Graph.Nodes
import DisciplinedConvex.Proofs.Rendering.Association
import DisciplinedConvex.Proofs.Rendering.Loop

namespace DisciplinedConvex.Expr

/-! ### Leaves -/

/-- The leaves, from left to right. -/
def leaves : Expr → List Expr
  | var l d => [var l d]
  | const l v => [const l v]
  | add _ a b | mul _ a b | div _ a b => a.leaves ++ b.leaves
  | neg _ a | transpose _ a | index _ a _ => a.leaves

theorem leaves_child {e a : Expr} (ha : a ∈ e.children) : a.leaves ⊆ e.leaves := by
  cases e <;> simp_all [children, leaves]
  all_goals rcases ha with rfl | rfl <;> simp

theorem leaves_of_leafText {e : Expr} {w : String} (h : e.leafText? = some w) :
    e.leaves = [e] := by
  cases e <;> first | rfl | cases h

/-- The characters that may stand next to a leaf or in its place. -/
def delimiters : List Char := [' ', '-', '(', ')', '.', ']']

/-- The text is not empty and has no delimiters, as a text of letters, digits and underscores. -/
def IsWord (w : String) : Prop := w ≠ "" ∧ ∀ c ∈ w.toList, c ∉ delimiters

theorem isWord_of_alphanumeric {w : String} (hw : w ≠ "")
    (h : ∀ c ∈ w.toList, c.isAlphanum = true ∨ c = '_') : IsWord w := by
  refine ⟨hw, fun c hc hmem => ?_⟩
  simp only [delimiters, List.mem_cons, List.not_mem_nil, or_false] at hmem
  rcases hmem with rfl | rfl | rfl | rfl | rfl | rfl <;> rcases h _ hc with h | h <;> cases h

/-- Leaves with the same text are the same. -/
def AgreeOnLeaves (e f : Expr) : Prop :=
  ∀ m ∈ e.leaves, ∀ n ∈ f.leaves, m.leafText? = n.leafText? → m.SameLeaf n

/-! ### Sums to the left -/

def isSum : Expr → Bool
  | add .. => true
  | _ => false

/-- A sum of which the brackets on the right are moved to the left. -/
def joined (a : Expr) : Expr → Expr
  | add l b c => add l (joined a b) c
  | b => add b.label a b

/-- The same sums with all of their brackets to the left. -/
def leftward : Expr → Expr
  | var l d => var l d
  | const l v => const l v
  | add _ a b => joined a.leftward b.leftward
  | neg l a => neg l a.leftward
  | mul l a b => mul l a.leftward b.leftward
  | div l a b => div l a.leftward b.leftward
  | transpose l a => transpose l a.leftward
  | index l a s => index l a.leftward s

theorem regrouped_joined (l : Label) (a b : Expr) : Regrouped (add l a b) (joined a b) := by
  induction b generalizing l with
  | add m b c ihb ihc =>
    -- the brackets on the right are moved, and then those inside of them
    exact .trans (.symm (.assoc m l l m a b c)) (.add m m (ihb l) (.refl c))
  | _ => exact .add l _ (.refl a) (.refl _)

theorem regrouped_leftward (e : Expr) : Regrouped e e.leftward := by
  induction e with
  | var l d => exact .refl _
  | const l v => exact .refl _
  | add l a b iha ihb => exact .trans (.add l l iha ihb) (regrouped_joined l _ _)
  | neg l a iha => exact .neg l l iha
  | mul l a b iha ihb => exact .mul l l iha ihb
  | div l a b iha ihb => exact .div l l iha ihb
  | transpose l a iha => exact .transpose l l iha
  | index l a s iha => exact .index l l iha ⟨rfl, rfl⟩

theorem leaves_joined (a b : Expr) : (joined a b).leaves = a.leaves ++ b.leaves := by
  induction b with
  | add l b c ihb ihc => rw [joined, leaves, ihb, List.append_assoc, leaves]
  | _ => rfl

theorem leaves_leftward (e : Expr) : e.leftward.leaves = e.leaves := by
  induction e with
  | add l a b iha ihb => rw [leftward, leaves_joined, iha, ihb, leaves]
  | _ => simp_all [leftward, leaves]

/-! ### Texts from their end -/

/-- The text from its last character to its first. -/
def backward (e : Expr) (isOperand : Bool) : List Char := (e.rendered isOperand).toList.reverse

variable {l : Label} {a b e : Expr}

theorem backward_of_leaf {w : String} (h : e.leafText? = some w) (isOperand : Bool) :
    e.backward isOperand = w.toList.reverse := by
  cases e <;> cases h <;> simp [backward, rendered]

theorem rendered_true (e : Expr) :
    e.rendered true =
      if e.isCompound then "(" ++ e.rendered false ++ ")" else e.rendered false := by
  cases e <;> rfl

theorem backward_of_isCompound (h : e.isCompound = true) :
    e.backward true = ')' :: (e.backward false ++ ['(']) := by
  simp [backward, rendered_true, h]

theorem backward_of_not_isCompound (h : e.isCompound = false) :
    e.backward true = e.backward false := by
  simp [backward, rendered_true, h]

theorem backward_transpose (isOperand : Bool) :
    (transpose l a).backward isOperand = 'T' :: '.' :: a.backward true := by
  simp [backward, rendered]

theorem backward_index (s : Selection) (isOperand : Bool) :
    (index l a s).backward isOperand = ']' :: (s.inside.reverse ++ '[' :: a.backward true) := by
  simp [backward, rendered, Selection.toList_text]

theorem backward_add :
    (add l a b).backward false = b.backward false ++ ' ' :: '+' :: ' ' :: a.backward false := by
  simp [backward, rendered, enclosed]

theorem backward_neg : (neg l a).backward false = a.backward true ++ ['-'] := by
  simp [backward, rendered, enclosed]

theorem backward_mul :
    (mul l a b).backward false = b.backward true ++ ' ' :: '*' :: ' ' :: a.backward true := by
  simp [backward, rendered, enclosed]

theorem backward_div :
    (div l a b).backward false = b.backward true ++ ' ' :: '/' :: ' ' :: a.backward true := by
  simp [backward, rendered, enclosed]

theorem backward_joined (a b : Expr) :
    (joined a b).backward false = b.backward false ++ ' ' :: '+' :: ' ' :: a.backward false := by
  induction b with
  | add l b c ihb ihc => rw [joined, backward_add, ihb, backward_add]; simp
  | _ => exact backward_add

theorem backward_leftward (e : Expr) (isOperand : Bool) :
    e.leftward.backward isOperand = e.backward isOperand := by
  have hcompound (a : Expr) : a.leftward.isCompound = a.isCompound := by
    cases a with
    | add l a b => rw [leftward]; cases b.leftward <;> rfl
    | _ => rfl
  -- with parentheses if it holds without
  have hoperand {a : Expr} (h : a.leftward.backward false = a.backward false) (isOperand : Bool) :
      a.leftward.backward isOperand = a.backward isOperand := by
    rcases isOperand with _ | _
    · exact h
    rcases ha : a.isCompound
    · rw [backward_of_not_isCompound ha, backward_of_not_isCompound ((hcompound a).trans ha), h]
    · rw [backward_of_isCompound ha, backward_of_isCompound ((hcompound a).trans ha), h]
  refine hoperand ?_ isOperand
  induction e with
  | var l d => rfl
  | const l v => rfl
  | add l a b iha ihb => rw [leftward, backward_joined, iha, ihb, backward_add]
  | neg l a iha => rw [leftward, backward_neg, hoperand iha, backward_neg]
  | mul l a b iha ihb => rw [leftward, backward_mul, hoperand iha, hoperand ihb, backward_mul]
  | div l a b iha ihb => rw [leftward, backward_div, hoperand iha, hoperand ihb, backward_div]
  | transpose l a iha => rw [leftward, backward_transpose, hoperand iha, backward_transpose]
  | index l a s iha => rw [leftward, backward_index, hoperand iha, backward_index]

end DisciplinedConvex.Expr
