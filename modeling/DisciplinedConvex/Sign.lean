/-
DisciplinedConvex/Sign.lean

The sign of an expression: one mark for all entries of its value.

`nonneg` and `nonpos` are not strict, so a value whose entries are all zero is
also of either sign; `unknown` promises nothing.  The order by promise is

    zero < nonneg, nonpos < unknown

and `add` is the least upper bound of that order (`add_comm`, `add_assoc`,
`add_self`, `le_iff_add_eq`).
-/

namespace DisciplinedConvex

/-- What is known of the sign of every entry. -/
inductive Sign where
  /-- Every entry is zero. -/
  | zero
  /-- Every entry is at least zero. -/
  | nonneg
  /-- Every entry is at most zero. -/
  | nonpos
  /-- Nothing is known. -/
  | unknown
deriving DecidableEq, Repr, Inhabited

namespace Sign

/-- Every sign, from the most to the least informative. -/
def all : List Sign := [zero, nonneg, nonpos, unknown]

theorem mem_all (s : Sign) : s ∈ all := by
  cases s <;> decide

/-- Known to be zero everywhere. -/
def isZero (s : Sign) : Bool := s == zero

/-- Known to be at least zero everywhere; zero counts. -/
def isNonneg : Sign → Bool
  | nonneg | zero => true
  | nonpos | unknown => false

/-- Known to be at most zero everywhere; zero counts. -/
def isNonpos : Sign → Bool
  | nonpos | zero => true
  | nonneg | unknown => false

/-- The sign that two bounds leave, where each bound holds of every entry or of not every entry. -/
def ofBounds (atLeastZero atMostZero : Bool) : Sign :=
  match atLeastZero, atMostZero with
  | true, true => zero
  | true, false => nonneg
  | false, true => nonpos
  | false, false => unknown

/-! ### Arithmetic -/

/-- The sign of `-a`. -/
def neg : Sign → Sign
  | nonneg => nonpos
  | nonpos => nonneg
  | s => s

/-- The sign of `1 / a`.  Zero has no reciprocal, so nothing is known of it. -/
def reciprocal (s : Sign) : Sign :=
  if s.isZero then unknown else s

/-- The sign of `a + b`. -/
def add : Sign → Sign → Sign
  | zero, s | s, zero => s
  | a, b => if a = b then a else unknown

/-- The sign of `a * b`.  A zero factor makes the product zero, whatever the other factor is. -/
def mul : Sign → Sign → Sign
  | zero, _ | _, zero => zero
  | unknown, _ | _, unknown => unknown
  | a, b => if a = b then nonneg else nonpos

instance : Neg Sign := ⟨neg⟩
instance : Add Sign := ⟨add⟩
instance : Mul Sign := ⟨mul⟩

/-! ### Texts -/

/-- The sign as it stands in reports. -/
def label : Sign → String
  | zero => "ZERO"
  | nonneg => "POSITIVE"
  | nonpos => "NEGATIVE"
  | unknown => "UNKNOWN"

/-- The sign as it stands among the fields of an inspected value. -/
def inspect : Sign → String
  | zero => "Zero"
  | nonneg => "Positive"
  | nonpos => "Negative"
  | unknown => "Unknown"

instance : ToString Sign := ⟨label⟩

/-! ### Laws -/

@[simp] theorem add_self (a : Sign) : add a a = a := by
  cases a <;> rfl

theorem add_comm (a b : Sign) : add a b = add b a := by
  cases a <;> cases b <;> rfl

theorem add_assoc (a b c : Sign) : add (add a b) c = add a (add b c) := by
  cases a <;> cases b <;> cases c <;> rfl

theorem mul_comm (a b : Sign) : mul a b = mul b a := by
  cases a <;> cases b <;> rfl

theorem isNonneg_neg (a : Sign) : a.neg.isNonneg = a.isNonpos := by
  cases a <;> rfl

theorem isNonpos_neg (a : Sign) : a.neg.isNonpos = a.isNonneg := by
  cases a <;> rfl

theorem isNonneg_add (a b : Sign) : (a.add b).isNonneg = (a.isNonneg && b.isNonneg) := by
  cases a <;> cases b <;> rfl

theorem isNonpos_add (a b : Sign) : (a.add b).isNonpos = (a.isNonpos && b.isNonpos) := by
  cases a <;> cases b <;> rfl

/-! ### The order by promise -/

/-- `a ≤ b`: whatever `b` promises, `a` promises too. -/
instance : LE Sign where
  le a b := (b.isNonneg → a.isNonneg) ∧ (b.isNonpos → a.isNonpos)

instance (a b : Sign) : Decidable (a ≤ b) :=
  inferInstanceAs (Decidable (_ ∧ _))

theorem le_iff_add_eq (a b : Sign) : a ≤ b ↔ add a b = b := by
  cases a <;> cases b <;> decide

theorem le_refl (a : Sign) : a ≤ a := ⟨id, id⟩

theorem neg_le_neg {a b : Sign} (h : a ≤ b) : a.neg ≤ b.neg := by
  revert h
  cases a <;> cases b <;> decide

theorem add_le_add {a b c d : Sign} (h : a ≤ b) (h' : c ≤ d) : a.add c ≤ b.add d := by
  refine ⟨fun hn => ?_, fun hn => ?_⟩
  · rw [isNonneg_add, Bool.and_eq_true] at hn ⊢
    exact ⟨h.1 hn.1, h'.1 hn.2⟩
  · rw [isNonpos_add, Bool.and_eq_true] at hn ⊢
    exact ⟨h.2 hn.1, h'.2 hn.2⟩

theorem mul_le_mul_left {a b : Sign} (k : Sign) (h : a ≤ b) : k.mul a ≤ k.mul b := by
  revert h
  cases k <;> cases a <;> cases b <;> decide

end Sign

end DisciplinedConvex
