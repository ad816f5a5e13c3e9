/-
DisciplinedConvex/Proofs/Soundness/Quotient.lean

Division by what is known to be zero.

Zero has no reciprocal, so the quotient is scaled by a factor of unknown sign.  Such
a factor loses the curvature of what varies, but it keeps a constant constant
(`Curvature.scale_unknown`), and of zero it leaves zero (`Sign.mul_unknown`).  Hence the
quotient is built with a single warning, and nothing is known of it just where its
numerator varies (`Build.quotient_zeroDivisor`).  A constant divided by zero is still
certified as a constant, and zero divided by zero as zero
(`Build.quotient_zeroDivisor_certified`).
-/
import DisciplinedConvex.Proofs.Graph.Affine
import DisciplinedConvex.Proofs.Graph.Built

namespace DisciplinedConvex

/-! ### A factor of unknown sign -/

theorem Curvature.scale_unknown (c : Curvature) :
    c.scale .unknown = if c.isConstant then constant else unknown := rfl

theorem Sign.mul_unknown (s : Sign) : s.mul unknown = if s.isZero then zero else unknown := by
  cases s <;> rfl

namespace Attributes

variable {a k : Attributes}

/-- Of a zero divisor only its sign counts, and of the numerator whether it is constant and zero. -/
theorem div_of_zero (hk : k.sign = .zero) :
    a.div k = ⟨if a.curvature.isConstant then .constant else .unknown,
      if a.sign.isZero then .zero else .unknown, a.shape⟩ := by
  have hr : k.sign.reciprocal = .unknown := Sign.reciprocal_eq_unknown_iff.2 (.inr hk)
  rw [div, hr, Curvature.scale_unknown, Sign.mul_unknown]

theorem isCertified_div_of_zero (hk : k.sign = .zero) :
    (a.div k).curvature.isCertified = a.curvature.isConstant := by
  rw [div_of_zero hk]
  cases a.curvature.isConstant <;> rfl

/-- A numerator that varies is not zero, so its quotient has no sign either. -/
theorem ZeroConstant.div_unknown_iff (ha : a.ZeroConstant) (hk : k.sign = .zero) :
    (a.div k).curvature = .unknown ∧ (a.div k).sign = .unknown ↔
      a.curvature.isConstant = false := by
  rw [div_of_zero hk]
  rcases hc : a.curvature.isConstant
  · have hz : a.sign.isZero = false := by
      refine Bool.eq_false_iff.2 fun hz => ?_
      rw [ha (beq_iff_eq.1 hz)] at hc
      cases hc
    exact iff_of_true ⟨rfl, if_neg (Bool.eq_false_iff.1 hz)⟩ rfl
  · exact iff_of_false (fun h => nomatch h.1) nofun

end Attributes

/-! ### The quotient -/

theorem Expr.isZero_iff {e : Expr} : e.isZero = true ↔ e.sign = .zero := beq_iff_eq

namespace Build

variable {a k : Expr}

/-- A quotient whose divisor is zero is one node, and there is a warning before it. -/
theorem perform_quotient_of_isZero (hconst : k.isConstant = true) (hscalar : k.isScalar = true)
    (hzero : k.isZero = true) (l : Ledger) :
    let q : Expr := .div ⟨l.next, a.attributes.div k.attributes⟩ a k
    (quotient a k).perform l = (.ok q, (l.report (.zeroDivisor k)).spend.report (.built q)) := by
  intro q
  rw [quotient, if_pos (by rw [hconst, hscalar]; rfl), if_pos hzero]
  rfl

/-- Whatever is divided by a scalar that is known to be zero, the quotient is built with one
warning.  It is constant if the numerator is, zero if the numerator is, and otherwise nothing is
known of it.  So curvature and sign are both unknown just where the numerator is not constant, and
where it is constant the quotient is certified and a legal factor. -/
theorem quotient_zeroDivisor (ha : a.Buildable) (hk : k.Buildable) (hscalar : k.isScalar = true)
    (hzero : k.isZero = true) (l : Ledger) :
    ∃ q l', (quotient a k).perform l = (.ok q, l') ∧ l.Gains [q] l' ∧
      l'.events.toList = l.events.toList ++ [.zeroDivisor k, .built q] ∧
      l'.eventsAt .warn = l.eventsAt .warn ++ [.zeroDivisor k] ∧
      q.attributes = ⟨if a.isConstant then .constant else .unknown,
        if a.isZero then .zero else .unknown, a.shape⟩ ∧
      (q.curvature = .unknown ∧ q.sign = .unknown ↔ a.isConstant = false) ∧
      q.isCertified = a.isConstant := by
  have hsign : k.sign = .zero := Expr.isZero_iff.1 hzero
  have hconst : k.isConstant = true := Expr.isConstant_iff.2 (hk.wellFormed.zeroConstant hsign)
  have hevents (q : Expr) : ((l.report (.zeroDivisor k)).spend.report (.built q)).events.toList =
      l.events.toList ++ [.zeroDivisor k, .built q] := by
    simp
  refine ⟨_, _, perform_quotient_of_isZero hconst hscalar hzero l, ?_, hevents _, ?_,
    Attributes.div_of_zero hsign, ?_, Attributes.isCertified_div_of_zero hsign⟩
  · exact (Ledger.gains_report rfl l).trans (Ledger.gains_node rfl)
  · rw [Ledger.eventsAt, hevents, List.filter_append]
    rfl
  · exact ha.wellFormed.zeroConstant.div_unknown_iff hsign

/-- The column divided by zero. -/
theorem quotient_zeroDivisor_column :
    let zero : Expr := .const ⟨1, .constant, .zero, .scalar⟩ (.scalar 0.0)
    ∃ q l', (quotient Expr.column zero).perform (.startingAt 2) = (.ok q, l') ∧
      l'.eventsAt .warn = [.zeroDivisor zero] ∧ q.curvature = .unknown ∧ q.sign = .unknown := by
  intro zero
  have hzero : zero.Buildable := .of_answer 1 [.constant (.scalar 0.0) true] 0 rfl
  obtain ⟨q, l', hq, -, -, hwarn, -, hunknown, -⟩ :=
    quotient_zeroDivisor Expr.column_buildable hzero rfl rfl (.startingAt 2)
  exact ⟨q, l', hq, hwarn, hunknown.2 rfl⟩

/-- One divided by zero is constant, and zero divided by zero is constant and zero: it is not so
that of every quotient by a zero constant nothing is known. -/
theorem quotient_zeroDivisor_certified :
    let zero : Expr := .const ⟨0, .constant, .zero, .scalar⟩ (.scalar 0.0)
    let one : Expr := .const ⟨1, .constant, .nonneg, .scalar⟩ (.scalar 1.0)
    zero.Buildable ∧ one.Buildable ∧
      zero.isConstant = true ∧ zero.isScalar = true ∧ zero.isZero = true ∧
      (∃ q l', (quotient one zero).perform (.startingAt 2) = (.ok q, l') ∧
        q.curvature = .constant ∧ q.sign = .unknown) ∧
      (∃ q l', (quotient zero zero).perform (.startingAt 2) = (.ok q, l') ∧
        q.curvature = .constant ∧ q.sign = .zero) ∧
      ¬∀ (a k : Expr), a.Buildable → k.Buildable → k.isConstant = true → k.isScalar = true →
        k.isZero = true → ∀ l, ∃ q l', (quotient a k).perform l = (.ok q, l') ∧
          (∃ w, l'.eventsAt .warn = l.eventsAt .warn ++ [w]) ∧
          q.curvature = .unknown ∧ q.sign = .unknown := by
  intro zero one
  have hzero : zero.Buildable := .of_answer 0 [.constant (.scalar 0.0) true] 0 rfl
  have hone : one.Buildable := .of_answer 1 [.constant (.scalar 1.0) true] 0 rfl
  refine ⟨hzero, hone, rfl, rfl, rfl, ⟨_, _, rfl, rfl, rfl⟩, ⟨_, _, rfl, rfl, rfl⟩, fun h => ?_⟩
  obtain ⟨q, l', hq, -, hcurv, -⟩ := h one zero hone hzero rfl rfl rfl (.startingAt 2)
  cases hq
  cases hcurv

end Build

end DisciplinedConvex
