/-
DisciplinedConvex/Proofs/Numbering/Log.lean

The log of a session, and what is left in it where something fails.

The log has one report for each node, in the order of the numbers, and with the numbers
that were asked for these account for every number that was spent.  `b.Leaves r` says
what a build that fails makes of the ledger: most operations check their operands before
they build anything and leave the ledger as it was, while a difference has built the
negation of its right operand by then.  `Operand.Enters` says what an operand of a step
makes of the ledger, namely nothing if it is a register and one constant if it is a
literal, and `Session.TakesUp` puts operands and operation together.

Whatever a step builds that fails in the end is never seen again
(`Session.not_shows_of_failed`).  For no build sees what was reported before it: the
session goes on as it would if the step had spent its numbers on nothing, and in
that session there is no such node.
-/
import DisciplinedConvex.Proofs.Numbering.Regular
import DisciplinedConvex.Proofs.Numbering.Run
import DisciplinedConvex.Proofs.Soundness.Product

namespace DisciplinedConvex

open Build Ledger

/-! ### Reports of nodes -/

/-- Nodes are all that is reported at the lowest level, and each is reported once. -/
theorem Ledger.eventsAt_trace (l : Ledger) : l.eventsAt .trace = l.nodes.map .built := by
  unfold eventsAt nodes
  induction l.events.toList with
  | nil => rfl
  | cons e es ih =>
    cases e with
    | built n => exact congrArg (List.cons (.built n)) ih
    | _ => exact ih

theorem Event.number_mem_fields_iff {n : Expr} {i : ℕ} :
    ("id", Field.number i) ∈ (built n).fields ↔ n.id = i := by
  simp [fields, eq_comm]

/-- In ascending order a number stands once. -/
theorem Ledger.Orderly.filter_id {l : Ledger} (hl : l.Orderly) {n : Expr} (hn : l.Lists n) :
    l.nodes.filter (·.id = n.id) = [n] := by
  have hascending := hl.ascending
  obtain ⟨xs, ys, hnodes⟩ := List.append_of_mem hn
  rw [hnodes, List.pairwise_append, List.pairwise_cons] at hascending
  obtain ⟨-, ⟨hafter, -⟩, hbefore⟩ := hascending
  have hxs : xs.filter (·.id = n.id) = [] := by
    refine List.filter_eq_nil_iff.2 fun m hm => ?_
    simpa using (hbefore m hm n List.mem_cons_self).ne
  have hys : ys.filter (·.id = n.id) = [] := by
    refine List.filter_eq_nil_iff.2 fun m hm => ?_
    simpa using (hafter m hm).ne'
  rw [hnodes, List.filter_append, hxs, List.filter_cons_of_pos (by simp), hys]
  rfl

theorem Ledger.Orderly.reports_eq {l : Ledger} (hl : l.Orderly) {n : Expr} (hn : l.Lists n) :
    (l.eventsAt .trace).filter (("id", Field.number n.id) ∈ ·.fields) = [.built n] := by
  rw [l.eventsAt_trace, List.filter_map]
  have hid : ((fun ev : Event => decide (("id", Field.number n.id) ∈ ev.fields)) ∘ Event.built) =
      fun m : Expr => decide (m.id = n.id) := by
    funext m
    simp only [Function.comp_apply, Event.number_mem_fields_iff]
  rw [hid, hl.filter_id hn]
  rfl

/-! ### What failing leaves -/

namespace Build

variable {α β : Type} {r : Ledger → Ledger}

/-- Where the build fails, this is what it has made of the ledger. -/
def Leaves (b : Build α) (r : Ledger → Ledger) : Prop :=
  ∀ l f l', b.perform l = (.error f, l') → l' = r l

theorem leaves_of_perform {b : Build α} {x : Except Fault α} (h : ∀ l, b.perform l = (x, l)) :
    b.Leaves id := by
  intro l f l' hl
  rw [h l] at hl
  exact (congrArg Prod.snd hl).symm

/-- What cannot fail may be said to leave anything. -/
theorem leaves_of_ok {b : Build α} (h : ∀ l, ∃ a l', b.perform l = (.ok a, l')) : b.Leaves r := by
  intro l f l' hl
  obtain ⟨a, l₁, ha⟩ := h l
  rw [ha] at hl
  cases hl

/-- A check comes first, and nothing was built when it fails. -/
theorem Leaves.bind_of_perform {b : Build α} {x : Except Fault α} {k : α → Build β}
    (h : ∀ l, b.perform l = (x, l)) (hk : ∀ a, (k a).Leaves id) : (b >>= k).Leaves id := by
  intro l f l' hl
  rw [perform_bind, h l] at hl
  rcases x with e | a
  · exact (congrArg Prod.snd hl).symm
  · exact hk a l f l' hl

theorem Leaves.bind_ok {b : Build α} {k : α → Build β} (hb : b.Leaves r)
    (hk : ∀ a l, ∃ c l', (k a).perform l = (.ok c, l')) : (b >>= k).Leaves r := by
  intro l f l' hl
  rw [perform_bind] at hl
  rcases hperform : b.perform l with ⟨e | a, l₁⟩
  · rw [hperform] at hl
    cases hl
    exact hb l _ _ hperform
  · rw [hperform] at hl
    obtain ⟨c, l₂, hc⟩ := hk a l₁
    rw [show (k a).perform l₁ = (.error f, l') from hl] at hc
    cases hc

theorem Leaves.insist {b : Build α} (hb : b.Leaves r) : b.insist.Leaves r := by
  intro l f l' hl
  rw [perform_insist] at hl
  rcases hperform : b.perform l with ⟨e | a, l₁⟩
  · rw [hperform] at hl
    cases hl
    exact hb l _ _ hperform
  · rw [hperform] at hl
    cases hl

theorem constant_leaves (v : Value) : (constant v).Leaves id :=
  .bind_of_perform (perform_check _) fun _ => leaves_of_ok fun _ => ⟨_, _, rfl⟩

theorem sum_leaves (a b : Expr) : (sum a b).Leaves id :=
  .bind_of_perform (perform_check _) fun _ => leaves_of_ok fun _ => ⟨_, _, rfl⟩

/-- The negation of the right operand is built before the shapes are compared. -/
theorem difference_leaves (a b : Expr) :
    (difference a b).Leaves fun l =>
      l.spend.report (.built (.neg ⟨l.next, b.attributes.neg⟩ b)) := by
  intro l f l' hl
  exact sum_leaves a _ _ f l' hl

/-- Also where its factors are to be exchanged, a product is refused before anything is built. -/
theorem product_leaves (a b : Expr) : (product a b).Leaves id := by
  by_cases hconst : a.isConstant = true ∨ b.isConstant = true
  · rcases hs : a.shape.times b.shape with err | s
    · exact leaves_of_perform (perform_product_of_error hconst hs)
    · refine leaves_of_ok fun l => ?_
      obtain ⟨e, built, l', he, -⟩ := perform_product hconst hs l
      exact ⟨e, l', he⟩
  · obtain ⟨ha, hb⟩ := not_or.1 hconst
    exact leaves_of_perform
      (perform_product_of_not_isConstant (Bool.eq_false_iff.2 ha) (Bool.eq_false_iff.2 hb))

theorem quotient_leaves (a k : Expr) : (quotient a k).Leaves id := by
  unfold quotient
  split
  · split
    · exact leaves_of_ok fun _ => ⟨_, _, rfl⟩
    · exact leaves_of_ok fun _ => ⟨_, _, rfl⟩
  · exact leaves_of_perform (perform_throw _)

theorem indexed_leaves (a : Expr) (key : Key) : (indexed a key).Leaves id := by
  unfold indexed
  split
  · exact leaves_of_perform (perform_pure a)
  · refine .bind_of_perform (perform_check _) fun s => ?_
    exact .bind_of_perform (perform_attempt _) fun _ => leaves_of_ok fun _ => ⟨_, _, rfl⟩

theorem operation_leaves {op : Operation} (hop : op ≠ .difference) (a b : Expr) :
    (op.apply a b).Leaves id := by
  cases op with
  | sum => exact sum_leaves a b
  | difference => exact absurd rfl hop
  | product => exact product_leaves a b
  | quotient => exact quotient_leaves a b

/-- A constraint fails where its residual does. -/
theorem constraint_leaves (kind : ConstraintKind) (a b : Expr) :
    (constraint kind a b).Leaves fun l =>
      l.spend.report (.built (.neg ⟨l.next, b.attributes.neg⟩ b)) :=
  (difference_leaves a b).bind_ok fun _ _ => ⟨_, _, rfl⟩

/-- Both builds make the same of the ledger, and one fails where the other does. -/
def EndsAs (b : Build α) (d : Build β) : Prop :=
  ∀ l, (b.perform l).2 = (d.perform l).2 ∧
    ((∃ f, (b.perform l).1 = .error f) ↔ ∃ f, (d.perform l).1 = .error f)

theorem insist_endsAs (b : Build α) : b.insist.EndsAs b := by
  intro l
  rw [perform_insist]
  rcases (b.perform l).1 with f | a
  · exact ⟨rfl, iff_of_true ⟨_, rfl⟩ ⟨_, rfl⟩⟩
  · exact ⟨rfl, iff_of_false nofun nofun⟩

/-- What is made of the result in the end makes no difference. -/
theorem bind_pure_endsAs {b : Build α} {d : Build β} (h : b.EndsAs d) {γ : Type} (g : α → γ) :
    (do return g (← b) : Build γ).EndsAs d := by
  intro l
  obtain ⟨hledger, hfault⟩ := h l
  rw [← hledger, ← hfault, perform_bind]
  rcases b.perform l with ⟨f | a, l'⟩
  · exact ⟨rfl, iff_of_true ⟨_, rfl⟩ ⟨_, rfl⟩⟩
  · exact ⟨rfl, iff_of_false nofun nofun⟩

end Build

/-! ### Operands -/

/-- The operand with its value complete: it is there, and if it is a literal, then its entries
fit. -/
def Operand.read (rs : Registers) (a : Operand) : Except Fault Ready := a.found rs >>= Found.ready

namespace Operand

variable {rs : Registers} {l l' : Ledger} {a b : Operand} {e : Expr}

theorem read_register (rs : Registers) (i : ℕ) :
    (register i).read rs = (rs.expr i).map .expr := by
  show (rs.expr i).map Found.expr >>= Found.ready = _
  cases rs.expr i <;> rfl

theorem read_literal (rs : Registers) (m : Literal) :
    (literal m).read rs = m.value.map .value := by
  have hvalue (x : Except Fault Value) : x.map Found.value >>= Found.ready = x.map .value := by
    cases x <;> rfl
  cases m with
  | dense rows cols entries => rfl
  | scalar y => exact hvalue (Literal.scalar y).value
  | sparse rows cols ts => exact hvalue (Literal.sparse rows cols ts).value
  | array k => exact hvalue (Literal.array k).value

/-- What an operand is taken for, and the ledger after it: a register costs nothing, and a literal
is one new constant. -/
inductive Enters (rs : Registers) (l : Ledger) : Operand → Expr → Ledger → Prop
  | register {i : ℕ} {e : Expr} (he : rs.expr i = .ok e) : Enters rs l (register i) e l
  | literal {m : Literal} {v : Value} {s : Shape} (hv : m.value = .ok v) (hs : v.shape = .ok s) :
      Enters rs l (literal m) (.const ⟨l.next, .constant, v.sign, s⟩ v)
        (l.spend.report (.built (.const ⟨l.next, .constant, v.sign, s⟩ v)))

end Operand

theorem Ready.perform_cast_value (v : Value) (l : Ledger) :
    (∃ s, v.shape = .ok s ∧ (value v).cast.perform l =
      (.ok (.const ⟨l.next, .constant, v.sign, s⟩ v),
        l.spend.report (.built (.const ⟨l.next, .constant, v.sign, s⟩ v)))) ∨
    ∃ err f, v.shape = .error err ∧ (value v).cast.perform l = (.error f, l) := by
  rw [cast, perform_insist, Build.constant, perform_bind, perform_check]
  rcases v.shape with err | s
  · exact .inr ⟨err, _, rfl, rfl⟩
  · exact .inl ⟨s, rfl, rfl⟩

/-- A cast that fails leaves nothing. -/
theorem Ready.cast_leaves (r : Ready) : r.cast.Leaves id := by
  cases r with
  | expr e => exact leaves_of_perform (perform_pure e)
  | value v => exact (constant_leaves v).insist

/-- An operand enters as what it is cast to. -/
theorem Operand.enters_iff {rs : Registers} {l l' : Ledger} {a : Operand} {e : Expr} :
    a.Enters rs l e l' ↔ ∃ r, a.read rs = .ok r ∧ r.cast.perform l = (.ok e, l') := by
  constructor
  · rintro (@⟨i, e, he⟩ | @⟨m, v, s, hv, hs⟩)
    · exact ⟨.expr e, by rw [read_register, he]; rfl, rfl⟩
    · refine ⟨.value v, by rw [read_literal, hv]; rfl, ?_⟩
      rcases Ready.perform_cast_value v l with ⟨t, ht, hcast⟩ | ⟨err, f, herr, -⟩
      · obtain rfl := Except.ok.inj (hs.symm.trans ht)
        exact hcast
      · rw [hs] at herr
        cases herr
  · rintro ⟨r, hr, hcast⟩
    cases a with
    | register i =>
      rw [read_register] at hr
      obtain ⟨e', he', rfl⟩ := exists_of_map_eq_ok hr
      cases hcast
      exact .register he'
    | literal m =>
      rw [read_literal] at hr
      obtain ⟨v, hv, rfl⟩ := exists_of_map_eq_ok hr
      rcases Ready.perform_cast_value v l with ⟨t, ht, hcast'⟩ | ⟨err, f, -, hcast'⟩
      · rw [hcast'] at hcast
        cases hcast
        exact .literal hv ht
      · rw [hcast'] at hcast
        cases hcast

/-! ### Two operands -/

namespace Step

variable {α β : Type} {rs : Registers} {a b : Operand} {r t : Ready}

/-- Both operands are read before either is cast, so that nothing is built where one of them cannot
be read. -/
theorem perform_reads (rs : Registers) (a b : Operand) (k : Ready → Ready → Build β) (l : Ledger) :
    let build : Build β := do
      let f ← lookUp (a.found rs)
      let g ← lookUp (b.found rs)
      let r ← lookUp f.ready
      let t ← lookUp g.ready
      k r t
    (∀ r t, a.read rs = .ok r → b.read rs = .ok t → build.perform l = (k r t).perform l) ∧
      ((∀ r t, a.read rs = .ok r → b.read rs ≠ .ok t) →
        ∃ f, build.perform l = (.error f, l)) := by
  intro build
  unfold Operand.read
  simp only [build, perform_bind, perform_lookUp]
  rcases a.found rs with f | f
  · exact ⟨nofun, fun _ => ⟨f, rfl⟩⟩
  rcases b.found rs with g | g
  · exact ⟨nofun, fun _ => ⟨g, rfl⟩⟩
  show (∀ r t, f.ready = .ok r → g.ready = .ok t → _) ∧
    ((∀ r t, f.ready = .ok r → g.ready ≠ .ok t) → _)
  dsimp only
  rcases f.ready with e | r
  · exact ⟨nofun, fun _ => ⟨e, rfl⟩⟩
  dsimp only
  rcases g.ready with e | t
  · exact ⟨nofun, fun _ => ⟨e, rfl⟩⟩
  · refine ⟨fun r' t' hr ht => ?_, fun h => absurd rfl (h r t rfl)⟩
    cases hr
    cases ht
    rfl

/-- What comes of two operands that are cast one after the other, and then of `k`. -/
theorem perform_casts (k : Expr → Expr → Build β) (l : Ledger) :
    let build : Build β := do
      let x ← r.cast
      let y ← t.cast
      k x y
    (∀ x y l₁ l₂, r.cast.perform l = (.ok x, l₁) → t.cast.perform l₁ = (.ok y, l₂) →
      build.perform l = (k x y).perform l₂) ∧
    ((∀ x l₁, r.cast.perform l ≠ (.ok x, l₁)) → ∃ f, build.perform l = (.error f, l)) ∧
    ∀ x l₁, r.cast.perform l = (.ok x, l₁) → (∀ y l₂, t.cast.perform l₁ ≠ (.ok y, l₂)) →
      ∃ f, build.perform l = (.error f, l₁) := by
  intro build
  refine ⟨fun x y l₁ l₂ hx hy => ?_, fun hnot => ?_, fun x l₁ hx hnot => ?_⟩
  · simp only [build, perform_bind, hx, hy]
  · rcases hx : r.cast.perform l with ⟨f | x, l₁⟩
    · obtain rfl : l₁ = l := r.cast_leaves l f l₁ hx
      exact ⟨f, by simp only [build, perform_bind, hx]⟩
    · exact absurd hx (hnot x l₁)
  · rcases hy : t.cast.perform l₁ with ⟨f | y, l₂⟩
    · obtain rfl : l₂ = l₁ := t.cast_leaves l₁ f l₂ hy
      exact ⟨f, by simp only [build, perform_bind, hx, hy]⟩
    · exact absurd hy (hnot y l₂)

/-- In each link of a chain the operand enters anew. -/
theorem perform_link_operate (op : Operation) (b : Operand) (e : Expr) (l : Ledger) :
    (∀ y l₁, b.Enters rs l y l₁ →
      (link rs (.operate op b) e).perform l = (op.apply e y).perform l₁) ∧
    ((∀ y l₁, ¬b.Enters rs l y l₁) →
      ∃ f, (link rs (.operate op b) e).perform l = (.error f, l)) := by
  have hread : (link rs (.operate op b) e).perform l =
      (do let t ← lookUp (b.read rs); let y ← t.cast; op.apply e y : Build Expr).perform l := by
    unfold link Operand.read
    simp only [perform_bind, perform_lookUp]
    rcases b.found rs with f | g <;> rfl
  rw [hread]
  simp only [perform_bind, perform_lookUp, Operand.enters_iff]
  rcases b.read rs with f | t
  · exact ⟨nofun, fun _ => ⟨f, rfl⟩⟩
  dsimp only
  rcases hy : t.cast.perform l with ⟨f | y, l₁⟩
  · obtain rfl : l₁ = l := t.cast_leaves l f l₁ hy
    refine ⟨?_, fun _ => ⟨f, rfl⟩⟩
    rintro y l₂ ⟨t', ht', hy'⟩
    cases ht'
    rw [hy] at hy'
    cases hy'
  · refine ⟨?_, fun h => absurd ⟨t, rfl, hy⟩ (h y l₁)⟩
    rintro y' l₂ ⟨t', ht', hy'⟩
    cases ht'
    rw [hy] at hy'
    cases hy'
    rfl

end Step

namespace Session

variable {α : Type} {s : Session} {st : Step} {a b : Operand} {k : Expr → Expr → Build α}

/-- The step fails, and this is the ledger after it. -/
def FailsWith (s : Session) (st : Step) (l : Ledger) : Prop :=
  (∃ f, (s.step st).1 = .error f) ∧ (s.step st).2.ledger = l

/-- The step takes up one operand, then the other one, and does then what `k` does with both.  It
builds nothing where an operand cannot be read, and nothing but what has entered before where an
operand cannot be cast. -/
structure TakesUp (s : Session) (st : Step) (a b : Operand) (k : Expr → Expr → Build α) : Prop where
  both : ∀ x y l₁ l₂, a.Enters s.registers s.ledger x l₁ → b.Enters s.registers l₁ y l₂ →
    (s.step st).2.ledger = ((k x y).perform l₂).2 ∧
      ((∃ f, (s.step st).1 = .error f) ↔ ∃ f, ((k x y).perform l₂).1 = .error f)
  unread : (∀ r t, a.read s.registers = .ok r → b.read s.registers ≠ .ok t) →
    s.FailsWith st s.ledger
  left : (∀ x l₁, ¬a.Enters s.registers s.ledger x l₁) → s.FailsWith st s.ledger
  right : (∃ t, b.read s.registers = .ok t) → ∀ x l₁, a.Enters s.registers s.ledger x l₁ →
    (∀ y l₂, ¬b.Enters s.registers l₁ y l₂) → s.FailsWith st l₁

/-- A step that builds something from the registers as they are. -/
theorem step_of_cleared (h : cleared s.registers st = .ok s.registers) :
    (s.step st).1 = ((st.build s.registers).perform s.ledger).1 ∧
      (s.step st).2.ledger = ((st.build s.registers).perform s.ledger).2 := by
  unfold step
  rw [h]
  dsimp only
  rcases (st.build s.registers).perform s.ledger with ⟨f | r, l⟩
  · exact ⟨rfl, rfl⟩
  · exact ⟨rfl, rfl⟩

/-- To take up two operands is to read both, to cast both and to go on. -/
theorem takesUp_of_perform {d : Expr → Expr → Build Reply}
    (hcleared : cleared s.registers st = .ok s.registers)
    (hread : ∀ r t, a.read s.registers = .ok r → b.read s.registers = .ok t →
      (st.build s.registers).perform s.ledger =
        (do let x ← r.cast; let y ← t.cast; d x y : Build Reply).perform s.ledger)
    (hunread : (∀ r t, a.read s.registers = .ok r → b.read s.registers ≠ .ok t) →
      ∃ f, (st.build s.registers).perform s.ledger = (.error f, s.ledger))
    (hd : ∀ x y, (d x y).EndsAs (k x y)) : s.TakesUp st a b k := by
  obtain ⟨hanswer, hledger⟩ := step_of_cleared hcleared
  have hfails {l : Ledger} (h : ∃ f, (st.build s.registers).perform s.ledger = (.error f, l)) :
      s.FailsWith st l := by
    obtain ⟨f, hf⟩ := h
    exact ⟨⟨f, by rw [hanswer, hf]⟩, by rw [hledger, hf]⟩
  refine ⟨fun x y l₁ l₂ hx hy => ?_, fun h => hfails (hunread h), fun h => ?_, ?_⟩
  · obtain ⟨r, hr, hx⟩ := Operand.enters_iff.1 hx
    obtain ⟨t, ht, hy⟩ := Operand.enters_iff.1 hy
    rw [hanswer, hledger, hread r t hr ht, (Step.perform_casts d s.ledger).1 x y l₁ l₂ hx hy]
    exact hd x y l₂
  · by_cases hunr : ∀ r t, a.read s.registers = .ok r → b.read s.registers ≠ .ok t
    · exact hfails (hunread hunr)
    · push Not at hunr
      obtain ⟨r, t, hr, ht⟩ := hunr
      refine hfails ?_
      rw [hread r t hr ht]
      exact (Step.perform_casts d s.ledger).2.1 fun x l₁ hx =>
        h x l₁ (Operand.enters_iff.2 ⟨r, hr, hx⟩)
  · rintro ⟨t, ht⟩ x l₁ hx hnot
    obtain ⟨r, hr, hx⟩ := Operand.enters_iff.1 hx
    refine hfails ?_
    rw [hread r t hr ht]
    exact (Step.perform_casts d s.ledger).2.2 x l₁ hx fun y l₂ hy =>
      hnot y l₂ (Operand.enters_iff.2 ⟨t, ht, hy⟩)

theorem operate_takesUp (s : Session) (op : Operation) (a b : Operand) (isChecked : Bool) :
    s.TakesUp (.operate op a b isChecked) a b op.apply := by
  obtain ⟨hread, hunread⟩ := Step.perform_reads s.registers a b
    (fun r t => do
      let x ← r.cast
      let y ← t.cast
      return Reply.expr (← Step.inForm isChecked (op.apply x y))) s.ledger
  refine takesUp_of_perform rfl hread hunread fun x y => bind_pure_endsAs ?_ _
  cases isChecked with
  | true => exact fun l => ⟨rfl, Iff.rfl⟩
  | false => exact insist_endsAs _

/-- A comparison takes up its operands in the order in which the constraint keeps them. -/
theorem compare_takesUp (s : Session) (cmp : Comparison) (a b : Operand) :
    s.TakesUp (.compare cmp a b) (cmp.sides a b).1 (cmp.sides a b).2 (constraint cmp.kind) := by
  obtain ⟨hread, hunread⟩ := Step.perform_reads s.registers a b
    (fun r t => do
      let x ← (cmp.sides r t).1.cast
      let y ← (cmp.sides r t).2.cast
      return Reply.constraint (← constraint cmp.kind x y)) s.ledger
  have hends (x y : Expr) : (do return Reply.constraint (← constraint cmp.kind x y) :
      Build Reply).EndsAs (constraint cmp.kind x y) :=
    bind_pure_endsAs (fun l => ⟨rfl, Iff.rfl⟩) _
  cases cmp with
  | equal | atMost => exact takesUp_of_perform rfl hread hunread hends
  | atLeast =>
    refine takesUp_of_perform rfl (fun r t hr ht => hread t r ht hr) (fun h => ?_) hends
    exact hunread fun r t hr ht => h t r ht hr

/-! ### What is never seen again -/

/-- A step that fails leaves in the registers only what was built before it. -/
theorem Accounted.of_failed (h : s.Accounted) {f : Fault} (hf : (s.step st).1 = .error f) :
    (s.step st).2.registers.Accounted s.ledger := by
  have hempty : ∀ e ∈ Cell.empty.exprs, s.ledger.Lists e := by simp [Cell.exprs]
  unfold step at hf ⊢
  rcases hrs : Session.cleared s.registers st with g | rs
  · exact h.registers.push hempty
  · rw [hrs] at hf
    dsimp only at hf ⊢
    generalize (st.build rs).perform s.ledger = p at hf ⊢
    obtain ⟨g | r, l⟩ := p
    · exact (h.cleared hrs).push hempty
    · cases hf

/-- The session as if it had spent the numbers of a ledger on nothing. -/
def forgetting (s : Session) (l : Ledger) : Session where
  ledger := { next := s.ledger.next, events := l.events }
  registers := s.registers

/-- What a failing step has built may be forgotten. -/
theorem Accounted.forgetting (h : s.Accounted) {f : Fault} (hf : (s.step st).1 = .error f) :
    ((s.step st).2.forgetting s.ledger).Accounted := by
  obtain ⟨hpre, -, -⟩ := step_accounted h st
  have hpre' : s.ledger.Precedes ((s.step st).2.forgetting s.ledger).ledger :=
    ⟨hpre.next_le, [], (List.append_nil _).symm, by simp⟩
  refine ⟨⟨h.orderly.ascending, fun n hn => ?_, h.orderly.operands⟩, (h.of_failed hf).later hpre'⟩
  exact (h.orderly.spent n hn).trans_le hpre.next_le

/-- What a failing step builds is not shown after it, and not after any steps that follow. -/
theorem not_shows_of_failed {first : ℕ} {steps : List Step} {f : Fault} {n : Expr}
    (hf : (((startingAt first).run steps).2.step st).1 = .error f)
    (hn : (((startingAt first).run steps).2.step st).2.ledger.Lists n)
    (hnew : ¬((startingAt first).run steps).2.ledger.Lists n) (more : List Step) :
    ¬Shows first (steps ++ st :: more) n := by
  obtain ⟨-, hs, hbefore⟩ := run_accounted (accounted_startingAt first) steps
  rintro ⟨e, he, hreach⟩
  rw [run_append] at he
  generalize (startingAt first).run steps = before at *
  obtain ⟨answers, s⟩ := before
  -- the session goes on as if the step had built nothing
  have hforget := hs.forgetting hf
  have halike : (s.step st).2.Alike ((s.step st).2.forgetting s.ledger) := ⟨rfl, rfl⟩
  obtain ⟨hanswers, hregisters, -⟩ := run_alike halike more
  obtain ⟨hpre, hend, hreplies⟩ := run_accounted hforget more
  have hlists : (((s.step st).2.forgetting s.ledger).run more).2.ledger.Lists e := by
    rcases he with he | ⟨r, hr, he⟩
    · refine hend.registers e ?_
      rw [← hregisters]
      exact he
    · rcases List.mem_append.1 hr with hr | hr
      · exact hpre.lists (hbefore r hr e (List.mem_append_left _ he))
      rcases List.mem_cons.1 hr with hr | hr
      · rw [show (s.step st).1 = .ok r from hr.symm] at hf
        cases hf
      · refine hreplies r ?_ e (List.mem_append_left _ he)
        rw [← hanswers]
        exact hr
  -- its numbers are spent there, so that no later node has one of them
  have hspent : n.id < (s.step st).2.ledger.next := (step_accounted hs st).2.1.orderly.spent n hn
  exact hnew (hpre.lists_of_lt (hend.orderly.reaches hlists hreach).1 hspent)

/-! ### The log -/

/-- The log has one report for each node, in ascending order of their numbers.  Each number from the
first one to the next one is that of a node or among the answers, and so many of them are not those
of nodes.

The nodes of a ledger are read off its log, so `reports` alone holds of every ledger.  What ties the
log to what was built is the count of numbers, which is kept apart from it: by `reported` and `next`
each number that was spent has exactly one report, or else it was asked for. -/
structure Logged (l : Ledger) (first asked : ℕ) (answers : List (Except Fault Reply)) : Prop where
  reports : (l.eventsAt .trace).map (fun ev => (ev.message, ev.fields)) =
    l.nodes.map (fun n => ("built expression node",
      [("id", .number n.id), ("kind", .text n.kind), ("shape", .text n.shape.text),
        ("curvature", .text n.curvature.label), ("sign", .text n.sign.label)]))
  ascending : l.nodes.Pairwise fun n m => n.id < m.id
  numbers : ∀ n ∈ l.nodes, first ≤ n.id ∧ n.id < l.next
  /-- As long as it has not started again, a counter of 64 bits gives the same numbers. -/
  words : l.next ≤ 2 ^ 64 → ∀ n ∈ l.nodes, n.word.toNat = n.id
  spent : ∀ i, first ≤ i → i < l.next → (∃ n ∈ l.nodes, n.id = i) ∨ .ok (.number i) ∈ answers
  reported : ∀ i, first ≤ i → i < l.next → .ok (.number i) ∉ answers →
    ∃ ev, (l.eventsAt .trace).filter (("id", Field.number i) ∈ ·.fields) = [ev]
  next : l.next = first + l.nodes.length + asked

theorem run_ledger_logged (first : ℕ) (steps : List Step) :
    Logged ((startingAt first).run steps).2.ledger first (steps.countP Step.isFreshId)
      ((startingAt first).run steps).1 := by
  obtain ⟨hpre, hs, -⟩ := run_accounted (accounted_startingAt first) steps
  obtain ⟨built, hbuilt, hnext⟩ := run_next (startingAt first) steps
  have hspent (i : ℕ) (hi : first ≤ i) (hlt : i < ((startingAt first).run steps).2.ledger.next) :=
    run_numbers (startingAt first) steps hi hlt
  refine ⟨?_, hs.orderly.ascending, fun n hn => ⟨?_, hs.orderly.spent n hn⟩,
    fun hnext n hn => hs.orderly.toNat_word hnext hn, hspent, fun i hi hlt hasked => ?_, ?_⟩
  · rw [eventsAt_trace, List.map_map]
    rfl
  · -- nothing was built before the first step
    by_contra hlt
    exact List.not_mem_nil (hpre.lists_of_lt hn (not_le.1 hlt))
  · obtain ⟨n, hn, rfl⟩ := (hspent i hi hlt).resolve_right hasked
    exact ⟨_, hs.orderly.reports_eq hn⟩
  · rw [show _ = built from hbuilt]
    exact hnext

/-- After any steps the log has one report for each node that was built, with its number, kind,
shape, curvature and sign, and accounts for all numbers that were spent; of what is shown there is
exactly one report.

Sums, products, quotients and selections that fail leave the ledger as it was.  A difference or a
constraint that fails has spent one number and made one report, for the negation of its right
operand.  Operands of a step enter before this: a register costs nothing, and a literal one number
and one report, unless it fails itself, and then nothing.

Whatever a failing step builds is not reached from any register or answer, then or later. -/
theorem run_logged (first : ℕ) (steps : List Step) :
    let s := ((startingAt first).run steps).2
    (Logged s.ledger first (steps.countP Step.isFreshId) ((startingAt first).run steps).1 ∧
      ∀ n, Shows first steps n →
        (s.ledger.eventsAt .trace).filter (("id", Field.number n.id) ∈ ·.fields) = [.built n]) ∧
    ((∀ op : Operation, op ≠ .difference → ∀ a b, (op.apply a b).Leaves id) ∧
      (∀ a key, (indexed a key).Leaves id) ∧
      (∀ a b, (difference a b).Leaves fun l =>
        l.spend.report (.built (.neg ⟨l.next, b.attributes.neg⟩ b))) ∧
      ∀ kind a b, (constraint kind a b).Leaves fun l =>
        l.spend.report (.built (.neg ⟨l.next, b.attributes.neg⟩ b))) ∧
    ((∀ op a b isChecked, s.TakesUp (.operate op a b isChecked) a b op.apply) ∧
      (∀ cmp a b,
        s.TakesUp (.compare cmp a b) (cmp.sides a b).1 (cmp.sides a b).2 (constraint cmp.kind)) ∧
      ∀ op b e l,
        (∀ y l₁, b.Enters s.registers l y l₁ →
          (Step.link s.registers (.operate op b) e).perform l = (op.apply e y).perform l₁) ∧
        ((∀ y l₁, ¬b.Enters s.registers l y l₁) →
          ∃ f, (Step.link s.registers (.operate op b) e).perform l = (.error f, l))) ∧
    ∀ st f n, (s.step st).1 = .error f → (s.step st).2.ledger.Lists n → ¬s.ledger.Lists n →
      ∀ more, ¬Shows first (steps ++ st :: more) n := by
  intro s
  obtain ⟨-, hs, -⟩ := run_accounted (accounted_startingAt first) steps
  refine ⟨⟨run_ledger_logged first steps, fun n hn => hs.orderly.reports_eq hn.lists⟩, ?_, ?_, ?_⟩
  · exact ⟨fun op hop => operation_leaves hop, indexed_leaves, difference_leaves, constraint_leaves⟩
  · exact ⟨s.operate_takesUp, s.compare_takesUp, Step.perform_link_operate⟩
  · exact fun st f n hf hn hnew => not_shows_of_failed hf hn hnew

/-- A column less a literal of another length, after which the column is added to itself: the
literal and its negation have the numbers after that of the column, and the negation is not
shown. -/
theorem run_logged_difference :
    let steps : List Step := [.declare 2 1 none []]
    let st : Step :=
      .operate .difference (.register 0) (.literal (.dense 3 1 #[1.0, 1.0, 1.0])) true
    let s := ((startingAt 0).run steps).2
    ∃ x k n, (s.step st).2.ledger.nodes = [x, k, n] ∧ x.id = 0 ∧ k.kind = "Constant" ∧ k.id = 1 ∧
      n.kind = "Neg" ∧ n.id = 2 ∧ (s.step st).2.ledger.next = 3 ∧
      ¬Shows 0 (steps ++ [st, .operate .sum (.register 0) (.register 0) true]) n := by
  intro steps st s
  obtain ⟨x, k, n, hnodes, hx, hkkind, hk, hnkind, hn, hnext⟩ : ∃ x k n,
      (s.step st).2.ledger.nodes = [x, k, n] ∧ x.id = 0 ∧ k.kind = "Constant" ∧ k.id = 1 ∧
        n.kind = "Neg" ∧ n.id = 2 ∧ (s.step st).2.ledger.next = 3 :=
    ⟨_, _, _, rfl, rfl, rfl, rfl, rfl, rfl, rfl⟩
  obtain ⟨f, hf⟩ : ∃ f, (s.step st).1 = .error f := ⟨_, rfl⟩
  obtain ⟨⟨hlogged, -⟩, -, -, hhidden⟩ := run_logged 0 steps
  refine ⟨x, k, n, hnodes, hx, hkkind, hk, hnkind, hn, hnext, hhidden st f n hf ?_ ?_ _⟩
  · rw [Ledger.Lists, hnodes]
    simp
  · -- the number of the negation was not spent before the step
    intro hlists
    have hlt : n.id < s.ledger.next := (hlogged.numbers n hlists).2
    rw [hn, show s.ledger.next = 1 from rfl] at hlt
    exact absurd hlt (by decide)

end Session

end DisciplinedConvex
