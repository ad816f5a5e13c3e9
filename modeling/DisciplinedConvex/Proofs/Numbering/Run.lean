/-
DisciplinedConvex/Proofs/Numbering/Run.lean

Numbers stand for nodes, over whole sessions.

Whatever a register holds was built, and every step keeps the account of what was
built (`Step.build_keeps`): a step that succeeds, one that fails half way, one that
spends a number on nothing or one that empties a register.  Hence the same of every
run (`Session.run_accounted`), and of all nodes that a session shows: their numbers
are spent, each has a larger one than what it is made of, and two with the same number
are the same node, also where one of them is shown much later (`Session.run_numbered`).
Numbers are unbounded here; the first `2 ^ 64` are those of a counter of 64 bits, which
tells the nodes as well (`Ledger.Orderly.word_eq_iff`).

A set of expressions goes by number.  So it has as many members as there are nodes
(`Expr.countDistinct_eq_ncard`).
-/
import DisciplinedConvex.Proofs.Graph.Nodes
import DisciplinedConvex.Proofs.Numbering.Account

namespace DisciplinedConvex

open Build Ledger

/-! ### What registers hold -/

/-- Some register holds the expression, alone or as a part of a constraint or a problem. -/
def Registers.Holds (rs : Registers) (e : Expr) : Prop :=
  ∃ (i : ℕ) (c : Cell), rs[i]? = some c ∧ e ∈ c.exprs

theorem Problem.expressions_subset (p : Problem) : p.expressions ⊆ (Cell.problem p).exprs := by
  intro e he
  rcases List.mem_cons.1 he with rfl | he
  · exact List.mem_cons_self
  · obtain ⟨c, hc, rfl⟩ := List.mem_map.1 he
    exact List.mem_cons_of_mem _ (List.mem_flatMap.2 ⟨c, hc, by simp⟩)

theorem exists_of_map_eq_ok {ε α β : Type} {f : α → β} {x : Except ε α} {b : β}
    (h : x.map f = .ok b) : ∃ a, x = .ok a ∧ b = f a := by
  cases x with
  | error e => cases h
  | ok a =>
    cases h
    exact ⟨a, rfl, rfl⟩

/-- What is looked up in several places was found in one of them. -/
theorem exists_of_mem_mapM {ε ι α : Type} {f : ι → Except ε α} {is : List ι} {as : List α}
    (h : is.mapM f = .ok as) {a : α} (ha : a ∈ as) : ∃ i, f i = .ok a := by
  induction is generalizing as with
  | nil =>
    cases h
    cases ha
  | cons i is ih =>
    rw [List.mapM_cons] at h
    rcases hi : f i with e | b
    · rw [hi] at h
      cases h
    rcases his : is.mapM f with e | bs
    · rw [hi, his] at h
      cases h
    rw [hi, his] at h
    cases h
    rcases List.mem_cons.1 ha with rfl | ha
    · exact ⟨i, hi⟩
    · exact ih his ha

namespace Registers

variable {rs rs' : Registers} {e : Expr}

theorem not_holds_empty : ¬Holds #[] e := by
  rintro ⟨i, c, hc, -⟩
  simp at hc

theorem holds_of_push {c : Cell} (h : Holds (rs.push c) e) : rs.Holds e ∨ e ∈ c.exprs := by
  obtain ⟨i, d, hd, he⟩ := h
  rw [Array.getElem?_push] at hd
  split at hd
  · cases hd
    exact .inr he
  · exact .inl ⟨i, d, hd, he⟩

/-- To empty a register leaves all others as they are. -/
theorem getElem?_of_clear {i : ℕ} (h : rs.clear i = .ok rs') (j : ℕ) :
    rs'[j]? = if i = j then some .empty else rs[j]? := by
  unfold clear at h
  split at h
  · cases h
    rw [Array.getElem?_setIfInBounds]
    split <;> simp_all
  · cases h

theorem holds_of_clear {i : ℕ} (h : rs.clear i = .ok rs') (he : rs'.Holds e) : rs.Holds e := by
  obtain ⟨j, c, hc, he⟩ := he
  rw [getElem?_of_clear h] at hc
  split at hc
  · cases hc
    cases he
  · exact ⟨j, c, hc, he⟩

theorem holds_of_expr {i : ℕ} (h : rs.expr i = .ok e) : rs.Holds e := by
  unfold expr at h
  split at h
  · rename_i a ha
    cases h
    exact ⟨i, _, ha, List.mem_singleton_self _⟩
  · cases h

theorem holds_of_constraint {i : ℕ} {c : Constraint} (h : rs.constraint i = .ok c)
    (he : e ∈ [c.lhs, c.rhs, c.residual]) : rs.Holds e := by
  unfold constraint at h
  split at h
  · rename_i d hd
    cases h
    exact ⟨i, _, hd, he⟩
  · cases h

theorem holds_of_problem {i : ℕ} {p : Problem} (h : rs.problem i = .ok p)
    (he : e ∈ (Cell.problem p).exprs) : rs.Holds e := by
  unfold problem at h
  split at h
  · rename_i q hq
    cases h
    exact ⟨i, _, hq, he⟩
  · cases h

/-- A part is reached from what the register holds. -/
theorem holds_of_part {i n : ℕ} (h : rs.part i n = .ok e) : ∃ a, rs.Holds a ∧ a.Reaches e := by
  unfold part at h
  dsimp only at h
  split at h
  · rename_i a ha
    cases h
    have hmem := List.mem_of_getElem? ha
    split at hmem
    · rename_i b hr
      exact ⟨b, ⟨i, _, hr, List.mem_singleton_self _⟩, .child hmem (.refl _)⟩
    · rename_i c hr
      exact ⟨_, ⟨i, _, hr, hmem⟩, .refl _⟩
    · rename_i p hr
      exact ⟨_, ⟨i, _, hr, p.expressions_subset hmem⟩, .refl _⟩
    · cases hmem
    · cases hmem
  · cases h

end Registers

/-! ### Steps -/

/-- All that the registers hold was built. -/
def Registers.Accounted (rs : Registers) (l : Ledger) : Prop := ∀ e, rs.Holds e → l.Lists e

/-- All that the answer hands out or leaves behind was built. -/
def Reply.Accounted (l : Ledger) (r : Reply) : Prop := ∀ e ∈ r.exprs ++ r.cell.exprs, l.Lists e

theorem Reply.accounted_expr_iff {l : Ledger} {e : Expr} :
    (Reply.expr e).Accounted l ↔ l.Lists e := by
  simp [Accounted, exprs, cell, Cell.exprs]

theorem Reply.accounted_number (l : Ledger) (n : ℕ) : (Reply.number n).Accounted l := by
  simp [Accounted, exprs, cell, Cell.exprs]

theorem Reply.accounted_nothing (l : Ledger) : Reply.nothing.Accounted l := by
  simp [Accounted, exprs, cell, Cell.exprs]

/-- The operand is no expression or one that was built. -/
def Ready.Accounted (l : Ledger) : Ready → Prop
  | expr e => l.Lists e
  | value _ => True

namespace Registers.Accounted

variable {rs rs' : Registers} {l l' : Ledger}

theorem later (h : rs.Accounted l) (hl : l.Precedes l') : rs.Accounted l' :=
  fun e he => hl.lists (h e he)

theorem clear (h : rs.Accounted l) {i : ℕ} (hc : rs.clear i = .ok rs') : rs'.Accounted l :=
  fun e he => h e (holds_of_clear hc he)

theorem push (h : rs.Accounted l) {c : Cell} (hc : ∀ e ∈ c.exprs, l.Lists e) :
    Accounted (rs.push c) l :=
  fun e he => (holds_of_push he).elim (h e) (hc e)

theorem expr (h : rs.Accounted l) {i : ℕ} {e : Expr} (he : rs.expr i = .ok e) : l.Lists e :=
  h e (holds_of_expr he)

theorem operand (h : rs.Accounted l) {a : Operand} {f : Found} {r : Ready}
    (hf : a.found rs = .ok f) (hr : f.ready = .ok r) : r.Accounted l := by
  cases a with
  | register i =>
    obtain ⟨e, he, rfl⟩ := exists_of_map_eq_ok hf
    cases hr
    exact h.expr he
  | literal m =>
    have hvalue {x : Except Fault Value} (hx : x.map Found.value = .ok f) : r.Accounted l := by
      obtain ⟨v, -, rfl⟩ := exists_of_map_eq_ok hx
      cases hr
      trivial
    -- a dense literal becomes a value when it is completed, any other one when it is read
    cases m with
    | dense rows cols entries =>
      cases hf
      obtain ⟨v, -, rfl⟩ := exists_of_map_eq_ok hr
      trivial
    | scalar y => exact hvalue (x := (Literal.scalar y).value) hf
    | sparse rows cols ts => exact hvalue (x := (Literal.sparse rows cols ts).value) hf
    | array a => exact hvalue (x := (Literal.array a).value) hf

end Registers.Accounted

theorem Ready.Accounted.later {l l' : Ledger} {r : Ready} (hr : r.Accounted l)
    (hl : l.Precedes l') : r.Accounted l' := by
  cases r with
  | expr e => exact hl.lists hr
  | value v => trivial

theorem Ready.Accounted.cast {l : Ledger} {r : Ready} (hr : r.Accounted l) :
    r.cast.Keeps l Lists := by
  cases r with
  | expr e => exact keeps_pure hr
  | value v => exact (constant_keeps v).insist

namespace Step

variable {rs : Registers} {l : Ledger} {α β : Type} {q : Ledger → α → Prop}

/-- What is looked up is found before anything is built. -/
theorem keeps_lookUp {x : Except Fault α} {r : Ledger → β → Prop} {f : α → Build β}
    (h : ∀ a, x = .ok a → (f a).Keeps l r) : (lookUp x >>= f).Keeps l r := by
  cases x with
  | error e => exact fun hl => ⟨.refl l, hl, nofun⟩
  | ok a => exact h a rfl

theorem inForm_keeps (isChecked : Bool) {b : Build α} (hb : b.Keeps l q) :
    (inForm isChecked b).Keeps l q := by
  unfold inForm
  split
  · exact hb
  · exact hb.insist

theorem iterate_keeps {f : Expr → Build Expr}
    (hf : ∀ l' e, l.Precedes l' → l'.Lists e → (f e).Keeps l' Lists) (n : ℕ) {e : Expr}
    (he : l.Lists e) : (iterate n f e).Keeps l Lists := by
  induction n generalizing l e with
  | zero => exact keeps_pure he
  | succ n ih =>
    refine (hf l e (.refl l) he).bind fun l₁ a h₁ ha => ?_
    exact ih (fun l' b hl' hb => hf l' b (h₁.trans hl') hb) ha

theorem link_keeps (h : rs.Accounted l) (k : Link) {e : Expr} (he : l.Lists e) :
    (link rs k e).Keeps l Lists := by
  cases k with
  | operate op b =>
    refine keeps_lookUp fun f hf => keeps_lookUp fun r hr => ?_
    refine (h.operand hf hr).cast.bind fun l₁ b h₁ hb => ?_
    exact operation_keeps op (h₁.lists he) hb
  | negate => exact negation_keeps he
  | transpose => exact transposed_keeps he
  | index key => exact indexed_keeps he key
  | double => exact sum_keeps he he

theorem passes_keeps {e : Expr} (he : l.Lists e) (n : ℕ) :
    (passes e n).Keeps l fun l' r => ∀ e ∈ r.head ++ r.copy ++ r.rest, l'.Lists e := by
  refine (Entries.take_keeps n (p := .ofExpr e) he).bind fun l₁ head h₁ hhead => ?_
  refine (Entries.take_keeps _ hhead.2).bind fun l₂ copy h₂ hcopy => ?_
  refine (Entries.take_keeps _ (h₂.lists hhead.2)).bind fun l₃ rest h₃ hrest => ?_
  refine keeps_pure fun a ha => ?_
  rcases List.mem_append.1 ha with ha | ha
  · rcases List.mem_append.1 ha with ha | ha
    · exact (h₂.trans h₃).lists (hhead.1 a ha)
    · exact h₃.lists (hcopy.1 a ha)
  · exact hrest.1 a ha

/-- A builder of expressions answers with an expression that was built. -/
theorem reply_keeps {b : Build Expr} (hb : b.Keeps l Lists) :
    (do return Reply.expr (← b) : Build Reply).Keeps l Reply.Accounted :=
  hb.bind fun _ _ _ he => keeps_pure (Reply.accounted_expr_iff.2 he)

/-- Every step keeps the account, and answers with what was built. -/
theorem build_keeps (hl : l.Orderly) (h : rs.Accounted l) (st : Step) :
    (st.build rs).Keeps l Reply.Accounted := by
  cases st with
  | declare rows cols name bounds =>
    exact reply_keeps (newVariable_keeps rows cols name bounds).insist
  | constant m isChecked =>
    exact keeps_lookUp fun v _ => reply_keeps (inForm_keeps isChecked (constant_keeps v))
  | filled rows cols x => exact reply_keeps (filled_keeps rows cols x).insist
  | identity n => exact reply_keeps (identity_keeps n).insist
  | cast a =>
    exact keeps_lookUp fun f hf => keeps_lookUp fun r hr => reply_keeps (h.operand hf hr).cast
  | operate op a b isChecked =>
    refine keeps_lookUp fun f hf => keeps_lookUp fun g hg => ?_
    refine keeps_lookUp fun r hr => keeps_lookUp fun t ht => ?_
    refine (h.operand hf hr).cast.bind fun l₁ x h₁ hx => ?_
    refine ((h.operand hg ht).later h₁).cast.bind fun l₂ y h₂ hy => ?_
    exact reply_keeps (inForm_keeps isChecked (operation_keeps op (h₂.lists hx) hy))
  | negate a => exact keeps_lookUp fun e he => reply_keeps (negation_keeps (h.expr he))
  | transpose a => exact keeps_lookUp fun e he => reply_keeps (transposed_keeps (h.expr he))
  | index a key => exact keeps_lookUp fun e he => reply_keeps (indexed_keeps (h.expr he) key)
  | entry a n =>
    refine keeps_lookUp fun e he => ?_
    refine (Entries.nth?_keeps n (p := .ofExpr e) (h.expr he)).bind fun l₁ x h₁ hx => ?_
    cases x with
    | some a => exact keeps_pure (Reply.accounted_expr_iff.2 (hx a rfl))
    | none => exact keeps_pure (Reply.accounted_nothing l₁)
  | chain a k n =>
    refine keeps_lookUp fun e he => reply_keeps ?_
    exact iterate_keeps (fun l' b hl' hb => link_keeps (h.later hl') k hb) n (h.expr he)
  | part a n =>
    refine keeps_lookUp fun e he => keeps_pure ?_
    -- a part is reached from what the register holds, and the ledger lists all that is reached
    obtain ⟨b, hb, hreach⟩ := Registers.holds_of_part he
    exact Reply.accounted_expr_iff.2 (hl.reaches (h b hb) hreach).1
  | asMinimization a =>
    refine keeps_lookUp fun p hp => reply_keeps (asMinimization_keeps ?_)
    exact h _ (Registers.holds_of_problem hp List.mem_cons_self)
  | compare c a b =>
    refine keeps_lookUp fun f hf => keeps_lookUp fun g hg => ?_
    refine keeps_lookUp fun r hr => keeps_lookUp fun t ht => ?_
    -- the sides may change places before they are cast
    have hsides : (c.sides r t).1.Accounted l ∧ (c.sides r t).2.Accounted l := by
      cases c with
      | equal | atMost => exact ⟨h.operand hf hr, h.operand hg ht⟩
      | atLeast => exact ⟨h.operand hg ht, h.operand hf hr⟩
    refine hsides.1.cast.bind fun l₁ x h₁ hx => ?_
    refine (hsides.2.later h₁).cast.bind fun l₂ y h₂ hy => ?_
    refine (constraint_keeps c.kind (h₂.lists hx) hy).bind fun l₃ d _ hd => keeps_pure ?_
    intro e he
    exact hd e ((List.mem_append.1 he).elim id id)
  | pose sense a constraints =>
    refine keeps_lookUp fun f hf => keeps_lookUp fun cs hcs => keeps_lookUp fun r hr => ?_
    refine (h.operand hf hr).cast.bind fun l₁ x h₁ hx => ?_
    refine (verdict_keeps _).bind fun l₂ v h₂ _ => keeps_pure fun e he => ?_
    replace he : e ∈ (Cell.problem ⟨⟨sense, x⟩, cs⟩).exprs :=
      (List.mem_append.1 he).elim (fun he => Problem.expressions_subset _ he) id
    rcases List.mem_cons.1 he with rfl | he
    · exact h₂.lists hx
    · obtain ⟨c, hc, he⟩ := List.mem_flatMap.1 he
      obtain ⟨i, hi⟩ := exists_of_mem_mapM hcs hc
      exact (h₁.trans h₂).lists (h e (Registers.holds_of_constraint hi he))
  | entries a n =>
    refine keeps_lookUp fun e he => (passes_keeps (h.expr he) n).bind fun l₁ r _ hr => ?_
    exact keeps_pure fun a ha => hr a (by simpa [Reply.exprs, Reply.cell, Cell.exprs] using ha)
  | freshId => exact keeps_freshId.bind fun l₁ n _ _ => keeps_pure (Reply.accounted_number l₁ n)
  | drop a => exact keeps_pure (Reply.accounted_nothing l)
  | idle => exact keeps_pure (Reply.accounted_nothing l)

end Step

/-! ### Runs -/

namespace Session

/-- The ledger is orderly and accounts for all that the registers hold. -/
structure Accounted (s : Session) : Prop where
  orderly : s.ledger.Orderly
  registers : s.registers.Accounted s.ledger

theorem accounted_startingAt (first : ℕ) : (startingAt first).Accounted where
  orderly := orderly_startingAt first
  registers _ he := (Registers.not_holds_empty he).elim

variable {s : Session}

theorem Accounted.cleared (h : s.Accounted) {st : Step} {rs : Registers}
    (hrs : cleared s.registers st = .ok rs) : rs.Accounted s.ledger := by
  cases st with
  | drop a => exact h.registers.clear hrs
  | _ => cases hrs; exact h.registers

/-- A step that fails keeps the numbers that it spent, and the nodes it built on the way stay in the
account. -/
theorem step_accounted (h : s.Accounted) (st : Step) :
    s.ledger.Precedes (s.step st).2.ledger ∧ (s.step st).2.Accounted ∧
      ∀ r, (s.step st).1 = .ok r → r.Accounted (s.step st).2.ledger := by
  unfold step
  split
  · refine ⟨.refl _, ⟨h.orderly, h.registers.push ?_⟩, by simp⟩
    simp [Cell.exprs]
  rename_i rs hrs
  have hcleared := h.cleared hrs
  obtain ⟨hpre, horderly, hreply⟩ := Step.build_keeps h.orderly hcleared st h.orderly
  split
  · rename_i r l hr
    rw [hr] at hpre horderly hreply
    have hr := hreply r rfl
    refine ⟨hpre, ⟨horderly, (hcleared.later hpre).push fun e he => ?_⟩, fun r' hr' => ?_⟩
    · exact hr e (List.mem_append_right _ he)
    · cases hr'
      exact hr
  · rename_i f l hf
    rw [hf] at hpre horderly
    refine ⟨hpre, ⟨horderly, (hcleared.later hpre).push ?_⟩, by simp⟩
    simp [Cell.exprs]

theorem run_accounted (h : s.Accounted) (steps : List Step) :
    s.ledger.Precedes (s.run steps).2.ledger ∧ (s.run steps).2.Accounted ∧
      ∀ r, .ok r ∈ (s.run steps).1 → r.Accounted (s.run steps).2.ledger := by
  -- on the steps, for every session to start from; what was handed out before stays in the account
  induction steps generalizing s with
  | nil => exact ⟨.refl _, h, by simp [run]⟩
  | cons st steps ih =>
    obtain ⟨hpre, hst, hreply⟩ := step_accounted h st
    obtain ⟨hpre', hrest, hreplies⟩ := ih hst
    refine ⟨hpre.trans hpre', hrest, fun r hr => ?_⟩
    rcases List.mem_cons.1 hr with hr | hr
    · exact fun e he => hpre'.lists (hreply r hr.symm e he)
    · exact hreplies r hr

/-- A register keeps what it holds until a step empties it. -/
theorem step_registers (s : Session) (st : Step) {i : ℕ} {c : Cell}
    (hc : s.registers[i]? = some c) :
    (s.step st).2.registers[i]? = some c ∨
      (st = .drop i ∧ (s.step st).2.registers[i]? = some .empty) := by
  have hpush {rs : Registers} {d : Cell} (hd : rs[i]? = some d) (c : Cell) :
      (rs.push c)[i]? = some d := by
    obtain ⟨hlt, -⟩ := Array.getElem?_eq_some_iff.1 hd
    rw [Array.getElem?_push_lt hlt, ← hd, Array.getElem?_eq_getElem hlt]
  have hcleared {rs : Registers} (hrs : cleared s.registers st = .ok rs) :
      rs[i]? = some c ∨ (st = .drop i ∧ rs[i]? = some .empty) := by
    cases st with
    | drop a =>
      rw [Registers.getElem?_of_clear hrs]
      split
      · rename_i ha
        exact .inr ⟨ha ▸ rfl, rfl⟩
      · exact .inl hc
    | _ => cases hrs; exact .inl hc
  unfold step
  split
  · exact .inl (hpush hc _)
  rename_i rs hrs
  split
  · exact (hcleared hrs).imp (hpush · _) (And.imp_right (hpush · _))
  · exact (hcleared hrs).imp (hpush · _) (And.imp_right (hpush · _))

theorem run_registers (s : Session) (steps : List Step) {i : ℕ} {c : Cell}
    (hc : s.registers[i]? = some c) :
    (s.run steps).2.registers[i]? = some c ∨
      (.drop i ∈ steps ∧ (s.run steps).2.registers[i]? = some .empty) := by
  induction steps generalizing s c with
  | nil => exact .inl hc
  | cons st steps ih =>
    rcases step_registers s st hc with hc | ⟨rfl, hc⟩
    · exact (ih _ hc).imp_right fun h => ⟨List.mem_cons_of_mem _ h.1, h.2⟩
    · -- an empty register stays empty
      exact .inr ⟨List.mem_cons_self, (ih _ hc).elim id And.right⟩

/-! ### What a session shows -/

/-- After the steps the node is reached from a register or from an answer. -/
def Shows (first : ℕ) (steps : List Step) (n : Expr) : Prop :=
  ∃ e, (((startingAt first).run steps).2.registers.Holds e ∨
    ∃ r, .ok r ∈ ((startingAt first).run steps).1 ∧ e ∈ r.exprs) ∧ e.Reaches n

/-- What is shown was built. -/
theorem Shows.lists {first : ℕ} {steps : List Step} {n : Expr} (h : Shows first steps n) :
    ((startingAt first).run steps).2.ledger.Lists n := by
  obtain ⟨-, hs, hreplies⟩ := run_accounted (accounted_startingAt first) steps
  obtain ⟨e, he, hn⟩ := h
  refine (hs.orderly.reaches ?_ hn).1
  rcases he with he | ⟨r, hr, he⟩
  · exact hs.registers e he
  · exact hreplies r hr e (List.mem_append_left _ he)

/-- What is shown is well-formed. -/
theorem Shows.wellFormed {first : ℕ} {steps : List Step} {n : Expr} (h : Shows first steps n) :
    n.WellFormed := by
  obtain ⟨e, he, hn⟩ := h
  have hrun := run_wellFormed (s := startingAt first) Registers.wellFormed_empty steps
  refine Expr.WellFormed.reaches ?_ hn
  rcases he with ⟨i, c, hc, hmem⟩ | ⟨r, hr, hmem⟩
  · exact (hrun.1 i c hc).exprs hmem
  · exact (hrun.2 r hr).exprs hmem

end Session

/-- In what a session builds a number tells the node. -/
theorem Expr.Buildable.eq_of_id_eq {e n m : Expr} (he : e.Buildable) (hn : e.Reaches n)
    (hm : e.Reaches m) (h : n.id = m.id) : n = m := by
  obtain ⟨first, steps, r, hr, hmem⟩ := he
  have hlists {n : Expr} (hn : e.Reaches n) :
      ((Session.startingAt first).run steps).2.ledger.Lists n :=
    Session.Shows.lists ⟨e, .inr ⟨r, hr, hmem⟩, hn⟩
  obtain ⟨-, hs, -⟩ := Session.run_accounted (Session.accounted_startingAt first) steps
  exact hs.orderly.eq_of_id_eq (hlists hn) (hlists hm) h

/-! ### Sets of expressions -/

namespace Expr

instance : EquivBEq Expr where
  rfl := beq_self_eq_true (α := ℕ) _
  symm h := BEq.symm (α := ℕ) h
  trans h k := BEq.trans (α := ℕ) h k

instance : LawfulHashable Expr where
  hash_eq a b h := congrArg (fun i : ℕ => hash i) ((beq_iff_id_eq a b).1 h)

theorem contains_iff {es : List Expr} {e : Expr} :
    es.contains e = true ↔ e.id ∈ es.map Expr.id := by
  rw [List.contains_iff_exists_mem_beq, List.mem_map]
  exact exists_congr fun a => and_congr_right fun _ => (beq_iff_id_eq e a).trans eq_comm

theorem map_id_subset {es fs : List Expr} (h : ∀ e, es.contains e = true → fs.contains e = true) :
    es.map Expr.id ⊆ fs.map Expr.id := by
  intro i hi
  obtain ⟨e, -, rfl⟩ := List.mem_map.1 hi
  exact contains_iff.1 (h e (contains_iff.2 hi))

/-- A set of expressions has a member for each number. -/
theorem countDistinct_eq_card (es : List Expr) :
    countDistinct es = (es.map Expr.id).toFinset.card := by
  have hnodup : ((Std.HashSet.ofList es).toList.map Expr.id).Nodup := by
    refine List.pairwise_map.2 (Std.HashSet.distinct_toList.imp fun {a b} hne hid => ?_)
    rw [(beq_iff_id_eq a b).2 hid] at hne
    cases hne
  -- the members of the set have the numbers of the expressions it was made of
  have hcontains (e : Expr) : (Std.HashSet.ofList es).toList.contains e = es.contains e := by
    rw [Std.HashSet.contains_toList, Std.HashSet.contains_ofList]
  have hset :
      ((Std.HashSet.ofList es).toList.map Expr.id).toFinset = (es.map Expr.id).toFinset := by
    ext i
    rw [List.mem_toFinset, List.mem_toFinset]
    exact ⟨fun hi => map_id_subset (fun e he => hcontains e ▸ he) hi,
      fun hi => map_id_subset (fun e he => (hcontains e).symm ▸ he) hi⟩
  calc countDistinct es
      = ((Std.HashSet.ofList es).toList.map Expr.id).length := by
        rw [List.length_map, Std.HashSet.length_toList]
        rfl
    _ = ((Std.HashSet.ofList es).toList.map Expr.id).toFinset.card :=
        (List.toFinset_card_of_nodup hnodup).symm
    _ = (es.map Expr.id).toFinset.card := by rw [hset]

/-- Where a number tells the node, the set has a member for each node. -/
theorem countDistinct_eq_ncard {es : List Expr}
    (h : ∀ n ∈ es, ∀ m ∈ es, n.id = m.id → n = m) : countDistinct es = {e | e ∈ es}.ncard := by
  have himage : (((es.map Expr.id).toFinset : Finset ℕ) : Set ℕ) = Expr.id '' {e | e ∈ es} := by
    ext i
    simp
  rw [countDistinct_eq_card, ← Set.ncard_coe_finset, himage]
  exact Set.InjOn.ncard_image fun n hn m hm hid => h n hn m hm hid

end Expr

namespace Session

/-- After any steps, those that fail among them: the number of what is shown is spent, and what
stands below a node has a smaller number, so that no node is below itself.  Whatever steps follow,
they build nodes with new numbers and change none of those that are there, what they show under an
old number was there before, and a register keeps what it holds until it is emptied.  All nodes have
ascending numbers in the order in which they were built, so each node that is built has a number of
its own.  Two nodes with one number, of which one may be shown much later, are the same; so a set of
what is shown has as many members as there are numbers, or nodes.

A counter of 64 bits gives the same numbers, and tells the nodes just so, as long as no more than
`2 ^ 64` of them are spent; those that are given again after that are not these. -/
theorem run_numbered (first : ℕ) (steps more : List Step) :
    let s := ((startingAt first).run steps).2
    let s' := (s.run more).2
    (∀ n, Shows first steps n → s.ledger.Lists n ∧ n.id < s.ledger.next ∧
      ∀ c ∈ n.children, c.id < n.id ∧ ∀ m, c.Reaches m → m.id < n.id ∧ m ≠ n) ∧
    (∃ built, s'.ledger.nodes = s.ledger.nodes ++ built ∧
      ∀ n ∈ built, s.ledger.next ≤ n.id ∧ n.id < s'.ledger.next) ∧
    s'.ledger.nodes.Pairwise (fun n m => n.id < m.id) ∧
    (s'.ledger.next ≤ 2 ^ 64 → ∀ n, s'.ledger.Lists n → n.word.toNat = n.id ∧
      ∀ m, s'.ledger.Lists m → (n.word = m.word ↔ n = m)) ∧
    (∀ m, Shows first (steps ++ more) m → m.id < s.ledger.next → s.ledger.Lists m) ∧
    (∀ (i : ℕ) (c : Cell), s.registers[i]? = some c → s'.registers[i]? = some c ∨
      (.drop i ∈ more ∧ s'.registers[i]? = some .empty)) ∧
    (∀ n m, Shows first steps n → Shows first (steps ++ more) m →
      (n.id = m.id ↔ n = m) ∧ ((n == m) = true ↔ n = m) ∧
        ((n == m) = true → hash n = hash m)) ∧
    ∀ es : List Expr, (∀ e ∈ es, Shows first steps e) →
      Expr.countDistinct es = (es.map Expr.id).toFinset.card ∧
        Expr.countDistinct es = {e | e ∈ es}.ncard := by
  intro s s'
  obtain ⟨-, hs, -⟩ := run_accounted (accounted_startingAt first) steps
  obtain ⟨hpre, hs', -⟩ := run_accounted hs more
  have hlater {m : Expr} (hm : Shows first (steps ++ more) m) : s'.ledger.Lists m := by
    have hlists := hm.lists
    rwa [run_append] at hlists
  refine ⟨fun n hn => ?_, ?_, hs'.orderly.ascending, fun hnext n hn => ?_,
    fun m hm hlt => hpre.lists_of_lt (hlater hm) hlt,
    fun i c hc => run_registers s more hc, fun n m hn hm => ?_,
    fun es hes => ⟨Expr.countDistinct_eq_card es, ?_⟩⟩
  · refine ⟨hn.lists, hs.orderly.spent n hn.lists, fun c hc => ?_⟩
    refine ⟨(hs.orderly.operands n hn.lists c hc).2, fun m hm => ?_⟩
    have hlt := hs.orderly.reaches_child hn.lists hc hm
    exact ⟨hlt, fun heq => hlt.ne (congrArg Expr.id heq)⟩
  · obtain ⟨built, hbuilt, hnew⟩ := hpre.nodes
    refine ⟨built, hbuilt, fun n hn => ⟨hnew n hn, hs'.orderly.spent n ?_⟩⟩
    rw [Ledger.Lists, hbuilt]
    exact List.mem_append_right _ hn
  · exact ⟨hs'.orderly.toNat_word hnext hn, fun m hm => hs'.orderly.word_eq_iff hnext hn hm⟩
  · -- both are in the later ledger, where a number tells the node
    have hid : n.id = m.id ↔ n = m :=
      ⟨hs'.orderly.eq_of_id_eq (hpre.lists hn.lists) (hlater hm), congrArg Expr.id⟩
    exact ⟨hid, (Expr.beq_iff_id_eq n m).trans hid, fun h => hash_eq h⟩
  · refine Expr.countDistinct_eq_ncard fun n hn m hm hid => ?_
    exact hs.orderly.eq_of_id_eq (hes n hn).lists (hes m hm).lists hid

/-- A difference that is refused after two nodes were built for it, a number spent on nothing, and a
sum whose operand is seen again after its register was emptied. -/
theorem run_numbered_sum :
    let steps : List Step := [
      .declare 2 1 none [],
      .operate .difference (.register 0) (.literal (.dense 3 1 #[1.0, 1.0, 1.0])) true,
      .freshId,
      .operate .sum (.register 0) (.register 0) true]
    let more : List Step := [.drop 0, .part 3 1]
    let s := ((startingAt 0).run steps).2
    ∃ n m, s.registers[0]? = some (.expr n) ∧
      ((startingAt 0).run (steps ++ more)).2.registers[5]? = some (.expr m) ∧ n.id = m.id ∧ n = m ∧
      n.id < s.ledger.next ∧ n.word.toNat = n.id ∧
      Expr.countDistinct [n, n] = {e | e ∈ [n, n]}.ncard := by
  intro steps more s
  obtain ⟨n, m, hn, hm, hid⟩ : ∃ n m, s.registers[0]? = some (.expr n) ∧
      ((startingAt 0).run (steps ++ more)).2.registers[5]? = some (.expr m) ∧ n.id = m.id :=
    ⟨_, _, rfl, rfl, rfl⟩
  have hshown : Shows 0 steps n := ⟨n, .inl ⟨0, _, hn, List.mem_singleton_self n⟩, .refl n⟩
  have hagain : Shows 0 (steps ++ more) m :=
    ⟨m, .inl ⟨5, _, hm, List.mem_singleton_self m⟩, .refl m⟩
  obtain ⟨hnode, ⟨built, hbuilt, -⟩, -, hword, -, -, hsame, hset⟩ := run_numbered 0 steps more
  have hlater : (s.run more).2.ledger.Lists n := by
    rw [Ledger.Lists, hbuilt]
    exact List.mem_append_left _ (hnode n hshown).1
  -- one number in two registers, so one node
  refine ⟨n, m, hn, hm, hid, (hsame n m hshown hagain).1.1 hid, (hnode n hshown).2.1,
    (hword ?_ n hlater).1, (hset [n, n] (by simpa using hshown)).2⟩
  exact (by decide : 5 ≤ 2 ^ 64)

end Session

end DisciplinedConvex
