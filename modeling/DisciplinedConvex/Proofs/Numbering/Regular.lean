/-
DisciplinedConvex/Proofs/Numbering/Regular.lean

Builds see nothing of the ledger but the next number, and spend numbers on nodes only.

`b.Regular` says both of a build: from ledgers with the same next number it comes to the
same result and the same next number, whatever was reported before, and the numbers
that it spends are those of the nodes that it makes, whether it fails or not.  One
lemma for each primitive of builds and one for sequencing; `freshId` is the only
primitive that is not regular, and the step that asks for it the only such step
(`Step.build_regular`).

So the next number of a session counts the nodes and those steps (`Session.run_next`),
each number below it is that of a node or was answered (`Session.run_numbers`), and
sessions with the same registers and the same next number go on alike
(`Session.run_alike`).
-/
import DisciplinedConvex.Session
import DisciplinedConvex.Proofs.Graph.Built

namespace DisciplinedConvex

namespace Build

variable {α β : Type}

/-- Of the ledger the build sees the next number only, and it spends numbers on nodes only. -/
structure Regular (b : Build α) : Prop where
  result : ∀ {l m : Ledger}, l.next = m.next → (b.perform l).1 = (b.perform m).1
  next : ∀ {l m : Ledger}, l.next = m.next → (b.perform l).2.next = (b.perform m).2.next
  gains : ∀ l : Ledger, ∃ built, l.Gains built (b.perform l).2

/-- What has no part in the ledger. -/
theorem regular_of_perform {b : Build α} {x : Except Fault α} (h : ∀ l, b.perform l = (x, l)) :
    b.Regular where
  result {l m} _ := by rw [h l, h m]
  next {l m} hlm := by rw [h l, h m, hlm]
  gains l := ⟨[], by rw [h l]; exact l.gains_nil⟩

theorem regular_pure (a : α) : (pure a : Build α).Regular := regular_of_perform (perform_pure a)

theorem regular_throw (f : Fault) : (throw f : Build α).Regular :=
  regular_of_perform (perform_throw f)

theorem regular_check (x : Except Error α) : (check x).Regular :=
  regular_of_perform (perform_check x)

theorem regular_attempt (x : Except Abort α) : (attempt x).Regular :=
  regular_of_perform (perform_attempt x)

/-- Sequencing: what the first build comes to is all that the second one sees. -/
theorem Regular.bind {b : Build α} {f : α → Build β} (hb : b.Regular) (hf : ∀ a, (f a).Regular) :
    (b >>= f).Regular := by
  have hsame {l m : Ledger} (hlm : l.next = m.next) :
      ((b >>= f).perform l).1 = ((b >>= f).perform m).1 ∧
        ((b >>= f).perform l).2.next = ((b >>= f).perform m).2.next := by
    have hresult := hb.result hlm
    have hnext := hb.next hlm
    rw [perform_bind, perform_bind]
    generalize b.perform l = p at hresult hnext ⊢
    generalize b.perform m = q at hresult hnext ⊢
    obtain ⟨x, l'⟩ := p
    obtain ⟨y, m'⟩ := q
    obtain rfl : x = y := hresult
    cases x with
    | error e => exact ⟨rfl, hnext⟩
    | ok a => exact ⟨(hf a).result hnext, (hf a).next hnext⟩
  refine ⟨fun hlm => (hsame hlm).1, fun hlm => (hsame hlm).2, fun l => ?_⟩
  obtain ⟨built, hbuilt⟩ := hb.gains l
  rw [perform_bind]
  generalize b.perform l = p at hbuilt ⊢
  obtain ⟨e | a, l'⟩ := p
  · exact ⟨built, hbuilt⟩
  · obtain ⟨more, hmore⟩ := (hf a).gains l'
    exact ⟨built ++ more, hbuilt.trans hmore⟩

theorem regular_report {e : Event} (he : e.node? = none) : (report e).Regular where
  result _ := rfl
  next hlm := hlm
  gains l := ⟨[], Ledger.gains_report he l⟩

theorem regular_node {a : Attributes} {make : Label → Expr}
    (hid : ∀ i, (make ⟨i, a⟩).id = i) : (node a make).Regular where
  result {l m} hlm := by rw [perform_node, perform_node, hlm]
  next {l m} hlm := congrArg (· + 1) hlm
  gains l := ⟨_, Ledger.gains_node (hid l.next)⟩

theorem Regular.insist {b : Build α} (hb : b.Regular) : b.insist.Regular where
  result hlm := by rw [perform_insist, perform_insist, hb.result hlm]
  next hlm := by rw [perform_insist, perform_insist, hb.next hlm]
  gains l := by
    rw [perform_insist]
    exact hb.gains l

/-! ### Leaves -/

theorem newVariable_regular (rows cols : UInt64) (name : Option String) (bounds : List Bound) :
    (newVariable rows cols name bounds).Regular :=
  (regular_check _).bind fun _ => regular_node fun _ => rfl

theorem constant_regular (v : Value) : (constant v).Regular :=
  (regular_check _).bind fun _ => regular_node fun _ => rfl

theorem filled_regular (rows cols : UInt64) (x : Float) : (filled rows cols x).Regular := by
  refine (regular_check _).bind fun s => ?_
  split
  · exact constant_regular _
  · exact constant_regular _

/-! ### Operations -/

theorem sum_regular (a b : Expr) : (sum a b).Regular :=
  (regular_check _).bind fun _ => regular_node fun _ => rfl

theorem negation_regular (a : Expr) : (negation a).Regular := regular_node fun _ => rfl

theorem difference_regular (a b : Expr) : (difference a b).Regular :=
  (negation_regular b).bind fun c => sum_regular a c

theorem transposed_regular (a : Expr) : (transposed a).Regular := by
  unfold transposed
  split
  · exact regular_pure a
  · exact regular_node fun _ => rfl

theorem scaled_regular (k a : Expr) : (scaled k a).Regular :=
  (regular_check _).bind fun _ => regular_node fun _ => rfl

theorem product_regular (a b : Expr) : (product a b).Regular := by
  unfold product
  split
  · exact scaled_regular a b
  split
  · refine (regular_check _).bind fun _ => (regular_report rfl).bind fun _ => ?_
    refine (transposed_regular b).bind fun k => (transposed_regular a).bind fun x => ?_
    exact (scaled_regular k x).bind fun p => transposed_regular p
  · exact regular_throw _

theorem quotient_regular (a k : Expr) : (quotient a k).Regular := by
  have hnode : (node (a.attributes.div k.attributes) (.div · a k)).Regular :=
    regular_node fun _ => rfl
  unfold quotient
  split
  · split
    · exact (regular_report rfl).bind fun _ => hnode
    · exact hnode
  · exact regular_throw _

theorem selected_regular (a : Expr) (s : Selection) : (selected a s).Regular :=
  (regular_attempt _).bind fun _ => regular_node fun _ => rfl

theorem indexed_regular (a : Expr) (key : Key) : (indexed a key).Regular := by
  unfold indexed
  split
  · exact regular_pure a
  · exact (regular_check _).bind fun s => selected_regular a s

theorem entry_regular (a : Expr) (row col : UInt64) : (entry a row col).Regular := by
  unfold entry
  split
  · exact regular_pure a
  · exact selected_regular a _

theorem operation_regular (op : Operation) (a b : Expr) : (op.apply a b).Regular := by
  cases op with
  | sum => exact sum_regular a b
  | difference => exact difference_regular a b
  | product => exact product_regular a b
  | quotient => exact quotient_regular a b

/-! ### Constraints and problems -/

theorem constraint_regular (kind : ConstraintKind) (a b : Expr) : (constraint kind a b).Regular :=
  (difference_regular a b).bind fun _ => (regular_report rfl).bind fun _ => regular_pure _

theorem asMinimization_regular (o : Objective) : (asMinimization o).Regular := by
  unfold asMinimization
  split
  · exact regular_pure _
  · exact negation_regular _

theorem verdict_regular (p : Problem) : (verdict p).Regular :=
  (regular_report rfl).bind fun _ => regular_pure _

end Build

open Build

/-! ### Entries one by one -/

namespace Entries

theorem take_regular (n : ℕ) (p : Entries) : (p.take n).Regular := by
  induction n generalizing p with
  | zero => exact regular_pure _
  | succ n ih =>
    unfold take
    split
    · exact regular_pure _
    · exact (entry_regular _ _ _).bind fun e => (ih p.advance).bind fun r => regular_pure _

theorem nth?_regular (n : ℕ) (p : Entries) : (p.nth? n).Regular :=
  (take_regular (n + 1) p).bind fun _ => regular_pure _

end Entries

/-! ### Steps -/

theorem Ready.cast_regular (r : Ready) : r.cast.Regular := by
  cases r with
  | expr e => exact regular_pure e
  | value v => exact (constant_regular v).insist

namespace Step

variable {α : Type} {rs : Registers}

theorem perform_lookUp (x : Except Fault α) (l : Ledger) : (lookUp x).perform l = (x, l) := by
  cases x <;> rfl

theorem regular_lookUp (x : Except Fault α) : (lookUp x).Regular :=
  regular_of_perform (perform_lookUp x)

theorem inForm_regular (isChecked : Bool) {b : Build α} (hb : b.Regular) :
    (inForm isChecked b).Regular := by
  unfold inForm
  split
  · exact hb
  · exact hb.insist

theorem iterate_regular {f : Expr → Build Expr} (hf : ∀ e, (f e).Regular) (n : ℕ) (e : Expr) :
    (iterate n f e).Regular := by
  induction n generalizing e with
  | zero => exact regular_pure e
  | succ n ih => exact (hf e).bind fun a => ih a

theorem link_regular (k : Link) (e : Expr) : (link rs k e).Regular := by
  cases k with
  | operate op b =>
    refine (regular_lookUp _).bind fun f => (regular_lookUp _).bind fun r => ?_
    exact r.cast_regular.bind fun b => operation_regular op e b
  | negate => exact negation_regular e
  | transpose => exact transposed_regular e
  | index key => exact indexed_regular e key
  | double => exact sum_regular e e

theorem passes_regular (e : Expr) (n : ℕ) : (passes e n).Regular := by
  refine (Entries.take_regular n _).bind fun head => ?_
  refine (Entries.take_regular _ head.2).bind fun copy => ?_
  exact (Entries.take_regular _ head.2).bind fun rest => regular_pure _

/-- The step spends a number on nothing. -/
def isFreshId : Step → Bool
  | freshId => true
  | _ => false

theorem reply_regular {b : Build Expr} (hb : b.Regular) :
    (do return Reply.expr (← b) : Build Reply).Regular :=
  hb.bind fun _ => regular_pure _

/-- Every step is regular but the one that asks for a number. -/
theorem build_regular {st : Step} (h : st.isFreshId = false) : (st.build rs).Regular := by
  cases st with
  | declare rows cols name bounds =>
    exact reply_regular (newVariable_regular rows cols name bounds).insist
  | constant m isChecked =>
    refine (regular_lookUp _).bind fun v => reply_regular ?_
    exact inForm_regular isChecked (constant_regular v)
  | filled rows cols x => exact reply_regular (filled_regular rows cols x).insist
  | identity n => exact reply_regular (constant_regular _).insist
  | cast a =>
    refine (regular_lookUp _).bind fun f => (regular_lookUp _).bind fun r => ?_
    exact reply_regular r.cast_regular
  | operate op a b isChecked =>
    refine (regular_lookUp _).bind fun f => (regular_lookUp _).bind fun g => ?_
    refine (regular_lookUp _).bind fun r => (regular_lookUp _).bind fun t => ?_
    refine r.cast_regular.bind fun x => t.cast_regular.bind fun y => ?_
    exact reply_regular (inForm_regular isChecked (operation_regular op x y))
  | negate a => exact (regular_lookUp _).bind fun e => reply_regular (negation_regular e)
  | transpose a => exact (regular_lookUp _).bind fun e => reply_regular (transposed_regular e)
  | index a key => exact (regular_lookUp _).bind fun e => reply_regular (indexed_regular e key)
  | entry a n =>
    refine (regular_lookUp _).bind fun e => (Entries.nth?_regular n _).bind fun x => ?_
    cases x with
    | some b => exact regular_pure _
    | none => exact regular_pure _
  | chain a k n =>
    refine (regular_lookUp _).bind fun e => reply_regular ?_
    exact iterate_regular (link_regular k) n e
  | part a n => exact (regular_lookUp _).bind fun e => regular_pure _
  | asMinimization a =>
    exact (regular_lookUp _).bind fun p => reply_regular (asMinimization_regular p.objective)
  | compare c a b =>
    refine (regular_lookUp _).bind fun f => (regular_lookUp _).bind fun g => ?_
    refine (regular_lookUp _).bind fun r => (regular_lookUp _).bind fun t => ?_
    refine (Ready.cast_regular _).bind fun x => (Ready.cast_regular _).bind fun y => ?_
    exact (constraint_regular c.kind x y).bind fun d => regular_pure _
  | pose sense a constraints =>
    refine (regular_lookUp _).bind fun f => (regular_lookUp _).bind fun cs => ?_
    refine (regular_lookUp _).bind fun r => r.cast_regular.bind fun x => ?_
    exact (verdict_regular _).bind fun v => regular_pure _
  | entries a n =>
    exact (regular_lookUp _).bind fun e => (passes_regular e n).bind fun r => regular_pure _
  | freshId => cases h
  | drop a => exact regular_pure _
  | idle => exact regular_pure _

/-- Every step, the one that asks for a number too, goes by the registers and the next number. -/
theorem build_alike (rs : Registers) (st : Step) {l m : Ledger} (hlm : l.next = m.next) :
    ((st.build rs).perform l).1 = ((st.build rs).perform m).1 ∧
      ((st.build rs).perform l).2.next = ((st.build rs).perform m).2.next := by
  rcases hst : st.isFreshId
  · exact ⟨(build_regular hst).result hlm, (build_regular hst).next hlm⟩
  · cases st with
    | freshId => exact ⟨congrArg (fun n => Except.ok (Reply.number n)) hlm, congrArg (· + 1) hlm⟩
    | _ => cases hst

end Step

/-! ### Runs -/

namespace Session

/-- The sessions hold the same and have the same next number. -/
structure Alike (s t : Session) : Prop where
  registers : s.registers = t.registers
  next : s.ledger.next = t.ledger.next

theorem step_alike {s t : Session} (h : s.Alike t) (st : Step) :
    (s.step st).1 = (t.step st).1 ∧ (s.step st).2.Alike (t.step st).2 := by
  unfold step
  rw [h.registers]
  rcases cleared t.registers st with f | rs
  · exact ⟨rfl, rfl, h.next⟩
  · obtain ⟨hresult, hnext⟩ := st.build_alike rs h.next
    dsimp only
    generalize (st.build rs).perform s.ledger = p at hresult hnext ⊢
    generalize (st.build rs).perform t.ledger = q at hresult hnext ⊢
    obtain ⟨x, l⟩ := p
    obtain ⟨y, m⟩ := q
    obtain rfl : x = y := hresult
    cases x with
    | error f => exact ⟨rfl, rfl, hnext⟩
    | ok r => exact ⟨rfl, rfl, hnext⟩

/-- Sessions that hold the same go on alike, whatever else was built in them. -/
theorem run_alike {s t : Session} (h : s.Alike t) (steps : List Step) :
    (s.run steps).1 = (t.run steps).1 ∧ (s.run steps).2.Alike (t.run steps).2 := by
  induction steps generalizing s t with
  | nil => exact ⟨rfl, h⟩
  | cons st steps ih =>
    obtain ⟨hanswer, hst⟩ := step_alike h st
    obtain ⟨hanswers, hrest⟩ := ih hst
    exact ⟨congrArg₂ List.cons hanswer hanswers, hrest⟩

theorem step_gains (s : Session) {st : Step} (h : st.isFreshId = false) :
    ∃ built, s.ledger.Gains built (s.step st).2.ledger := by
  unfold step
  rcases cleared s.registers st with f | rs
  · exact ⟨[], s.ledger.gains_nil⟩
  · have hregular : (st.build rs).Regular := Step.build_regular h
    obtain ⟨built, hbuilt⟩ := hregular.gains s.ledger
    dsimp only
    generalize (st.build rs).perform s.ledger = p at hbuilt ⊢
    obtain ⟨f | r, l⟩ := p
    · exact ⟨built, hbuilt⟩
    · exact ⟨built, hbuilt⟩

/-- A step spends one number for each node that it builds, and one more if it asks for a number. -/
theorem step_next (s : Session) (st : Step) :
    ∃ built, (s.step st).2.ledger.nodes = s.ledger.nodes ++ built ∧
      (s.step st).2.ledger.next = s.ledger.next + built.length + st.isFreshId.toNat := by
  rcases hst : st.isFreshId
  · obtain ⟨built, hbuilt⟩ := s.step_gains hst
    exact ⟨built, hbuilt.nodes, hbuilt.next⟩
  · cases st with
    | freshId => exact ⟨[], (List.append_nil _).symm, rfl⟩
    | _ => cases hst

/-- Over a run, too, a number is spent for each node and for each step that asks for one. -/
theorem run_next (s : Session) (steps : List Step) :
    ∃ built, (s.run steps).2.ledger.nodes = s.ledger.nodes ++ built ∧
      (s.run steps).2.ledger.next =
        s.ledger.next + built.length + steps.countP Step.isFreshId := by
  induction steps generalizing s with
  | nil => exact ⟨[], (List.append_nil _).symm, rfl⟩
  | cons st steps ih =>
    obtain ⟨xs, hxs, hnext⟩ := s.step_next st
    obtain ⟨ys, hys, hnext'⟩ := ih (s.step st).2
    refine ⟨xs ++ ys, ?_, ?_⟩
    · show ((s.step st).2.run steps).2.ledger.nodes = _
      rw [hys, hxs, List.append_assoc]
    · show ((s.step st).2.run steps).2.ledger.next = _
      rw [hnext', hnext, List.length_append, List.countP_cons]
      cases st.isFreshId <;> simp <;> omega

/-- Each number that a step spends is that of a node or the answer to the step. -/
theorem step_numbers (s : Session) (st : Step) {i : ℕ} (hi : s.ledger.next ≤ i)
    (hlt : i < (s.step st).2.ledger.next) :
    (∃ n ∈ (s.step st).2.ledger.nodes, n.id = i) ∨ (s.step st).1 = .ok (.number i) := by
  rcases hst : st.isFreshId
  · obtain ⟨built, hbuilt⟩ := s.step_gains hst
    have hmem : i ∈ built.map Expr.id := by
      rw [hbuilt.ids, List.mem_range'_1]
      exact ⟨hi, hbuilt.next ▸ hlt⟩
    obtain ⟨n, hn, hid⟩ := List.mem_map.1 hmem
    exact .inl ⟨n, by rw [hbuilt.nodes]; exact List.mem_append_right _ hn, hid⟩
  · cases st with
    | freshId =>
      obtain rfl : i = s.ledger.next := Nat.le_antisymm (Nat.lt_succ_iff.1 hlt) hi
      exact .inr rfl
    | _ => cases hst

/-- Each number that a run spends is that of a node or an answer. -/
theorem run_numbers (s : Session) (steps : List Step) {i : ℕ} (hi : s.ledger.next ≤ i)
    (hlt : i < (s.run steps).2.ledger.next) :
    (∃ n ∈ (s.run steps).2.ledger.nodes, n.id = i) ∨ .ok (.number i) ∈ (s.run steps).1 := by
  induction steps generalizing s with
  | nil => exact absurd hlt hi.not_gt
  | cons st steps ih =>
    rcases lt_or_ge i (s.step st).2.ledger.next with hstep | hge
    · refine (s.step_numbers st hi hstep).imp ?_ fun hanswer => List.mem_cons.2 (.inl hanswer.symm)
      rintro ⟨n, hn, hid⟩
      -- what the first step built is there in the end
      obtain ⟨built, hnodes, -⟩ := (s.step st).2.run_next steps
      refine ⟨n, ?_, hid⟩
      show n ∈ ((s.step st).2.run steps).2.ledger.nodes
      rw [hnodes]
      exact List.mem_append_left _ hn
    · exact (ih (s.step st).2 hge hlt).imp_right (List.mem_cons_of_mem _)

end Session

end DisciplinedConvex
