/-
DisciplinedConvex/Proofs/Numbering/Account.lean

The ledger as an account of all nodes and their numbers.

In an orderly ledger the nodes stand in the order of their numbers, below the number
that comes next, and each after its operands.  So a number tells a node
(`Ledger.Orderly.eq_of_id_eq`), and what a node is made of was there before it.

`b.Keeps l q` says that the build `b` leaves `l` orderly, takes no node back and gives
none a number that was spent before, whether it fails or not, and that a result is as
`q` says of the ledger after it.  One lemma for each primitive of builds and one for
sequencing; every builder then makes nodes of nodes that the ledger lists.
-/
import Mathlib
import DisciplinedConvex.Build.Entries
import DisciplinedConvex.Build.Leaf
import DisciplinedConvex.Build.Comparison
import DisciplinedConvex.Proofs.Graph.Built

namespace DisciplinedConvex

namespace Ledger

variable {l l' l₁ l₂ : Ledger} {e n m : Expr}

/-! ### Nodes that were built -/

/-- The node was built. -/
def Lists (l : Ledger) (e : Expr) : Prop := e ∈ l.nodes

theorem nodes_report {e : Event} (he : e.node? = none) (l : Ledger) :
    (l.report e).nodes = l.nodes := by
  simpa using (gains_report he l).nodes

theorem nodes_spend (l : Ledger) : l.spend.nodes = l.nodes := rfl

theorem nodes_built (l : Ledger) (e : Expr) :
    (l.spend.report (.built e)).nodes = l.nodes ++ [e] := by
  simp [nodes, Event.node?]

theorem lists_built_iff : (l.spend.report (.built e)).Lists n ↔ l.Lists n ∨ n = e := by
  rw [Lists, nodes_built, List.mem_append, List.mem_singleton, Lists]

/-! ### Orderly ledgers -/

/-- The nodes have ascending numbers, all of them spent, and stand after their operands. -/
structure Orderly (l : Ledger) : Prop where
  ascending : l.nodes.Pairwise fun n m => n.id < m.id
  spent : ∀ n, l.Lists n → n.id < l.next
  operands : ∀ n, l.Lists n → ∀ c ∈ n.children, l.Lists c ∧ c.id < n.id

/-- The second ledger has all nodes of the first one, and new ones with numbers that the first one
has not spent. -/
structure Precedes (l l' : Ledger) : Prop where
  next_le : l.next ≤ l'.next
  nodes : ∃ built, l'.nodes = l.nodes ++ built ∧ ∀ n ∈ built, l.next ≤ n.id

theorem orderly_startingAt (first : ℕ) : (startingAt first).Orderly where
  ascending := .nil
  spent _ hn := (List.not_mem_nil hn).elim
  operands _ hn := (List.not_mem_nil hn).elim

namespace Orderly

/-- A number tells the node. -/
theorem eq_of_id_eq (hl : l.Orderly) (hn : l.Lists n) (hm : l.Lists m) (h : n.id = m.id) :
    n = m := by
  have hnodup : (l.nodes.map Expr.id).Nodup :=
    List.pairwise_map.2 (hl.ascending.imp fun hlt => hlt.ne)
  exact List.inj_on_of_nodup_map hnodup hn hm h

/-- Whatever a node reaches was built too, and not after it. -/
theorem reaches (hl : l.Orderly) (he : l.Lists e) (hn : e.Reaches n) :
    l.Lists n ∧ n.id ≤ e.id := by
  induction hn with
  | refl e => exact ⟨he, le_rfl⟩
  | @child e c n hc hn ih =>
    obtain ⟨hlists, hlt⟩ := hl.operands e he c hc
    obtain ⟨hn, hle⟩ := ih hlists
    exact ⟨hn, hle.trans hlt.le⟩

/-- While a counter of 64 bits has not come to its end, it gives every node its number. -/
theorem toNat_word (hl : l.Orderly) (hnext : l.next ≤ 2 ^ 64) (hn : l.Lists n) :
    n.word.toNat = n.id := by
  rw [Expr.word, UInt64.toNat_ofNat']
  exact Nat.mod_eq_of_lt ((hl.spent n hn).trans_le hnext)

theorem word_eq_iff (hl : l.Orderly) (hnext : l.next ≤ 2 ^ 64) (hn : l.Lists n) (hm : l.Lists m) :
    n.word = m.word ↔ n = m := by
  refine ⟨fun h => hl.eq_of_id_eq hn hm ?_, congrArg Expr.word⟩
  rw [← hl.toNat_word hnext hn, ← hl.toNat_word hnext hm, h]

/-- What is reached through an operand has a smaller number than the node; in particular it is
another node. -/
theorem reaches_child (hl : l.Orderly) (he : l.Lists e) {c : Expr} (hc : c ∈ e.children)
    (hn : c.Reaches n) : n.id < e.id := by
  obtain ⟨hlists, hlt⟩ := hl.operands e he c hc
  exact (hl.reaches hlists hn).2.trans_lt hlt

end Orderly

namespace Precedes

theorem refl (l : Ledger) : l.Precedes l := ⟨le_rfl, [], by simp⟩

theorem trans (h : l.Precedes l₁) (k : l₁.Precedes l₂) : l.Precedes l₂ := by
  obtain ⟨xs, hxs, hnew⟩ := h.nodes
  obtain ⟨ys, hys, hnew'⟩ := k.nodes
  refine ⟨h.next_le.trans k.next_le, xs ++ ys, by rw [hys, hxs, List.append_assoc], ?_⟩
  intro n hn
  rcases List.mem_append.1 hn with hn | hn
  · exact hnew n hn
  · exact h.next_le.trans (hnew' n hn)

theorem lists (h : l.Precedes l') (hn : l.Lists n) : l'.Lists n := by
  obtain ⟨built, hbuilt, -⟩ := h.nodes
  rw [Lists, hbuilt]
  exact List.mem_append_left built hn

/-- A node with a number that was spent before is one that was there before. -/
theorem lists_of_lt (h : l.Precedes l') (hn : l'.Lists n) (hlt : n.id < l.next) : l.Lists n := by
  obtain ⟨built, hbuilt, hnew⟩ := h.nodes
  rw [Lists, hbuilt] at hn
  rcases List.mem_append.1 hn with hn | hn
  · exact hn
  · exact absurd (hnew n hn) hlt.not_ge

theorem report (l : Ledger) {e : Event} (he : e.node? = none) : l.Precedes (l.report e) :=
  ⟨le_rfl, [], by rw [nodes_report he, List.append_nil], by simp⟩

theorem spend (l : Ledger) : l.Precedes l.spend :=
  ⟨Nat.le_succ _, [], by rw [nodes_spend, List.append_nil], by simp⟩

theorem built (l : Ledger) (hid : e.id = l.next) : l.Precedes (l.spend.report (.built e)) :=
  ⟨Nat.le_succ _, [e], nodes_built l e, by simp [hid]⟩

end Precedes

namespace Orderly

theorem report (hl : l.Orderly) {e : Event} (he : e.node? = none) : (l.report e).Orderly := by
  have hnodes := nodes_report he l
  refine ⟨hnodes ▸ hl.ascending, ?_, ?_⟩
  · unfold Lists
    rw [hnodes]
    exact hl.spent
  · unfold Lists
    rw [hnodes]
    exact hl.operands

theorem spend (hl : l.Orderly) : l.spend.Orderly where
  ascending := hl.ascending
  spent n hn := (hl.spent n hn).trans (Nat.lt_succ_self _)
  operands := hl.operands

/-- A node with the next number on operands that were built. -/
theorem built (hl : l.Orderly) (hid : e.id = l.next) (hc : ∀ c ∈ e.children, l.Lists c) :
    (l.spend.report (.built e)).Orderly := by
  have hpre := Precedes.built l hid
  -- the new node is the last one and has the largest number
  refine ⟨?_, fun n hn => ?_, fun n hn c hcn => ?_⟩
  · rw [nodes_built, List.pairwise_append]
    refine ⟨hl.ascending, List.pairwise_singleton _ _, fun n hn m hm => ?_⟩
    rw [List.mem_singleton.1 hm, hid]
    exact hl.spent n hn
  · rcases lists_built_iff.1 hn with hn | rfl
    · exact (hl.spent n hn).trans (Nat.lt_succ_self _)
    · exact hid ▸ Nat.lt_succ_self _
  · rcases lists_built_iff.1 hn with hn | rfl
    · obtain ⟨hlists, hlt⟩ := hl.operands n hn c hcn
      exact ⟨hpre.lists hlists, hlt⟩
    · exact ⟨hpre.lists (hc c hcn), hid ▸ hl.spent c (hc c hcn)⟩

end Orderly

end Ledger

/-! ### Builds that keep the account -/

namespace Build

open Ledger

variable {α β : Type} {l : Ledger} {p q : Ledger → α → Prop} {r : Ledger → β → Prop}

/-- From an orderly ledger the build comes to an orderly one that is preceded by it, and a result is
as stated of that one. -/
def Keeps (b : Build α) (l : Ledger) (q : Ledger → α → Prop) : Prop :=
  l.Orderly → l.Precedes (b.perform l).2 ∧ (b.perform l).2.Orderly ∧
    ∀ a, (b.perform l).1 = .ok a → q (b.perform l).2 a

theorem keeps_pure {a : α} (h : q l a) : (pure a : Build α).Keeps l q := by
  refine fun hl => ⟨.refl l, hl, fun b hb => ?_⟩
  cases hb
  exact h

theorem keeps_throw (f : Fault) : (throw f : Build α).Keeps l q :=
  fun hl => ⟨.refl l, hl, nofun⟩

/-- Sequencing: the second build starts from a ledger that the first one preserved. -/
theorem Keeps.bind {b : Build α} {f : α → Build β} (hb : b.Keeps l p)
    (hf : ∀ l' a, l.Precedes l' → p l' a → (f a).Keeps l' r) : (b >>= f).Keeps l r := by
  intro hl
  obtain ⟨hpre, hl', hp⟩ := hb hl
  rw [perform_bind]
  rcases hperform : b.perform l with ⟨e | a, l'⟩
  · -- what the first build spent before it failed stays spent
    rw [hperform] at hpre hl'
    exact ⟨hpre, hl', nofun⟩
  · rw [hperform] at hpre hl' hp
    obtain ⟨hpre', hl'', hr⟩ := hf l' a hpre (hp a rfl) hl'
    exact ⟨hpre.trans hpre', hl'', hr⟩

theorem keeps_report {e : Event} (he : e.node? = none) :
    (report e).Keeps l fun _ _ => True :=
  fun hl => ⟨.report l he, hl.report he, fun _ _ => trivial⟩

theorem keeps_freshId : freshId.Keeps l fun _ _ => True :=
  fun hl => ⟨.spend l, hl.spend, fun _ _ => trivial⟩

/-- A node on operands that were built is built. -/
theorem keeps_node {a : Attributes} {make : Label → Expr}
    (hid : (make ⟨l.next, a⟩).id = l.next) (hc : ∀ c ∈ (make ⟨l.next, a⟩).children, l.Lists c) :
    (node a make).Keeps l Lists := by
  refine fun hl => ⟨.built l hid, hl.built hid hc, fun e he => ?_⟩
  cases he
  exact lists_built_iff.2 (.inr rfl)

/-- What spends nothing and reports nothing. -/
theorem keeps_of_perform {b : Build α} {x : Except Fault α} (h : b.perform l = (x, l)) :
    b.Keeps l fun l' _ => l' = l := by
  intro hl
  rw [h]
  exact ⟨.refl l, hl, fun _ _ => rfl⟩

theorem keeps_check (x : Except Error α) : (check x).Keeps l fun l' _ => l' = l :=
  keeps_of_perform (perform_check x l)

theorem keeps_attempt (x : Except Abort α) : (attempt x).Keeps l fun l' _ => l' = l :=
  keeps_of_perform (perform_attempt x l)

theorem Keeps.insist {b : Build α} (hb : b.Keeps l q) : b.insist.Keeps l q := by
  intro hl
  obtain ⟨hpre, hl', hq⟩ := hb hl
  rw [perform_insist]
  refine ⟨hpre, hl', fun a ha => hq a ?_⟩
  rcases hr : (b.perform l).1 with f | a'
  · rw [hr] at ha
    cases ha
  · rw [hr] at ha
    cases ha
    rfl

/-! ### Leaves -/

theorem newVariable_keeps (rows cols : UInt64) (name : Option String) (bounds : List Bound) :
    (newVariable rows cols name bounds).Keeps l Lists :=
  (keeps_check _).bind fun _ _ _ _ => keeps_node rfl (by simp [Expr.children])

theorem constant_keeps (v : Value) : (constant v).Keeps l Lists :=
  (keeps_check _).bind fun _ _ _ _ => keeps_node rfl (by simp [Expr.children])

theorem filled_keeps (rows cols : UInt64) (x : Float) : (filled rows cols x).Keeps l Lists := by
  refine (keeps_check _).bind fun l' s _ _ => ?_
  split
  · exact constant_keeps _
  · exact constant_keeps _

theorem identity_keeps (n : UInt64) : (identity n).Keeps l Lists := constant_keeps _

/-! ### Operations -/

variable {a b k : Expr}

theorem sum_keeps (ha : l.Lists a) (hb : l.Lists b) : (sum a b).Keeps l Lists := by
  refine (keeps_check _).bind fun l' _ hl' _ => keeps_node rfl ?_
  simpa [Expr.children] using ⟨hl'.lists ha, hl'.lists hb⟩

theorem negation_keeps (ha : l.Lists a) : (negation a).Keeps l Lists :=
  keeps_node rfl (by simpa [Expr.children] using ha)

theorem difference_keeps (ha : l.Lists a) (hb : l.Lists b) : (difference a b).Keeps l Lists :=
  (negation_keeps hb).bind fun _ _ hl' hc => sum_keeps (hl'.lists ha) hc

theorem transposed_keeps (ha : l.Lists a) : (transposed a).Keeps l Lists := by
  unfold transposed
  split
  · exact keeps_pure ha
  · exact keeps_node rfl (by simpa [Expr.children] using ha)

theorem scaled_keeps (hk : l.Lists k) (ha : l.Lists a) : (scaled k a).Keeps l Lists := by
  refine (keeps_check _).bind fun l' _ hl' _ => keeps_node rfl ?_
  simpa [Expr.children] using ⟨hl'.lists hk, hl'.lists ha⟩

/-- A product with its factors exchanged makes up to four nodes, each of those before it. -/
theorem product_keeps (ha : l.Lists a) (hb : l.Lists b) : (product a b).Keeps l Lists := by
  unfold product
  split
  · exact scaled_keeps ha hb
  split
  · -- nothing is built before the shapes are checked, and then each node on what was built already
    refine (keeps_check _).bind fun l₁ _ h₁ _ => ?_
    refine (keeps_report rfl).bind fun l₂ _ h₂ _ => ?_
    have h₂ := h₁.trans h₂
    refine (transposed_keeps (h₂.lists hb)).bind fun l₃ k h₃ hk => ?_
    refine (transposed_keeps ((h₂.trans h₃).lists ha)).bind fun l₄ x h₄ hx => ?_
    exact (scaled_keeps (h₄.lists hk) hx).bind fun _ _ _ hp => transposed_keeps hp
  · exact keeps_throw _

theorem quotient_keeps (ha : l.Lists a) (hk : l.Lists k) : (quotient a k).Keeps l Lists := by
  have hnode {l' : Ledger} (hl' : l.Precedes l') :
      (node (a.attributes.div k.attributes) (.div · a k)).Keeps l' Lists :=
    keeps_node rfl (by simpa [Expr.children] using ⟨hl'.lists ha, hl'.lists hk⟩)
  unfold quotient
  split
  · split
    · exact (keeps_report rfl).bind fun _ _ hl' _ => hnode hl'
    · exact hnode (.refl l)
  · exact keeps_throw _

theorem selected_keeps (ha : l.Lists a) (s : Selection) : (selected a s).Keeps l Lists := by
  refine (keeps_attempt _).bind fun l' _ hl' _ => keeps_node rfl ?_
  simpa [Expr.children] using hl'.lists ha

theorem indexed_keeps (ha : l.Lists a) (key : Key) : (indexed a key).Keeps l Lists := by
  unfold indexed
  split
  · exact keeps_pure ha
  · exact (keeps_check _).bind fun _ s hl' _ => selected_keeps (hl'.lists ha) s

theorem entry_keeps (ha : l.Lists a) (row col : UInt64) : (entry a row col).Keeps l Lists := by
  unfold entry
  split
  · exact keeps_pure ha
  · exact selected_keeps ha _

theorem operation_keeps (op : Operation) (ha : l.Lists a) (hb : l.Lists b) :
    (op.apply a b).Keeps l Lists := by
  cases op with
  | sum => exact sum_keeps ha hb
  | difference => exact difference_keeps ha hb
  | product => exact product_keeps ha hb
  | quotient => exact quotient_keeps ha hb

/-! ### Constraints and problems -/

/-- The residual of a constraint is built, on sides that were built before. -/
theorem constraint_keeps (kind : ConstraintKind) (ha : l.Lists a) (hb : l.Lists b) :
    (constraint kind a b).Keeps l fun l' c => ∀ e ∈ [c.lhs, c.rhs, c.residual], l'.Lists e := by
  refine (difference_keeps ha hb).bind fun l₁ r h₁ hr => ?_
  refine (keeps_report rfl).bind fun l₂ _ h₂ _ => keeps_pure ?_
  simpa using ⟨(h₁.trans h₂).lists ha, (h₁.trans h₂).lists hb, h₂.lists hr⟩

theorem asMinimization_keeps {o : Objective} (ho : l.Lists o.expr) :
    (asMinimization o).Keeps l Lists := by
  unfold asMinimization
  split
  · exact keeps_pure ho
  · exact negation_keeps ho

theorem verdict_keeps (p : Problem) : (verdict p).Keeps l fun _ _ => True :=
  (keeps_report rfl).bind fun _ _ _ _ => keeps_pure trivial

end Build

/-! ### Entries one by one -/

namespace Entries

open Build Ledger

variable {l : Ledger}

theorem take_keeps (n : ℕ) {p : Entries} (hp : l.Lists p.expr) :
    (p.take n).Keeps l fun l' r => (∀ e ∈ r.1, l'.Lists e) ∧ l'.Lists r.2.expr := by
  -- on the number of entries, from any ledger: an entry may be a new node
  induction n generalizing l p with
  | zero => exact keeps_pure ⟨by simp, hp⟩
  | succ n ih =>
    unfold take
    split
    · exact keeps_pure ⟨by simp, hp⟩
    · refine (entry_keeps hp _ _).bind fun l₁ e h₁ he => ?_
      refine (ih (p := p.advance) (h₁.lists hp)).bind fun l₂ r h₂ hr => ?_
      exact keeps_pure ⟨by simpa using ⟨h₂.lists he, hr.1⟩, hr.2⟩

theorem nth?_keeps (n : ℕ) {p : Entries} (hp : l.Lists p.expr) :
    (p.nth? n).Keeps l fun l' r => ∀ e ∈ r, l'.Lists e := by
  refine (take_keeps (n + 1) hp).bind fun l' r _ hr => ?_
  exact keeps_pure fun e he => hr.1 e (List.mem_of_getElem? he)

end Entries

end DisciplinedConvex
