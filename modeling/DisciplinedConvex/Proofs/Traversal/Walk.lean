/-
DisciplinedConvex/Proofs/Traversal/Walk.lean

The walk with a stack is the recursive pre-order.

The stack holds what the recursion has still to do, so that at any time the walk ends
as the recursion does that takes the entries of the stack in turn
(`Expr.toList_visit`).  Nodes are marked when they are taken off the stack: an entry
may have been visited since it was put there, and the recursion passes over it as well.

What is visited is told by an invariant of the loop (`Expr.Frontier`): everything below
a visited node was visited or waits on the stack.  Where a number tells the node, which
is so in all that sessions build, the walk is on exactly the nodes that are reached, each
of them once, and the variables are found in ascending order
(`Expr.Buildable.walk_preorder`).
-/
import DisciplinedConvex.Proofs.Numbering.Run

namespace DisciplinedConvex.Expr

/-! ### Against the recursion -/

/-- The numbers that are marked are those of the nodes that were visited. -/
def Marks (seen : Std.HashSet ℕ) (visited : Array Expr) : Prop :=
  ∀ i, seen.contains i = true ↔ i ∈ visited.toList.map Expr.id

theorem marks_empty : Marks ∅ #[] := by
  intro i
  simp

variable {seen : Std.HashSet ℕ} {visited : Array Expr} {stack : List Expr} {root e : Expr}

theorem Marks.push (h : Marks seen visited) (e : Expr) :
    Marks (seen.insert e.id) (visited.push e) := by
  intro i
  rw [Std.HashSet.contains_insert, Bool.or_eq_true, beq_iff_eq, h i, Array.toList_push,
    List.map_append, List.mem_append, List.map_singleton, List.mem_singleton]
  tauto

/-- The recursion visits a node that is new, and then its operands from left to right. -/
theorem preorder_eq (visited : List Expr) (e : Expr) :
    preorder visited e =
      if e.id ∈ visited.map Expr.id then visited
      else e.children.foldl preorder (visited ++ [e]) := by
  have hany : (visited.any fun v => v.id == e.id) = true ↔ e.id ∈ visited.map Expr.id := by
    simp
  unfold preorder
  simp only [hany]
  cases e <;> rfl

/-- The walk goes on as the recursion does on the entries of the stack, one after the other. -/
theorem toList_visit (h : Marks seen visited) :
    (visit seen visited stack).toList = stack.foldl preorder visited.toList := by
  -- on the loop: an entry that was visited is left out, any other gives way to its operands
  induction seen, visited, stack using visit.induct with
  | case1 seen visited => rw [visit, List.foldl_nil]
  | case2 seen visited e stack hseen ih =>
    rw [visit, if_pos hseen, ih h, List.foldl_cons, preorder_eq, if_pos ((h e.id).1 hseen)]
  | case3 seen visited e stack hseen ih =>
    have hnew : e.id ∉ visited.toList.map Expr.id := fun hmem => hseen ((h e.id).2 hmem)
    rw [visit, if_neg hseen, ih (h.push e), List.foldl_append, List.foldl_cons, preorder_eq,
      if_neg hnew, Array.toList_push]

theorem walk_eq_preorder (e : Expr) : e.walk = preorder [] e :=
  toList_visit marks_empty

/-! ### What is visited -/

/-- While the nodes of `root` are visited: all that was visited or waits on the stack is reached
from `root`, no number was visited twice, and `root` and what is below a visited node is not
lost. -/
structure Frontier (root : Expr) (seen : Std.HashSet ℕ) (visited : Array Expr)
    (stack : List Expr) : Prop where
  marks : Marks seen visited
  nodup : (visited.toList.map Expr.id).Nodup
  reached : ∀ n, n ∈ visited.toList ∨ n ∈ stack → root.Reaches n
  root : root.id ∈ visited.toList.map Expr.id ∨ root ∈ stack
  pending : ∀ n ∈ visited.toList, ∀ c ∈ n.children, c.id ∈ visited.toList.map Expr.id ∨ c ∈ stack

theorem Reaches.trans {a b c : Expr} (h : a.Reaches b) (k : b.Reaches c) : a.Reaches c := by
  induction h with
  | refl a => exact k
  | child hc _ ih => exact .child hc (ih k)

namespace Frontier

theorem start (root : Expr) : Frontier root ∅ #[] [root] where
  marks := marks_empty
  nodup := List.nodup_nil
  reached n hn := by
    obtain rfl : n = root := by simpa using hn
    exact .refl n
  root := .inr (List.mem_singleton_self root)
  pending n hn := by simp at hn

/-- An entry that was visited before is not needed any more. -/
theorem skip (h : Frontier root seen visited (e :: stack)) (hseen : seen.contains e.id = true) :
    Frontier root seen visited stack := by
  have hkept {c : Expr} (hc : c ∈ e :: stack) :
      c.id ∈ visited.toList.map Expr.id ∨ c ∈ stack := by
    rcases List.mem_cons.1 hc with rfl | hc
    · exact .inl ((h.marks c.id).1 hseen)
    · exact .inr hc
  refine ⟨h.marks, h.nodup, fun n hn => ?_, ?_, fun n hn c hc => ?_⟩
  · exact h.reached n (hn.imp_right (List.mem_cons_of_mem e))
  · rcases h.root with hroot | hroot
    · exact .inl hroot
    · exact hkept hroot
  · rcases h.pending n hn c hc with hvisited | hstack
    · exact .inl hvisited
    · exact hkept hstack

/-- A new node is visited, and its operands take its place. -/
theorem push (h : Frontier root seen visited (e :: stack)) (hseen : ¬seen.contains e.id = true) :
    Frontier root (seen.insert e.id) (visited.push e) (e.children ++ stack) := by
  have hnew : e.id ∉ visited.toList.map Expr.id := fun hmem => hseen ((h.marks e.id).2 hmem)
  have he : root.Reaches e := h.reached e (.inr List.mem_cons_self)
  have hids : (visited.push e).toList.map Expr.id = visited.toList.map Expr.id ++ [e.id] := by
    rw [Array.toList_push, List.map_append]
    rfl
  -- what was visited or waited is visited or waits
  have hkept {c : Expr} (hc : c.id ∈ visited.toList.map Expr.id ∨ c ∈ e :: stack) :
      c.id ∈ (visited.push e).toList.map Expr.id ∨ c ∈ e.children ++ stack := by
    rw [hids]
    rcases hc with hc | hc
    · exact .inl (List.mem_append_left _ hc)
    · rcases List.mem_cons.1 hc with rfl | hc
      · exact .inl (List.mem_append_right _ (List.mem_singleton_self _))
      · exact .inr (List.mem_append_right _ hc)
  refine ⟨h.marks.push e, ?_, fun n hn => ?_, hkept h.root, fun n hn c hc => ?_⟩
  · rw [hids, List.nodup_append]
    refine ⟨h.nodup, List.nodup_singleton _, fun i hi j hj heq => ?_⟩
    rw [List.mem_singleton.1 hj] at heq
    exact hnew (heq ▸ hi)
  · rw [Array.toList_push, List.mem_append, List.mem_append, List.mem_singleton] at hn
    rcases hn with (hn | rfl) | (hn | hn)
    · exact h.reached n (.inl hn)
    · exact he
    · exact he.trans (.child hn (.refl n))
    · exact h.reached n (.inr (List.mem_cons_of_mem e hn))
  · rw [Array.toList_push, List.mem_append, List.mem_singleton] at hn
    rcases hn with hn | rfl
    · exact hkept (h.pending n hn c hc)
    · exact .inr (List.mem_append_left _ hc)

/-- In the end nothing waits. -/
theorem visit (h : Frontier root seen visited stack) :
    ∃ seen', Frontier root seen' (visit seen visited stack) [] := by
  -- on the loop, with the two ways to go on
  induction seen, visited, stack using visit.induct with
  | case1 seen visited =>
    rw [Expr.visit]
    exact ⟨seen, h⟩
  | case2 seen visited e stack hseen ih =>
    rw [Expr.visit, if_pos hseen]
    exact ih (h.skip hseen)
  | case3 seen visited e stack hseen ih =>
    rw [Expr.visit, if_neg hseen]
    exact ih (h.push hseen)

end Frontier

/-- No number is visited twice, whatever the numbers are. -/
theorem nodup_walk (e : Expr) : (e.walk.map Expr.id).Nodup := by
  obtain ⟨seen, h⟩ := (Frontier.start e).visit
  exact h.nodup

/-- Where a number tells the node, the walk is on what is reached and on nothing else. -/
theorem mem_walk_iff (hid : ∀ n m, e.Reaches n → e.Reaches m → n.id = m.id → n = m) {n : Expr} :
    n ∈ e.walk ↔ e.Reaches n := by
  -- the stack is empty in the end, so that what is below a visited node was visited
  obtain ⟨seen, h⟩ := (Frontier.start e).visit
  have hreached {m : Expr} (hm : m ∈ e.walk) : e.Reaches m := h.reached m (.inl hm)
  -- a node of which the number was visited was visited itself
  have hmem {m : Expr} (hm : e.Reaches m) (hids : m.id ∈ e.walk.map Expr.id ∨ m ∈ []) :
      m ∈ e.walk := by
    obtain ⟨k, hk, hkm⟩ := List.mem_map.1 (hids.resolve_right List.not_mem_nil)
    exact hid k m (hreached hk) hm hkm ▸ hk
  have hclosed {m : Expr} (hm : m.Reaches n) (hwalk : m ∈ e.walk) : n ∈ e.walk := by
    induction hm with
    | refl m => exact hwalk
    | @child m c n hc _ ih =>
      exact ih (hmem ((hreached hwalk).trans (.child hc (.refl c))) (h.pending m hwalk c hc))
  exact ⟨hreached, fun hn => hclosed hn (hmem (.refl e) h.root)⟩

/-- What was visited stays in front of what is visited then. -/
theorem prefix_visit (seen : Std.HashSet ℕ) (visited : Array Expr) (stack : List Expr) :
    visited.toList <+: (visit seen visited stack).toList := by
  induction seen, visited, stack using visit.induct with
  | case1 seen visited => rw [visit]
  | case2 seen visited e stack hseen ih =>
    rw [visit, if_pos hseen]
    exact ih
  | case3 seen visited e stack hseen ih =>
    rw [visit, if_neg hseen]
    rw [Array.toList_push] at ih
    exact (List.prefix_append _ [e]).trans ih

/-- The root is visited first. -/
theorem head?_walk (e : Expr) : e.walk.head? = some e := by
  have hprefix : [e] <+: e.walk := by
    rw [walk, visit, if_neg (by simp)]
    exact prefix_visit _ #[e] _
  obtain ⟨rest, hrest⟩ := hprefix
  rw [← hrest]
  rfl

/-! ### Variables -/

theorem filterMap_variableId? (es : List Expr) :
    es.filterMap variableId? = (es.filter isVariable).map Expr.id := by
  induction es with
  | nil => rfl
  | cons e es ih =>
    cases e with
    | var l d => exact congrArg (l.id :: ·) ih
    | _ => exact ih

/-- Nothing is repeated in a strictly ascending list. -/
theorem eraseReps_of_pairwise {l : List ℕ} (h : l.Pairwise (· < ·)) : l.eraseReps = l := by
  have hloop (a : ℕ) (l acc : List ℕ) (h : (a :: l).Pairwise (· < ·)) :
      List.eraseRepsBy.loop (· == ·) a l acc = acc.reverse ++ a :: l := by
    induction l generalizing a acc with
    | nil => simp [List.eraseRepsBy.loop]
    | cons b l ih =>
      obtain ⟨ha, hl⟩ := List.pairwise_cons.1 h
      have hab : (a == b) = false := beq_eq_false_iff_ne.2 (ha b List.mem_cons_self).ne
      simp only [List.eraseRepsBy.loop, hab]
      rw [ih b (a :: acc) hl, List.reverse_cons, List.append_assoc]
      rfl
  cases l with
  | nil => rfl
  | cons a l => exact hloop a l [] h

theorem pairwise_mergeSort_variableId? (e : Expr) :
    (e.walk.filterMap variableId?).mergeSort.Pairwise (· < ·) := by
  have hnodup : (e.walk.filterMap variableId?).mergeSort.Nodup := by
    rw [(List.mergeSort_perm _ _).nodup_iff, filterMap_variableId?]
    exact e.nodup_walk.sublist (List.filter_sublist.map Expr.id)
  have hle : (e.walk.filterMap variableId?).mergeSort.Pairwise (· ≤ ·) :=
    (List.pairwise_mergeSort (by simpa using fun _ _ _ => Nat.le_trans)
      (by simpa using Nat.le_total) _).imp of_decide_eq_true
  exact (hle.and hnodup).imp fun h => lt_of_le_of_ne h.1 h.2

/-- The walk visits each number once, so no variable is there twice. -/
theorem variableIds_eq (e : Expr) :
    e.variableIds = (e.walk.filterMap variableId?).mergeSort :=
  eraseReps_of_pairwise e.pairwise_mergeSort_variableId?

/-- The variables are told by their numbers, in strictly ascending order. -/
theorem pairwise_variableIds (e : Expr) : e.variableIds.Pairwise (· < ·) := by
  rw [variableIds_eq]
  exact e.pairwise_mergeSort_variableId?

theorem mem_variableIds_iff (hid : ∀ n m, e.Reaches n → e.Reaches m → n.id = m.id → n = m)
    {i : ℕ} : i ∈ e.variableIds ↔ ∃ n, e.Reaches n ∧ n.isVariable = true ∧ n.id = i := by
  rw [variableIds_eq, List.mem_mergeSort, filterMap_variableId?, List.mem_map]
  refine exists_congr fun n => ?_
  rw [List.mem_filter, mem_walk_iff hid, and_assoc]

/-! ### In sessions -/

/-- Of whatever sessions build, however much of it is shared: the walk is the recursive pre-order
that passes over what it has visited, on exactly the nodes that are reached, the root first and each
once; and the variables are the reached ones among the nodes, in strictly ascending order. -/
theorem Buildable.walk_preorder (he : e.Buildable) :
    e.walk = preorder [] e ∧ e.walk.head? = some e ∧ e.walk.Nodup ∧
    (e.walk.map Expr.id).Nodup ∧ (∀ n, n ∈ e.walk ↔ e.Reaches n) ∧
    e.variableIds.Pairwise (· < ·) ∧
    ∀ i, i ∈ e.variableIds ↔ ∃ n, e.Reaches n ∧ n.isVariable = true ∧ n.id = i := by
  have hid (n m : Expr) (hn : e.Reaches n) (hm : e.Reaches m) (h : n.id = m.id) : n = m :=
    he.eq_of_id_eq hn hm h
  exact ⟨e.walk_eq_preorder, e.head?_walk, e.nodup_walk.of_map, e.nodup_walk,
    fun n => mem_walk_iff hid, e.pairwise_variableIds, fun i => mem_variableIds_iff hid⟩

/-- A sum of two variables, twice added up, and the second variable once more. -/
theorem walk_preorder_shared :
    let steps : List Step := [
      .declare 2 1 none [],
      .declare 2 1 none [],
      .operate .sum (.register 0) (.register 1) true,
      .operate .sum (.register 2) (.register 2) true,
      .operate .sum (.register 3) (.register 1) true]
    ∃ e, ((Session.startingAt 0).run steps).1[4]? = some (.ok (.expr e)) ∧
      e.walk.map Expr.id = [4, 3, 2, 0, 1] ∧ e.variableIds.Pairwise (· < ·) ∧
      (1 ∈ e.variableIds ↔ ∃ n, e.Reaches n ∧ n.isVariable = true ∧ n.id = 1) := by
  intro steps
  obtain ⟨e, he, hpreorder⟩ : ∃ e, ((Session.startingAt 0).run steps).1[4]? = some (.ok (.expr e)) ∧
      (preorder [] e).map Expr.id = [4, 3, 2, 0, 1] := ⟨_, rfl, rfl⟩
  obtain ⟨hwalk, -, -, -, -, hascending, hvariables⟩ :=
    Buildable.walk_preorder (.of_answer 0 steps 4 he)
  exact ⟨e, he, hwalk ▸ hpreorder, hascending, hvariables 1⟩

end DisciplinedConvex.Expr
