/-
DisciplinedConvex/Sorting/Heap.lean

Sorting by a heap: below each place `i` stand the places `2 * i + 1` and
`2 * i + 2`, and no item is less than one below it.

The greatest item is then the first; it changes places with the last item of the
heap and leaves it, until the heap is empty.

Main result: sorting neither loses nor adds an item (`heapSort_perm`).
-/
import DisciplinedConvex.Sorting.Network

namespace DisciplinedConvex.Sorting

variable {α : Type} (less : α → α → Bool)

/-- The place of the greater of two neighbours, of which the second may lie outside the first `size`
places. -/
def greaterChild (v : Array α) (size left : Nat) : Nat :=
  if left + 1 < size && lessAt less v left (left + 1) then left + 1 else left

/-- The item at `node` changes places with the greater one below it until it is not less. -/
def sink (size : Nat) (v : Array α) (node : Nat) : Array α :=
  if _h : 2 * node + 1 < size then
    let child := greaterChild less v size (2 * node + 1)
    if lessAt less v node child then sink size (v.swapIfInBounds node child) child else v
  else v
termination_by size - node
decreasing_by
  simp only [greaterChild]
  split <;> omega

/-- A heap of the same items, made from its end. -/
def heapify (v : Array α) : Array α :=
  (List.range (v.size / 2)).foldr (fun i w => sink less v.size w i) v

/-- Takes the greatest item of the heap in front of place `i` out of it. -/
def takeGreatest (i : Nat) (v : Array α) : Array α :=
  sink less i (v.swapIfInBounds 0 i) 0

/-- A heap, and then its greatest item to the end of it, again and again. -/
def heapSort (v : Array α) : Array α :=
  (List.range v.size).foldr (takeGreatest less) (heapify less v)

/-! ### The items stay the same -/

theorem sink_perm (size : Nat) (v : Array α) (node : Nat) : (sink less size v node).Perm v := by
  fun_induction sink less size v node with
  | case1 v node _ child _ ih => exact ih.trans (swapIfInBounds_perm v _ _)
  | case2 | case3 => exact .refl _

theorem foldr_perm {β : Type} {f : β → Array α → Array α} (h : ∀ b v, (f b v).Perm v) (bs : List β)
    (v : Array α) : (bs.foldr f v).Perm v := by
  induction bs with
  | nil => exact .refl _
  | cons b bs ih => exact (h b _).trans ih

theorem heapSort_perm (v : Array α) : (heapSort less v).Perm v :=
  (foldr_perm (fun i w => (sink_perm less i _ 0).trans (swapIfInBounds_perm w 0 i)) _ _).trans
    (foldr_perm (fun i w => sink_perm less v.size w i) _ v)

end DisciplinedConvex.Sorting
