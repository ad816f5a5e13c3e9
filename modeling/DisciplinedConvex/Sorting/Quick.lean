/-
DisciplinedConvex/Sorting/Quick.lean

Sorting lists of any length by an order in which different items may be equal.

A list of at most twenty items keeps its equal items in order.  A longer one is
divided around a pivot again and again until its pieces are short, and equal
items end up in an order that only the rules below fix: where the pivot is
sought, how the items pass to its two sides, and when a piece counts as short.
That order matters to whoever adds up equal items in floating point.

Main result: sorting neither loses nor adds an item (`sort_perm`).
-/
import DisciplinedConvex.Sorting.Heap

namespace DisciplinedConvex.Sorting

variable {α : Type} (less : α → α → Bool)

/-! ### The pivot -/

/-- The place of the item in the middle of three. -/
def median (v : Array α) (a b c : Nat) : Nat :=
  let ab := lessAt less v a b
  if ab == lessAt less v a c then
    if ab == lessAt less v b c then b else c
  else a

/-- A median of medians: each of the three places first gives way to the median of three places from
it on, as long as the `n` items from it on are many. -/
def pseudoMedian (v : Array α) (a b c n : Nat) : Nat :=
  if 8 ≤ n then
    let third (i : Nat) := pseudoMedian v i (i + 4 * (n / 8)) (i + 7 * (n / 8)) (n / 8)
    median less v (third a) (third b) (third c)
  else median less v a b c

/-- A place that is likely to be near the middle of the order. -/
def pivotPlace (v : Array α) : Nat :=
  let n := v.size / 8
  pseudoMedian less v 0 (4 * n) (7 * n) n

/-- The list with the pivot in front; the first item takes the place of the pivot. -/
def pivotFirst (v : List α) : List α :=
  (v.toArray.swapIfInBounds 0 (pivotPlace less v.toArray)).toList

/-! ### Dividing -/

/-- The first item goes to the end. -/
def cycle : List α → List α
  | [] => []
  | x :: xs => xs ++ [x]

/-- The last item comes to the front. -/
def cycleBack (v : List α) : List α :=
  match v.getLast? with
  | some x => x :: v.dropLast
  | none => []

/-- An item joins the left side at its end or the right side at its front.  Either way the first
item of the right side makes room and goes to the end of it. -/
def join (goesLeft : α → Bool) (sides : List α × List α) (x : α) : List α × List α :=
  if goesLeft x then (sides.1 ++ [x], cycle sides.2) else (sides.1, x :: cycle sides.2)

/-- The two sides of a list.  Its first item joins last, and in the end the last item of the left
side changes places with the pivot in front of it. -/
def divide (goesLeft : α → Bool) (v : List α) : List α × List α :=
  let sides := (cycle v).foldl (join goesLeft) ([], [])
  (cycleBack sides.1, sides.2)

/-! ### Sorting -/

/-- Sorts the two sides of a pivot apart, and short lists directly.  The items are not less than
`floor`; if the pivot is not greater, all that equal it go to the left and are in place.  If no
division is left, a heap sorts what is still long. -/
def quickSort : Nat → Option α → List α → List α
  | 0, _, v => if v.length ≤ 32 then shortSort less v else (heapSort less v.toArray).toList
  | divisions + 1, floor, v =>
    if v.length ≤ 32 then shortSort less v
    else
      match pivotFirst less v with
      | [] => []
      | pivot :: rest =>
        if floor.any fun x => !less x pivot then
          let (left, right) := divide (fun x => !less pivot x) rest
          left ++ pivot :: quickSort divisions none right
        else
          let (left, right) := divide (fun x => less x pivot) rest
          quickSort divisions floor left ++ pivot :: quickSort divisions (some pivot) right

/-- No item is less than the one in front of it. -/
def isAscending (v : List α) : Bool :=
  (v.zip v.tail).all fun p => !less p.2 p.1

/-- Each item is less than the one in front of it. -/
def isDescending (v : List α) : Bool :=
  (v.zip v.tail).all fun p => less p.2 p.1

/-- Sorts a list.  A long one may be in order, or in reverse order without equal items, from the
start. -/
def sort (v : List α) : List α :=
  if v.length ≤ 20 then insertionSort less v
  else if isAscending less v then v
  else if isDescending less v then v.reverse
  else quickSort less (2 * v.length.log2) none v

/-! ### The items stay the same -/

theorem pivotFirst_perm (v : List α) : (pivotFirst less v).Perm v :=
  (swapIfInBounds_perm v.toArray _ _).toList

theorem cycle_perm (v : List α) : (cycle v).Perm v := by
  cases v with
  | nil => exact .refl _
  | cons x xs => exact List.perm_append_singleton x xs

theorem cycleBack_perm (v : List α) : (cycleBack v).Perm v := by
  rcases List.eq_nil_or_concat v with rfl | ⟨xs, x, rfl⟩
  · exact .refl _
  · simpa [cycleBack] using (List.perm_append_singleton x xs).symm

theorem join_perm (goesLeft : α → Bool) (sides : List α × List α) (x : α) :
    ((join goesLeft sides x).1 ++ (join goesLeft sides x).2).Perm (x :: (sides.1 ++ sides.2)) := by
  have h := List.perm_middle.trans (((cycle_perm sides.2).append_left sides.1).cons x)
  unfold join
  split
  · simpa using h
  · exact h

theorem divide_perm (goesLeft : α → Bool) (v : List α) :
    ((divide goesLeft v).1 ++ (divide goesLeft v).2).Perm v := by
  suffices ∀ (w : List α) (sides : List α × List α),
      ((w.foldl (join goesLeft) sides).1 ++ (w.foldl (join goesLeft) sides).2).Perm
        (sides.1 ++ sides.2 ++ w) from
    (((cycleBack_perm _).append_right _).trans (this (cycle v) ([], []))).trans (cycle_perm v)
  intro w
  induction w with
  | nil => simp
  | cons x w ih =>
    exact fun sides => (ih _).trans
      (((join_perm goesLeft sides x).append_right w).trans List.perm_middle.symm)

theorem quickSort_perm (divisions : Nat) (floor : Option α) (v : List α) :
    (quickSort less divisions floor v).Perm v := by
  induction divisions generalizing floor v with
  | zero =>
    unfold quickSort
    split
    · exact shortSort_perm less v
    · exact (heapSort_perm less v.toArray).toList
  | succ divisions ih =>
    unfold quickSort
    split
    · exact shortSort_perm less v
    · have h := pivotFirst_perm less v
      split
      · rename_i e
        exact e ▸ h
      · rename_i pivot rest e
        rw [e] at h
        refine .trans ?_ h
        split
        · exact (((ih _ _).cons pivot).append_left _).trans
            (List.perm_middle.trans ((divide_perm _ rest).cons pivot))
        · exact ((ih _ _).append ((ih _ _).cons pivot)).trans
            (List.perm_middle.trans ((divide_perm _ rest).cons pivot))

theorem sort_perm (v : List α) : (sort less v).Perm v := by
  unfold sort
  split
  · exact insertionSort_perm less v
  · split
    · exact .refl _
    · split
      · exact List.reverse_perm v
      · exact quickSort_perm less _ none v

end DisciplinedConvex.Sorting
