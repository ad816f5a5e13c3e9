/-
DisciplinedConvex/Sorting/Network.lean

Sorting short lists: insertion, and before it exchanges between fixed places.

A network is a list of pairs of places, each of which is put in order in its
turn.  It knows nothing of the items, so it may carry an item past its equals;
insertion never does.  Which of two equal items comes first is thus settled by
the length of the list and the places of its items.

Main result: sorting neither loses nor adds an item (`shortSort_perm`).
-/
namespace DisciplinedConvex.Sorting

variable {α : Type} (less : α → α → Bool)

/-! ### Insertion -/

/-- Puts an item before the first one that it is less than. -/
def place (x : α) : List α → List α
  | [] => [x]
  | y :: ys => if less x y then x :: y :: ys else y :: place x ys

/-- Places one item after the other; equal items keep their order. -/
def insertionSort (v : List α) : List α :=
  v.foldl (fun acc x => place less x acc) []

/-! ### Exchanges -/

/-- The item at `i` is less than the one at `j`; false if there is no item at one of them. -/
def lessAt (v : Array α) (i j : Nat) : Bool :=
  match v[i]?, v[j]? with
  | some x, some y => less x y
  | _, _ => false

/-- Puts the items at two places in order. -/
def exchange (v : Array α) (p : Nat × Nat) : Array α :=
  if lessAt less v p.2 p.1 then v.swapIfInBounds p.1 p.2 else v

/-- Exchanges that put nine items in order. -/
def networkOfNine : List (Nat × Nat) :=
  [(0, 3), (1, 7), (2, 5), (4, 8), (0, 7), (2, 4), (3, 8), (5, 6), (0, 2), (1, 3), (4, 5), (7, 8),
    (1, 4), (3, 6), (5, 7), (0, 1), (2, 4), (3, 5), (6, 8), (2, 3), (4, 5), (6, 7), (1, 2), (3, 4),
    (5, 6)]

/-- Exchanges that put thirteen items in order. -/
def networkOfThirteen : List (Nat × Nat) :=
  [(0, 12), (1, 10), (2, 9), (3, 7), (5, 11), (6, 8), (1, 6), (2, 3), (4, 11), (7, 9), (8, 10),
    (0, 4), (1, 2), (3, 6), (7, 8), (9, 10), (11, 12), (4, 6), (5, 9), (8, 11), (10, 12), (0, 5),
    (3, 8), (4, 7), (6, 11), (9, 10), (0, 1), (2, 5), (6, 9), (7, 8), (10, 11), (1, 3), (2, 4),
    (5, 6), (9, 10), (1, 2), (3, 4), (5, 7), (6, 8), (2, 3), (4, 5), (6, 7), (8, 9), (3, 4), (5, 6)]

/-- The widest network that a list of the given length has room for. -/
def network (n : Nat) : List (Nat × Nat) :=
  if 13 ≤ n then networkOfThirteen else if 9 ≤ n then networkOfNine else []

/-- Exchanges through the widest network, then insertion. -/
def networkSort (v : List α) : List α :=
  insertionSort less ((network v.length).foldl (exchange less) v.toArray).toList

/-- From eighteen items on, two halves are sorted apart and merged. -/
def shortSort (v : List α) : List α :=
  if v.length < 18 then networkSort less v
  else
    let half := v.length / 2
    (networkSort less (v.take half)).merge (networkSort less (v.drop half)) fun x y => !less y x

/-! ### The items stay the same -/

theorem place_perm (x : α) (v : List α) : (place less x v).Perm (x :: v) := by
  induction v with
  | nil => exact .refl _
  | cons y ys ih =>
    unfold place
    split
    · exact .refl _
    · exact (ih.cons y).trans (.swap x y ys)

theorem insertionSort_perm (v : List α) : (insertionSort less v).Perm v := by
  suffices ∀ acc, (v.foldl (fun acc x => place less x acc) acc).Perm (acc ++ v) from this []
  induction v with
  | nil => simp
  | cons x v ih =>
    intro acc
    exact (ih _).trans (((place_perm less x acc).append_right v).trans List.perm_middle.symm)

theorem swapIfInBounds_perm (v : Array α) (i j : Nat) : (v.swapIfInBounds i j).Perm v := by
  rw [Array.swapIfInBounds_def]
  split
  · split
    · exact Array.swap_perm _ _
    · exact .refl _
  · exact .refl _

theorem exchange_perm (v : Array α) (p : Nat × Nat) : (exchange less v p).Perm v := by
  unfold exchange
  split
  · exact swapIfInBounds_perm v _ _
  · exact .refl _

theorem networkSort_perm (v : List α) : (networkSort less v).Perm v := by
  suffices ∀ (net : List (Nat × Nat)) (w : Array α), (net.foldl (exchange less) w).Perm w from
    (insertionSort_perm less _).trans (this _ v.toArray).toList
  intro net
  induction net with
  | nil => exact fun w => .refl _
  | cons p net ih => exact fun w => (ih _).trans (exchange_perm less w p)

theorem shortSort_perm (v : List α) : (shortSort less v).Perm v := by
  unfold shortSort
  split
  · exact networkSort_perm less v
  · have h := (networkSort_perm less (v.take (v.length / 2))).append
      (networkSort_perm less (v.drop (v.length / 2)))
    rw [List.take_append_drop] at h
    exact (List.merge_perm_append _).trans h

end DisciplinedConvex.Sorting
