/-
DisciplinedConvex/Value/Sparse.lean

Matrices of floating-point numbers with only some entries written down; the
others are zero.  The written entries stand in column order, each place once,
and lie inside the dimensions.  The triplets of a column are sorted by row, and
those at one place are added in the order in which the sort leaves them.
-/
import DisciplinedConvex.Error
import DisciplinedConvex.Sorting.Quick

namespace DisciplinedConvex

/-- A written entry of a sparse matrix. -/
structure Triplet where
  row : UInt64
  col : UInt64
  value : Float

namespace Triplet

/-- `a` stands before `b`: in an earlier column, or higher up in the same one. -/
def Before (a b : Triplet) : Prop :=
  a.col < b.col ∨ a.col = b.col ∧ a.row < b.row

instance (a b : Triplet) : Decidable (a.Before b) :=
  inferInstanceAs (Decidable (_ ∨ _))

theorem Before.trans {a b c : Triplet} (h : a.Before b) (k : b.Before c) : a.Before c := by
  rcases h with h | ⟨h, h'⟩ <;> rcases k with k | ⟨k, k'⟩
  · exact .inl (UInt64.lt_trans h k)
  · exact .inl (k ▸ h)
  · exact .inl (h ▸ k)
  · exact .inr ⟨h.trans k, UInt64.lt_trans h' k'⟩

/-- Puts a triplet at its place; one that is there already takes up the value. -/
def insert (t : Triplet) : List Triplet → List Triplet
  | [] => [t]
  | s :: rest =>
    if t.Before s then t :: s :: rest
    else if s.Before t then s :: insert t rest
    else { s with value := s.value + t.value } :: rest

/-- The triplets column by column, those of a column sorted by row.  Triplets at one place stand
together, but not always in the order in which they come. -/
def arranged (ts : List Triplet) : List Triplet :=
  (ts.map (·.col)).eraseDups.flatMap fun c =>
    Sorting.sort (fun s t => decide (s.row < t.row)) (ts.filter (·.col == c))

/-- Each triplet at its place, in order. -/
def ordered (ts : List Triplet) : List Triplet :=
  (arranged ts).foldl (fun acc t => insert t acc) []

theorem mem_arranged {ts : List Triplet} {t : Triplet} : t ∈ arranged ts ↔ t ∈ ts := by
  simp only [arranged, List.mem_flatMap, List.mem_eraseDups, (Sorting.sort_perm _ _).mem_iff,
    List.mem_filter, beq_iff_eq, List.mem_map]
  exact ⟨fun ⟨_, _, h, _⟩ => h, fun h => ⟨t.col, ⟨t, h, rfl⟩, h, rfl⟩⟩

/-! ### Insertion keeps the order and the places -/

/-- What holds of the place of `t` and of all places in `l` holds of all places after insertion. -/
theorem forall_insert {p : UInt64 → UInt64 → Prop} {t : Triplet} {l : List Triplet}
    (ht : p t.row t.col) (hl : ∀ s ∈ l, p s.row s.col) :
    ∀ s ∈ insert t l, p s.row s.col := by
  induction l with
  | nil => simpa [insert] using ht
  | cons s rest ih =>
    simp only [List.mem_cons, forall_eq_or_imp] at hl
    unfold insert
    split
    · simp_all
    · split
      · simpa [hl.1] using ih hl.2
      · simpa using hl

theorem pairwise_insert {t : Triplet} {l : List Triplet} (hl : l.Pairwise Before) :
    (insert t l).Pairwise Before := by
  induction l with
  | nil => simp [insert]
  | cons s rest ih =>
    obtain ⟨hs, hr⟩ := List.pairwise_cons.1 hl
    unfold insert
    split
    · rename_i h
      refine List.pairwise_cons.2 ⟨?_, hl⟩
      simpa [h] using fun u hu => h.trans (hs u hu)
    · split
      · rename_i h
        exact List.pairwise_cons.2
          ⟨forall_insert (p := fun r c => s.Before ⟨r, c, 0⟩) h fun u hu => hs u hu, ih hr⟩
      · exact List.pairwise_cons.2 ⟨fun u hu => hs u hu, hr⟩

theorem foldl_insert {q : List Triplet → Prop} {ts : List Triplet}
    (step : ∀ t ∈ ts, ∀ l, q l → q (insert t l)) {l : List Triplet} (hl : q l) :
    q (ts.foldl (fun acc t => insert t acc) l) := by
  induction ts generalizing l with
  | nil => exact hl
  | cons t rest ih =>
    exact ih (fun u hu => step u (List.mem_cons_of_mem _ hu)) (step t List.mem_cons_self l hl)

theorem pairwise_ordered (ts : List Triplet) : (ordered ts).Pairwise Before :=
  foldl_insert (fun _ _ _ h => pairwise_insert h) List.Pairwise.nil

theorem forall_ordered {p : UInt64 → UInt64 → Prop} {ts : List Triplet}
    (h : ∀ t ∈ ts, p t.row t.col) : ∀ t ∈ ordered ts, p t.row t.col :=
  foldl_insert (q := fun l => ∀ t ∈ l, p t.row t.col)
    (fun t ht _ hl => forall_insert (h t (mem_arranged.1 ht)) hl) (by simp)

end Triplet

/-- A matrix given by some of its entries; the others are zero. -/
structure Sparse where
  rows : UInt64
  cols : UInt64
  stored : List Triplet
  ordered : stored.Pairwise Triplet.Before
  inside : ∀ t ∈ stored, t.row < rows ∧ t.col < cols

namespace Sparse

/-- The matrix of a list of triplets.  All rows are looked at before any column. -/
def ofTriplets (rows cols : UInt64) (ts : List Triplet) : Except Misplaced Sparse :=
  if hr : ∀ t ∈ ts, t.row < rows then
    if hc : ∀ t ∈ ts, t.col < cols then
      .ok {
        rows
        cols
        stored := Triplet.ordered ts
        ordered := Triplet.pairwise_ordered ts
        inside := Triplet.forall_ordered (p := fun r c => r < rows ∧ c < cols)
          fun t ht => ⟨hr t ht, hc t ht⟩ }
    else .error .column
  else .error .row

/-- The entry in a row and a column, zero where none is stored. -/
def entry (m : Sparse) (row col : Nat) : Float :=
  match m.stored.find? fun t => t.row.toNat == row && t.col.toNat == col with
  | some t => t.value
  | none => 0.0

/-- The dimensions and the number of stored entries. -/
def text (m : Sparse) : String :=
  s!"sparse({m.rows.toNat}x{m.cols.toNat}, nnz={m.stored.length})"

end Sparse

end DisciplinedConvex
