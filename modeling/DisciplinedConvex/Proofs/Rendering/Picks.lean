/-
DisciplinedConvex/Proofs/Rendering/Picks.lean

The text of a selection tells which positions it picks, and in which order.

A slice is written by one, two or three numbers (`Slice.fields`): a slice of a single
position by that position alone, whatever its stop and step are.  The numbers can be
read back from the text, since no digit is a colon (`fields_of_text`), and they
determine the positions (`positions_of_fields`), though not the slice.  Positions are
all that a selection is used for: selections that pick the same make matrices of the
same shape with the same entries.
-/
import DisciplinedConvex.Proofs.Exact.Mat

namespace DisciplinedConvex

/-- A mark that stands in neither of two lists ends both at the same place. -/
theorem eq_and_eq_of_append_cons {α : Type} {c : α} {xs ys us vs : List α} (hx : c ∉ xs)
    (hy : c ∉ ys) (h : xs ++ c :: us = ys ++ c :: vs) : xs = ys ∧ us = vs := by
  rcases List.append_eq_append_iff.1 h with ⟨zs, rfl, hz⟩ | ⟨zs, rfl, hz⟩ <;>
    rcases zs with _ | ⟨z, zs⟩ <;> simp_all

/-! ### Positions -/

/-- The positions that a slice goes through, in their order. -/
def Slice.positions (s : Slice) : Except Abort (List ℕ) :=
  s.count.map fun n => (List.range n.toNat).map s.place

/-- Both selections go through the same positions in the same order, on either axis. -/
structure Selection.SamePositions (s t : Selection) : Prop where
  rows : s.rows.positions = t.rows.positions
  cols : s.cols.positions = t.cols.positions

namespace Slice

variable {s t : Slice}

theorem count_of_positions (h : s.positions = t.positions) : s.count = t.count := by
  unfold positions at h
  rcases hs : s.count with e | n <;> rcases ht : t.count with f | m <;> rw [hs, ht] at h
  · exact congrArg _ (Except.error.inj h)
  · cases h
  · cases h
  · have hlen := congrArg List.length (Except.ok.inj h)
    rw [List.length_map, List.length_map, List.length_range, List.length_range] at hlen
    rw [UInt64.toNat_inj.1 hlen]

theorem place_of_positions (h : s.positions = t.positions) {n : UInt64} (hn : s.count = .ok n)
    {i : ℕ} (hi : i < n.toNat) : s.place i = t.place i := by
  have ht := count_of_positions h
  rw [hn] at ht
  unfold positions at h
  rw [hn, ← ht] at h
  exact List.map_inj_left.1 (Except.ok.inj h) i (List.mem_range.2 hi)

/-! ### Texts of slices -/

/-- The numbers that a slice is written by. -/
def fields (s : Slice) : List ℕ :=
  if s.count = .ok 1 then [s.start.toNat]
  else if s.step = 1 then [s.start.toNat, s.stop.toNat]
  else [s.start.toNat, s.stop.toNat, s.step.toNat]

theorem fields_ne_nil (s : Slice) : s.fields ≠ [] := by
  unfold fields
  split_ifs <;> simp

/-- The numbers stand in the text with colons between them. -/
theorem toList_text (s : Slice) :
    s.text.toList = [':'].intercalate (s.fields.map fun n => n.repr.toList) := by
  have hcolon : (toString ":").toList = [':'] := rfl
  unfold text fields
  split
  · rename_i hone
    simp [hone]
  · rename_i hmore
    rw [if_neg hmore]
    split <;> simp [List.intercalate_cons_cons, hcolon]

theorem digit_of_mem_repr {n : ℕ} {c : Char} (h : c ∈ n.repr.toList) : c.isDigit = true := by
  rw [Nat.toList_repr] at h
  exact Nat.isDigit_of_mem_toDigits (by decide) (by decide) h

theorem repr_injective : Function.Injective fun n : ℕ => n.repr.toList := by
  intro m n h
  rw [← Nat.ofDigitChars_ten_toDigits (n := m), ← Nat.ofDigitChars_ten_toDigits (n := n),
    ← Nat.toList_repr, ← Nat.toList_repr]
  exact congrArg (Nat.ofDigitChars 10 · 0) h

theorem splitOn_text (s : Slice) :
    s.text.toList.splitOn ':' = s.fields.map fun n => n.repr.toList := by
  rw [toList_text]
  refine List.splitOn_intercalate ':' (fun l hl => ?_) (by simp [fields_ne_nil])
  obtain ⟨n, -, rfl⟩ := List.mem_map.1 hl
  intro hmem
  cases digit_of_mem_repr hmem

/-- The numbers are read back where the text is taken apart at its colons. -/
theorem fields_of_text (h : s.text = t.text) : s.fields = t.fields := by
  refine List.map_injective_iff.2 repr_injective ?_
  rw [← splitOn_text, ← splitOn_text, h]

/-- The text is made of digits and colons. -/
theorem mem_text {c : Char} (h : c ∈ s.text.toList) : c.isDigit = true ∨ c = ':' := by
  have hdigits {m : ℕ} (hm : c ∈ m.repr.toList) : c.isDigit = true ∨ c = ':' :=
    .inl (digit_of_mem_repr hm)
  rw [toList_text, fields] at h
  split_ifs at h <;>
    simp only [List.map_cons, List.map_nil, List.intercalate_cons_cons, List.intercalate_singleton,
      List.mem_append, List.mem_singleton] at h
  · exact hdigits h
  · rcases h with (h | h) | h
    · exact hdigits h
    · exact .inr h
    · exact hdigits h
  · rcases h with (h | h) | (h | h) | h
    · exact hdigits h
    · exact .inr h
    · exact hdigits h
    · exact .inr h
    · exact hdigits h

theorem notMem_text {c : Char} (hdigit : c.isDigit = false) (hcolon : c ≠ ':') :
    c ∉ s.text.toList := by
  intro h
  rcases mem_text h with h | h
  · rw [hdigit] at h
    cases h
  · exact hcolon h

theorem positions_single (h : s.count = .ok 1) : s.positions = .ok [s.start.toNat] := by
  rw [positions, h]
  simp [Except.map, place, position]

theorem length_fields_eq_one_iff : s.fields.length = 1 ↔ s.count = .ok 1 := by
  unfold fields
  split_ifs <;> simp_all

/-- Where there are several positions, the numbers are those of the slice. -/
theorem eq_of_fields (h : s.fields = t.fields) (hs : s.count ≠ .ok 1) (ht : t.count ≠ .ok 1) :
    s = t := by
  obtain ⟨start, stop, step⟩ := s
  obtain ⟨start', stop', step'⟩ := t
  unfold fields at h
  rw [if_neg hs, if_neg ht] at h
  split_ifs at h <;> simp_all [UInt64.toNat_inj]

/-- The numbers determine the positions. -/
theorem positions_of_fields (h : s.fields = t.fields) : s.positions = t.positions := by
  have hone : s.count = .ok 1 ↔ t.count = .ok 1 := by
    rw [← length_fields_eq_one_iff, ← length_fields_eq_one_iff, h]
  by_cases hs : s.count = .ok 1
  · -- the one position is the one that is written
    have ht := hone.1 hs
    rw [fields, fields, if_pos hs, if_pos ht] at h
    rw [positions_single hs, positions_single ht, h]
  · rw [eq_of_fields h hs (mt hone.2 hs)]

theorem positions_of_text (h : s.text = t.text) : s.positions = t.positions :=
  positions_of_fields (fields_of_text h)

end Slice

/-! ### Texts of selections -/

namespace Selection

variable {s t : Selection}

/-- The text between the brackets. -/
def inside (s : Selection) : List Char :=
  s.rows.text.toList ++ ',' :: ' ' :: s.cols.text.toList

theorem toList_text (s : Selection) : s.text.toList = '[' :: (s.inside ++ [']']) := by
  simp [text, Text.bracketed, Text.commaSeparated, inside, String.intercalate_cons_cons]

theorem bracket_notMem_inside (s : Selection) : '[' ∉ s.inside := by
  have hslice (r : Slice) : '[' ∉ r.text.toList := Slice.notMem_text rfl (by decide)
  simp [inside, hslice]

theorem samePositions_of_inside (h : s.inside = t.inside) : s.SamePositions t := by
  have hcomma (r : Slice) : ',' ∉ r.text.toList := Slice.notMem_text rfl (by decide)
  obtain ⟨hrows, hcols⟩ := eq_and_eq_of_append_cons (hcomma _) (hcomma _) h
  exact ⟨Slice.positions_of_text (String.toList_inj.1 hrows),
    Slice.positions_of_text (String.toList_inj.1 (List.cons.inj hcols).2)⟩

/-! ### Only positions matter -/

theorem SamePositions.shape (h : s.SamePositions t) : s.shape = t.shape := by
  unfold Selection.shape
  rw [Slice.count_of_positions h.rows, Slice.count_of_positions h.cols]

theorem SamePositions.select {K : Type} [OrderedField K] (h : s.SamePositions t) (a : Mat K) :
    a.select s = a.select t := by
  unfold Mat.select
  rw [← Slice.count_of_positions h.rows, ← Slice.count_of_positions h.cols]
  split
  · rename_i rows cols hrows hcols
    have hplace : (∀ i < rows.toNat, s.rows.place i = t.rows.place i) ∧
        ∀ j < cols.toNat, s.cols.place j = t.cols.place j :=
      ⟨fun i hi => Slice.place_of_positions h.rows hrows hi,
        fun j hj => Slice.place_of_positions h.cols hcols hj⟩
    have hin : ((∀ i < rows.toNat, s.rows.place i < a.rows) ∧
          ∀ j < cols.toNat, s.cols.place j < a.cols) ↔
        (∀ i < rows.toNat, t.rows.place i < a.rows) ∧
          ∀ j < cols.toNat, t.cols.place j < a.cols := by
      refine and_congr (forall₂_congr fun i hi => ?_) (forall₂_congr fun j hj => ?_)
      · rw [hplace.1 i hi]
      · rw [hplace.2 j hj]
    have hentries : Mat.ofFn rows.toNat cols.toNat
          (fun i j => a.entry (s.rows.place i) (s.cols.place j)) =
        Mat.ofFn rows.toNat cols.toNat fun i j => a.entry (t.rows.place i) (t.cols.place j) := by
      refine Mat.ext rfl rfl (funext fun i => funext fun j => ?_)
      rw [Mat.entry_ofFn, Mat.entry_ofFn]
      split
      · rename_i hij
        rw [hplace.1 i hij.1, hplace.2 j hij.2]
      · rfl
    simp only [hin, hentries]
  · rfl

end Selection

end DisciplinedConvex
