/-
DisciplinedConvex/Proofs/Indexing/ColumnMajor.lean

Passes over the entries of an expression go down one column after the other.

A pass may be taken up at any time, with whatever ledger there is by then, and a
copy of it goes on by itself: `Entries.Consumes` is consumption in pieces, and
anything else may be built between two of them.  One lemma says what the next
`n` entries of a pass are (`Entries.Over.perform_take`); that the count of entries
still to come is exact, that a finished pass stays finished and that copies agree
all follow from it.  The places that a pass comes to are told by division with
remainder, and they list the matrix as `Mat.columnMajor` does, which knows rows
and columns only.
-/
import DisciplinedConvex.Proofs.Graph.Buildable
import DisciplinedConvex.Proofs.Graph.Built
import DisciplinedConvex.Proofs.Indexing.Resolution
import DisciplinedConvex.Proofs.Soundness.Shape

namespace DisciplinedConvex

/-! ### Matrices column by column -/

namespace Mat

variable {K : Type} [OrderedField K]

/-- The entries of a matrix, one column after the other. -/
def columnMajor (a : Mat K) : List K :=
  (List.range a.cols).flatMap fun j => (List.range a.rows).map fun i => a.entry i j

/-- The matrix of a single number. -/
def ofNumber (c : K) : Mat K := ofFn 1 1 fun _ _ => c

end Mat

/-- Columns of `m` items put one after the other: item `k` is in column `k / m`, row `k % m`. -/
theorem flatMap_range_map_range {α : Type} (m n : ℕ) (f : ℕ → ℕ → α) :
    ((List.range n).flatMap fun j => (List.range m).map fun i => f i j) =
      (List.range (m * n)).map fun k => f (k % m) (k / m) := by
  induction n with
  | zero => rfl
  | succ n ih =>
    rw [List.range_succ, List.flatMap_append, ih, Nat.mul_succ, List.range_add, List.map_append,
      List.map_map, List.flatMap_singleton]
    refine congrArg _ (List.map_congr_left fun i hi => ?_)
    have him : i < m := List.mem_range.1 hi
    have hm : 0 < m := (Nat.zero_le i).trans_lt him
    rw [Function.comp_apply, Nat.mul_add_mod, Nat.mod_eq_of_lt him, Nat.mul_add_div hm,
      Nat.div_eq_of_lt him, Nat.add_zero]

/-- The entry that is listed as number `k` is in row `k % rows` and column `k / rows`. -/
theorem Mat.columnMajor_eq {K : Type} [OrderedField K] (a : Mat K) :
    a.columnMajor = (List.range (a.rows * a.cols)).map fun k => a.entry (k % a.rows) (k / a.rows) :=
  flatMap_range_map_range a.rows a.cols a.entry

namespace Expr

/-- The `k`-th entry of an expression as a node with a number; a scalar is its own entry. -/
def entryAt (e : Expr) (id : ℕ) (k : UInt64) : Expr :=
  if e.isScalar then e
  else .index ⟨id, e.attributes.select .scalar⟩ e
    (Selection.entry (k % e.shape.rows) (k / e.shape.rows))

/-- The selection of a node that selects. -/
def selection? : Expr → Option Selection
  | index _ _ s => some s
  | _ => none

/-- What an entry selects does not depend on its number. -/
theorem selection?_entryAt (e : Expr) (id id' : ℕ) (k : UInt64) :
    (e.entryAt id k).selection? = (e.entryAt id' k).selection? := by
  unfold entryAt
  split <;> rfl

end Expr

namespace Entries

open Build

/-- A pass over the entries of an expression that has not gone beyond the last one. -/
structure Over (p : Entries) (e : Expr) : Prop where
  expr : p.expr = e
  stop : p.stop = e.shape.numel
  next_le : p.next ≤ p.stop

variable {p q r : Entries} {e : Expr}

theorem ofExpr_over (e : Expr) : (ofExpr e).Over e :=
  ⟨rfl, rfl, UInt64.le_iff_toNat_le.2 (Nat.zero_le _)⟩

theorem Over.toNat_remaining (h : p.Over e) :
    p.remaining.toNat = p.stop.toNat - p.next.toNat :=
  UInt64.toNat_sub_of_le _ _ h.next_le

theorem Over.isFinished_iff (h : p.Over e) : p.isFinished = true ↔ p.remaining.toNat = 0 := by
  rw [h.toNat_remaining, isFinished, decide_eq_true_iff, UInt64.le_iff_toNat_le]
  omega

theorem Over.advance (h : p.Over e) (hp : p.isFinished = false) :
    p.advance.Over e ∧ p.advance.remaining.toNat + 1 = p.remaining.toNat := by
  have hnext := toNat_advance (Bool.eq_false_iff.1 hp)
  have hlt : 0 < p.remaining.toNat :=
    Nat.pos_of_ne_zero fun h0 => Bool.eq_false_iff.1 hp (h.isFinished_iff.2 h0)
  rw [h.toNat_remaining] at hlt
  have hover : p.advance.Over e := by
    refine ⟨h.expr, h.stop, UInt64.le_iff_toNat_le.2 ?_⟩
    show p.advance.next.toNat ≤ p.stop.toNat
    omega
  refine ⟨hover, ?_⟩
  rw [hover.toNat_remaining, h.toNat_remaining]
  show p.stop.toNat - p.advance.next.toNat + 1 = _
  omega

/-! ### What a pass builds -/

/-- The nodes that entries of an expression leave in the ledger: a scalar is not built again. -/
def built (e : Expr) (entries : List Expr) : List Expr := if e.isScalar then [] else entries

/-- The `n` entries that follow in a pass, numbered from `id` on. -/
def following (p : Entries) (id n : ℕ) : List Expr :=
  (List.range n).map fun i => p.expr.entryAt (id + i) (p.next + .ofNat i)

@[simp] theorem length_following (p : Entries) (id n : ℕ) : (p.following id n).length = n := by
  simp [following]

theorem getElem?_following (p : Entries) (id : ℕ) {n i : ℕ} (hi : i < n) :
    (p.following id n)[i]? = some (p.expr.entryAt (id + i) (p.next + .ofNat i)) := by
  rw [following, List.getElem?_map, List.getElem?_range hi]
  rfl

/-- The first entry, and those of the pass after it. -/
theorem following_succ (p : Entries) (id n : ℕ) :
    p.following id (n + 1) = p.expr.entryAt id p.next :: p.advance.following (id + 1) n := by
  have hnext (i : ℕ) : p.next + .ofNat (i + 1) = p.advance.next + .ofNat i := by
    rw [advance, UInt64.add_assoc, UInt64.add_comm 1, UInt64.ofNat_add]
    rfl
  rw [following, List.range_succ_eq_map, List.map_cons, List.map_map]
  refine congrArg₂ _ ?_ (List.map_congr_left fun i _ => ?_)
  · exact congrArg (p.expr.entryAt id) (UInt64.add_zero _)
  · show p.expr.entryAt (id + (i + 1)) (p.next + .ofNat (i + 1)) = _
    rw [hnext, Nat.add_assoc, Nat.add_comm 1]
    rfl

/-- Of a scalar the number does not matter. -/
theorem following_of_isScalar (h : p.expr.isScalar = true) (id id' n : ℕ) :
    p.following id n = p.following id' n := by
  simp only [following, Expr.entryAt, if_pos h]

/-- The entry that a pass comes to. -/
theorem perform_build (p : Entries) (l : Ledger) :
    ∃ l', p.build.perform l = (.ok (p.expr.entryAt l.next p.next), l') ∧
      l.Gains (built p.expr [p.expr.entryAt l.next p.next]) l' ∧
      (p.expr.isScalar = true → l' = l) := by
  unfold Entries.build Build.entry Expr.entryAt built
  by_cases hs : p.expr.isScalar = true
  · simp only [if_pos hs]
    exact ⟨l, rfl, l.gains_nil, fun _ => rfl⟩
  · simp only [if_neg hs]
    obtain ⟨l', hl', hgains⟩ := perform_selected (Selection.shape_entry _ _) l
    exact ⟨l', hl', hgains, fun h => absurd h hs⟩

theorem built_cons (e a : Expr) (es : List Expr) :
    built e (a :: es) = built e [a] ++ built e es := by
  unfold built
  split <;> rfl

/-- The next `n` entries of a pass, or as many as there are. -/
theorem Over.perform_take (h : p.Over e) (n : ℕ) (l : Ledger) :
    ∃ q l', (p.take n).perform l = (.ok (p.following l.next (min n p.remaining.toNat), q), l') ∧
      q.Over e ∧ q.next = p.next + .ofNat (min n p.remaining.toNat) ∧
      q.remaining.toNat = p.remaining.toNat - n ∧
      l.Gains (built e (p.following l.next (min n p.remaining.toNat))) l' ∧
      (e.isScalar = true → l' = l) := by
  have hnil (l : Ledger) : l.Gains (built e []) l := by
    unfold built
    split <;> exact l.gains_nil
  -- on the number of entries, for whatever pass and ledger there are by then
  induction n generalizing p l with
  | zero =>
    rw [Nat.zero_min]
    exact ⟨p, l, rfl, h, (UInt64.add_zero _).symm, rfl, hnil l, fun _ => rfl⟩
  | succ n ih =>
    rcases hfin : p.isFinished
    · obtain ⟨hover, hrem⟩ := h.advance hfin
      obtain ⟨l₁, hbuild, hgains, hsame⟩ := p.perform_build l
      obtain ⟨q, l', htake, hq, hnext, hqrem, hqgains, hqsame⟩ := ih hover l₁
      have hmin : min (n + 1) p.remaining.toNat = min n p.advance.remaining.toNat + 1 := by omega
      have hrest : p.advance.following l₁.next (min n p.advance.remaining.toNat) =
          p.advance.following (l.next + 1) (min n p.advance.remaining.toNat) := by
        rcases hs : p.expr.isScalar
        · have hone : l₁.next = l.next + 1 := by
            rw [hgains.next, built, if_neg (Bool.eq_false_iff.1 hs)]
            rfl
          rw [hone]
        · exact following_of_isScalar (p := p.advance) hs ..
      rw [hmin, following_succ, ← hrest, built_cons]
      refine ⟨q, l', ?_, hq, ?_, by omega, ?_, fun hs => ?_⟩
      · rw [take, if_neg (Bool.eq_false_iff.1 hfin), Build.perform_bind, hbuild]
        show ((p.advance.take n) >>= _).perform l₁ = _
        rw [Build.perform_bind, htake]
        rfl
      · rw [hnext, UInt64.ofNat_add, UInt64.add_comm (.ofNat _), ← UInt64.add_assoc]
        rfl
      · rw [h.expr] at hgains
        rw [h.expr]
        exact hgains.trans hqgains
      · rw [hqsame hs, hsame (h.expr ▸ hs)]
    · have hzero := h.isFinished_iff.1 hfin
      rw [hzero, Nat.min_zero, Nat.zero_sub]
      refine ⟨p, l, ?_, h, (UInt64.add_zero _).symm, hzero, hnil l, fun _ => rfl⟩
      rw [take, if_pos hfin]
      rfl

/-! ### Consumption in pieces -/

/-- The entries taken from a pass, piece by piece, and the pass that is left.  Each piece starts
from some ledger of its own: whatever else was built in the meantime, entries of a copy among them,
is in it. -/
inductive Consumes (p : Entries) : List Expr → Entries → Prop
  | nothing : Consumes p [] p
  | more {es as : List Expr} {q r : Entries} {n : ℕ} {l l' : Ledger} (h : Consumes p es q)
      (htake : (q.take n).perform l = (.ok (as, r), l')) : Consumes p (es ++ as) r

/-- What was taken from a pass are the entries that followed in it, whatever their numbers. -/
theorem Over.consumes (h : p.Over e) {es : List Expr} (hc : p.Consumes es q) :
    q.Over e ∧ es.length + q.remaining.toNat = p.remaining.toNat ∧
      q.next = p.next + .ofNat es.length ∧
      ∀ i < es.length, ∃ id, es[i]? = some (e.entryAt id (p.next + .ofNat i)) := by
  induction hc with
  | nothing => exact ⟨h, Nat.zero_add _, (UInt64.add_zero _).symm, by simp⟩
  | @more es as q r n l l' hc htake ih =>
    obtain ⟨hq, hlen, hnext, hentry⟩ := ih
    obtain ⟨r', l₁, hr, hover, hrnext, hrem, -, -⟩ := hq.perform_take n l
    rw [htake] at hr
    cases hr
    refine ⟨hover, ?_, ?_, fun i hi => ?_⟩
    · rw [List.length_append, length_following]
      omega
    · rw [hrnext, hnext, List.length_append, length_following, UInt64.ofNat_add, UInt64.add_assoc]
    · by_cases hes : i < es.length
      · obtain ⟨id, hid⟩ := hentry i hes
        exact ⟨id, by rw [List.getElem?_append_left hes, hid]⟩
      · have hle : es.length ≤ i := not_lt.1 hes
        have hlt : i - es.length < min n q.remaining.toNat := by
          rw [List.length_append, length_following] at hi
          omega
        have hplace : q.next + .ofNat (i - es.length) = p.next + .ofNat i := by
          rw [hnext, UInt64.add_assoc, ← UInt64.ofNat_add, Nat.add_sub_cancel' hle]
        refine ⟨l.next + (i - es.length), ?_⟩
        rw [List.getElem?_append_right hle, getElem?_following _ _ hlt, hq.expr, hplace]

/-- Two consumptions from the same point take the same entries, as far as the shorter one goes. -/
theorem Over.copies (h : p.Over e) {as bs : List Expr} (ha : p.Consumes as q)
    (hb : p.Consumes bs r) (hle : as.length ≤ bs.length) :
    as.map Expr.selection? <+: bs.map Expr.selection? := by
  obtain ⟨-, -, -, hentry⟩ := h.consumes ha
  obtain ⟨-, -, -, hentry'⟩ := h.consumes hb
  rw [List.prefix_iff_getElem?]
  intro i hi
  rw [List.length_map] at hi
  obtain ⟨id, hid⟩ := hentry i hi
  obtain ⟨id', hid'⟩ := hentry' i (hi.trans_le hle)
  obtain ⟨_, hget⟩ := List.getElem?_eq_some_iff.1 hid
  rw [List.getElem?_map, hid', List.getElem_map, hget]
  exact congrArg some (e.selection?_entryAt id' id _)

end Entries

/-! ### Places of entries -/

theorem Selection.entry_inj {row col row' col' : UInt64} (h : entry row col = entry row' col') :
    row = row' ∧ col = col' :=
  ⟨congrArg (fun s => s.rows.start) h, congrArg (fun s => s.cols.start) h⟩

theorem Slice.place_single_zero (i : UInt64) : (single i).place 0 = i.toNat := by
  show (i + 0 * 1).toNat = i.toNat
  rw [UInt64.zero_mul, UInt64.add_zero]

namespace Expr

variable {K : Type} [OrderedField K] {e : Expr} {row col : UInt64}

/-- The value of an entry is the number in its place. -/
theorem WellFormed.eval_entry (he : e.WellFormed) (hr : row < e.shape.rows)
    (hc : col < e.shape.cols) {x : Assignment K} {v : Mat K} (hv : e.eval x = .ok v) (i : Label) :
    (Expr.index i e (Selection.entry row col)).eval x =
      .ok (Mat.ofNumber (v.entry row.toNat col.toNat)) := by
  refine eval_index_eq_ok_iff.2 ⟨v, hv, ?_⟩
  rw [Mat.select_of_hasShape (he.hasShape hv) (Selection.entry_fits hr hc)
    (Selection.shape_entry row col)]
  refine congrArg Except.ok (Mat.ext rfl rfl ?_)
  funext m n
  show (if m < 1 ∧ n < 1 then _ else 0) = if m < 1 ∧ n < 1 then _ else 0
  split
  · rename_i hmn
    obtain ⟨rfl, rfl⟩ : m = 0 ∧ n = 0 := by omega
    show v.entry ((Slice.single row).place 0) ((Slice.single col).place 0) = _
    rw [Slice.place_single_zero, Slice.place_single_zero]
  · rfl

/-- A key of two positions builds the node that a pass builds for them. -/
theorem perform_indexed_entry (he : e.isScalar = false) (hr : row < e.shape.rows)
    (hc : col < e.shape.cols) (l : Ledger) :
    ((Build.indexed e (.pair (.index row) (.index col))).perform l).1 =
      .ok (.index ⟨l.next, e.attributes.select .scalar⟩ e (Selection.entry row col)) := by
  have hs : (Key.pair (.index row) (.index col)).resolve e.shape =
      .ok (Selection.entry row col) :=
    Key.resolve_eq_ok_iff.2 ⟨if_pos hr, if_pos hc⟩
  exact (Build.indexed_eq_ok_iff he).2 ⟨_, _, hs, Selection.shape_entry row col, rfl⟩

/-- The expressions are the entries of `e`, down one column after the other, each a new node on `e`
with the next number from `first` on. -/
structure ListedBy (e : Expr) (first : ℕ) (es : List Expr) : Prop where
  length_eq : es.length = e.shape.rows.toNat * e.shape.cols.toNat
  entry : ∀ k < es.length, ∃ row col : UInt64,
    row.toNat = k % e.shape.rows.toNat ∧ col.toNat = k / e.shape.rows.toNat ∧
    row < e.shape.rows ∧ col < e.shape.cols ∧
    es[k]? = some
      (.index ⟨first + k, e.attributes.select .scalar⟩ e (Selection.entry row col)) ∧
    ∀ l, ((Build.indexed e (.pair (.index row) (.index col))).perform l).1 =
      .ok (.index ⟨l.next, e.attributes.select .scalar⟩ e (Selection.entry row col))
  once : ∀ row col, row < e.shape.rows → col < e.shape.cols →
    ∃! k : ℕ, ∃ i, es[k]? = some (.index i e (Selection.entry row col))
  values : ∀ (K : Type) [OrderedField K] (x : Assignment K) (v : Mat K), e.eval x = .ok v →
    es.map (eval x) = v.columnMajor.map fun c => .ok (.ofNumber c)
  undefined : ∀ (K : Type) [OrderedField K] (x : Assignment K) (u : Undefined),
    e.eval x = .error u → ∀ a ∈ es, a.eval x = .error u

end Expr

namespace Entries

variable {e : Expr}

/-- The place of the `k`-th entry. -/
theorem toNat_place {e : Expr} (hfit : e.shape.rows.toNat * e.shape.cols.toNat < 2 ^ 64) {k : ℕ}
    (hk : k < e.shape.rows.toNat * e.shape.cols.toNat) :
    (UInt64.ofNat k % e.shape.rows).toNat = k % e.shape.rows.toNat ∧
      (UInt64.ofNat k / e.shape.rows).toNat = k / e.shape.rows.toNat ∧
      UInt64.ofNat k % e.shape.rows < e.shape.rows ∧
      UInt64.ofNat k / e.shape.rows < e.shape.cols := by
  have hw : (UInt64.ofNat k).toNat = k := UInt64.toNat_ofNat_of_lt' (hk.trans hfit)
  have hpos : 0 < e.shape.rows.toNat := UInt64.lt_iff_toNat_lt.1 e.shape.rows_pos
  rw [UInt64.lt_iff_toNat_lt, UInt64.lt_iff_toNat_lt, UInt64.toNat_mod, UInt64.toNat_div, hw]
  exact ⟨rfl, rfl, Nat.mod_lt _ hpos, Nat.div_lt_of_lt_mul hk⟩

/-- The node of the `k`-th entry of a matrix. -/
def nodeAt (e : Expr) (first k : ℕ) : Expr :=
  .index ⟨first + k, e.attributes.select .scalar⟩ e
    (Selection.entry (.ofNat k % e.shape.rows) (.ofNat k / e.shape.rows))

/-- A pass from the first entry of a matrix on goes through the nodes in turn. -/
theorem following_ofExpr (hs : e.isScalar = false) (first n : ℕ) :
    (ofExpr e).following first n = (List.range n).map (nodeAt e first) := by
  refine List.map_congr_left fun k _ => ?_
  have hstart : (ofExpr e).next + .ofNat k = .ofNat k := UInt64.zero_add _
  rw [hstart]
  exact if_neg (Bool.eq_false_iff.1 hs)

theorem getElem?_following_ofExpr_iff (hs : e.isScalar = false) (first : ℕ) {n k : ℕ} {a : Expr} :
    ((ofExpr e).following first n)[k]? = some a ↔ k < n ∧ nodeAt e first k = a := by
  rw [following_ofExpr hs, List.getElem?_map, Option.map_eq_some_iff]
  simp only [List.getElem?_eq_some_iff, List.getElem_range, List.length_range]
  constructor
  · rintro ⟨_, ⟨hk, rfl⟩, rfl⟩
    exact ⟨hk, rfl⟩
  · rintro ⟨hk, rfl⟩
    exact ⟨k, ⟨hk, rfl⟩, rfl⟩

/-- Row and column tell the place, and every place is come to. -/
theorem existsUnique_place (hs : e.isScalar = false)
    (hfit : e.shape.rows.toNat * e.shape.cols.toNat < 2 ^ 64) (first : ℕ) {row col : UInt64}
    (hr : row < e.shape.rows) (hc : col < e.shape.cols) :
    ∃! k : ℕ, ∃ i, ((ofExpr e).following first (e.shape.rows.toNat * e.shape.cols.toNat))[k]? =
      some (.index i e (Selection.entry row col)) := by
  rw [UInt64.lt_iff_toNat_lt] at hr hc
  have hlt : e.shape.rows.toNat * col.toNat + row.toNat <
      e.shape.rows.toNat * e.shape.cols.toNat :=
    calc e.shape.rows.toNat * col.toNat + row.toNat
      _ < e.shape.rows.toNat * (col.toNat + 1) := by
        rw [Nat.mul_succ]
        omega
      _ ≤ e.shape.rows.toNat * e.shape.cols.toNat := Nat.mul_le_mul_left _ hc
  obtain ⟨hmod, hdiv, -, -⟩ := toNat_place hfit hlt
  rw [Nat.mul_add_mod, Nat.mod_eq_of_lt hr, UInt64.toNat_inj] at hmod
  rw [Nat.mul_add_div ((Nat.zero_le _).trans_lt hr), Nat.div_eq_of_lt hr, Nat.add_zero,
    UInt64.toNat_inj] at hdiv
  have hget := (getElem?_following_ofExpr_iff hs first).2 ⟨hlt, rfl⟩
  rw [nodeAt, hmod, hdiv] at hget
  refine ⟨_, ⟨_, hget⟩, ?_⟩
  rintro k ⟨i, hk⟩
  obtain ⟨hkn, hnode⟩ := (getElem?_following_ofExpr_iff hs first).1 hk
  obtain ⟨hmod', hdiv', -, -⟩ := toNat_place hfit hkn
  obtain ⟨-, -, hsel⟩ := Expr.index.inj hnode
  obtain ⟨hrow, hcol⟩ := Selection.entry_inj hsel
  rw [hrow] at hmod'
  rw [hcol] at hdiv'
  rw [hmod', hdiv', Nat.div_add_mod]

/-- A pass over a matrix lists its entries. -/
theorem following_listedBy (he : e.WellFormed) (hs : e.isScalar = false)
    (hfit : e.shape.rows.toNat * e.shape.cols.toNat < 2 ^ 64) (first : ℕ) :
    e.ListedBy first
      ((ofExpr e).following first (e.shape.rows.toNat * e.shape.cols.toNat)) where
  length_eq := length_following ..
  entry k hk := by
    rw [length_following] at hk
    obtain ⟨hmod, hdiv, hr, hc⟩ := toNat_place hfit hk
    exact ⟨_, _, hmod, hdiv, hr, hc, (getElem?_following_ofExpr_iff hs first).2 ⟨hk, rfl⟩,
      Expr.perform_indexed_entry hs hr hc⟩
  once row col hr hc := existsUnique_place hs hfit first hr hc
  values K _ x v hv := by
    have hshape := he.hasShape hv
    rw [following_ofExpr hs, Mat.columnMajor_eq, hshape.rows, hshape.cols, List.map_map,
      List.map_map]
    refine List.map_congr_left fun k hk => ?_
    obtain ⟨hmod, hdiv, hr, hc⟩ := toNat_place hfit (List.mem_range.1 hk)
    show (nodeAt e first k).eval x = .ok (.ofNumber _)
    rw [nodeAt, he.eval_entry hr hc hv, hmod, hdiv]
  undefined K _ x u hu a ha := by
    rw [following_ofExpr hs] at ha
    obtain ⟨k, -, rfl⟩ := List.mem_map.1 ha
    rw [nodeAt, Expr.eval, hu]
    rfl

/-! ### Passes -/

/-- A pass over an expression from which so many entries were taken: the entries still to come are
counted exactly, as many as are asked for can be taken as new nodes, nothing more comes once it is
finished, and any two consumptions from here on, as by the pass and by a copy of it, take the same
entries. -/
structure Exact (p : Entries) (e : Expr) (taken : ℕ) : Prop where
  next_le : p.next ≤ p.stop
  remaining_eq : taken + p.remaining.toNat = e.shape.rows.toNat * e.shape.cols.toNat
  take : ∀ n l, ∃ as q l', (p.take n).perform l = (.ok (as, q), l') ∧
    as.length = min n p.remaining.toNat ∧ l.Gains (built e as) l'
  isFinished_iff : p.isFinished = true ↔ p.remaining.toNat = 0
  finished : p.isFinished = true → ∀ n l, (p.take n).perform l = (.ok ([], p), l)
  copies : ∀ as q bs r, p.Consumes as q → p.Consumes bs r → as.length ≤ bs.length →
    as.map Expr.selection? <+: bs.map Expr.selection?

theorem toNat_remaining_ofExpr (hfit : e.shape.rows.toNat * e.shape.cols.toNat < 2 ^ 64) :
    (ofExpr e).remaining.toNat = e.shape.rows.toNat * e.shape.cols.toNat := by
  show (e.shape.numel - 0).toNat = _
  rw [UInt64.sub_zero, Shape.numel, UInt64.toNat_mul, Nat.mod_eq_of_lt hfit]

/-- Whatever was taken from a pass, it is exact. -/
theorem exact_of_consumes (hfit : e.shape.rows.toNat * e.shape.cols.toNat < 2 ^ 64)
    {es : List Expr} {p : Entries} (hc : (ofExpr e).Consumes es p) : p.Exact e es.length := by
  obtain ⟨hover, hlen, -, -⟩ := (ofExpr_over e).consumes hc
  refine ⟨hover.next_le, hlen.trans (toNat_remaining_ofExpr hfit), fun n l => ?_,
    hover.isFinished_iff, fun hfin n l => ?_, fun as q bs r ha hb hle => hover.copies ha hb hle⟩
  · obtain ⟨q, l', htake, -, -, -, hgains, -⟩ := hover.perform_take n l
    exact ⟨_, q, l', htake, length_following .., hgains⟩
  · cases n with
    | zero => rfl
    | succ n =>
      rw [take, if_pos hfin]
      rfl

/-- Passes go down one column after the other.  A scalar is handed out once and nothing is built; of
a matrix each place comes once, as the node that a key of its two positions builds, and the values
are the columns of the value one after the other.  At any time the pass knows how many entries are
to come, and copies of it go on alike, whatever is built in between. -/
theorem pass_columnMajor (he : e.Buildable)
    (hfit : e.shape.rows.toNat * e.shape.cols.toNat < 2 ^ 64) :
    (e.isScalar = true → ∀ l, ∃ q, (ofExpr e).drain.perform l = (.ok ([e], q), l) ∧
      q.isFinished = true) ∧
    (e.isScalar = false → ∀ l, ∃ es q l', (ofExpr e).drain.perform l = (.ok (es, q), l') ∧
      q.isFinished = true ∧ l.Gains es l' ∧ e.ListedBy l.next es) ∧
    ∀ es p, (ofExpr e).Consumes es p → p.Exact e es.length := by
  have hdrain (l : Ledger) := (ofExpr_over e).perform_take (ofExpr e).remaining.toNat l
  rw [Nat.min_self, toNat_remaining_ofExpr hfit] at hdrain
  refine ⟨fun hs l => ?_, fun hs l => ?_, fun es p hc => exact_of_consumes hfit hc⟩
  · obtain ⟨q, l', htake, hover, -, hrem, -, hsame⟩ := hdrain l
    have hnumel : e.shape.rows.toNat * e.shape.cols.toNat = 1 := by
      rw [(Shape.isScalar_iff _).1 hs]
      rfl
    have hlist : (ofExpr e).following l.next 1 = [e] := by
      rw [following_succ]
      exact congrArg (· :: []) (if_pos hs)
    refine ⟨q, ?_, hover.isFinished_iff.2 (hrem.trans (Nat.sub_self _))⟩
    rw [hnumel, hlist, hsame hs] at htake
    rw [drain, toNat_remaining_ofExpr hfit, hnumel]
    exact htake
  · obtain ⟨q, l', htake, hover, -, hrem, hgains, -⟩ := hdrain l
    rw [built, if_neg (Bool.eq_false_iff.1 hs)] at hgains
    refine ⟨_, q, l', ?_, hover.isFinished_iff.2 (hrem.trans (Nat.sub_self _)), hgains,
      following_listedBy he.wellFormed hs hfit l.next⟩
    rw [drain, toNat_remaining_ofExpr hfit]
    exact htake

/-- Two rows and three columns. -/
theorem pass_columnMajor_table :
    let shape : Shape := { rows := 2, cols := 3 }
    let table : Expr := .var ⟨0, .affine, .unknown, shape⟩ { shape }
    ∃ es q l', (ofExpr table).drain.perform (.startingAt 1) = (.ok (es, q), l') ∧
      table.ListedBy 1 es ∧ q.Exact table es.length := by
  intro shape table
  have htable : table.Buildable := .of_answer 0 [.declare 2 3 none []] 0 rfl
  obtain ⟨-, hpass, hexact⟩ := pass_columnMajor htable (by decide)
  obtain ⟨es, q, l', hdrain, -, -, hlisted⟩ := hpass rfl (.startingAt 1)
  exact ⟨es, q, l', hdrain, hlisted, hexact es q (.more .nothing hdrain)⟩

end Entries

end DisciplinedConvex
