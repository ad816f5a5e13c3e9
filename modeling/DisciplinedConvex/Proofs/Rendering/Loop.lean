/-
DisciplinedConvex/Proofs/Rendering/Loop.lean

The text that is written from a stack of pieces is the text told by recursion.

`Expr.turn` is one turn of the loop: it writes the piece on top of the stack, or opens
an expression, of which a leaf is written at once and anything else leaves its pieces
behind.  What was written together with the text of all that waits is the same before
and after a turn (`written_turn`), and the stack weighs less after it
(`weights_turn_lt`).  So the stack is empty after finitely many turns, however often a
node is come upon, and what was written by then is the recursive text (`exists_turns`).
-/
import Mathlib
import DisciplinedConvex.Expr.Render

namespace DisciplinedConvex.Expr

/-- The text of a leaf. -/
def leafText? : Expr → Option String
  | var l d => some (variableText l d)
  | const _ v => some v.text
  | add .. | neg .. | mul .. | div .. | transpose .. | index .. => none

/-! ### One turn of the loop -/

/-- What waits on the stack once a node is opened; of a leaf nothing does. -/
def waiting (e : Expr) : List Piece :=
  match e.leafText? with
  | some _ => []
  | none => pieces e

/-- One turn of the loop, on the text written so far and the stack.  The closing parenthesis of an
expression waits below its pieces. -/
def turn : String × List Piece → String × List Piece
  | (out, []) => (out, [])
  | (out, .text s :: stack) => (out ++ s, stack)
  | (out, .expr e isOperand :: stack) =>
    if isOperand && e.isCompound then
      (out ++ "(" ++ e.leafText?.getD "", e.waiting ++ .text ")" :: stack)
    else (out ++ e.leafText?.getD "", e.waiting ++ stack)

/-- The loop goes on as it does after a turn. -/
theorem write_turn (out : String) (stack : List Piece) :
    write out stack = write (turn (out, stack)).1 (turn (out, stack)).2 := by
  -- a leaf is a piece of its own for `write`, and written in the same turn by `turn`
  have opened (out : String) (e : Expr) (stack : List Piece) :
      write out (pieces e ++ stack) = write (out ++ e.leafText?.getD "") (e.waiting ++ stack) := by
    cases e <;> simp [pieces, leafText?, waiting, write]
  rcases stack with _ | ⟨⟨e, isOperand⟩ | s, stack⟩
  · rfl
  · rw [write, turn]
    split
    · exact opened (out ++ "(") e _
    · exact opened out e stack
  · rw [write, turn]

/-! ### What a turn keeps, and what it uses up -/

/-- The text of a piece. -/
def Piece.rendered : Piece → String
  | expr e isOperand => e.rendered isOperand
  | text s => s

/-- The text of all pieces in a list. -/
def Piece.allRendered : List Piece → String
  | [] => ""
  | p :: ps => p.rendered ++ allRendered ps

theorem Piece.allRendered_append (ps qs : List Piece) :
    allRendered (ps ++ qs) = allRendered ps ++ allRendered qs := by
  induction ps with
  | nil => simp [allRendered]
  | cons p ps ih => simp [allRendered, ih, String.append_assoc]

/-- What was written and what waits. -/
def written (s : String × List Piece) : String := s.1 ++ Piece.allRendered s.2

/-- What is written at once and what waits make up the text of a node, up to its parentheses. -/
theorem rendered_eq (e : Expr) (isOperand : Bool) :
    e.rendered isOperand =
      if isOperand && e.isCompound then
        "(" ++ e.leafText?.getD "" ++ Piece.allRendered e.waiting ++ ")"
      else e.leafText?.getD "" ++ Piece.allRendered e.waiting := by
  cases e <;> cases isOperand <;>
    simp [rendered, enclosed, isCompound, leafText?, waiting, pieces, Piece.allRendered,
      Piece.rendered, String.append_assoc]

theorem written_turn (s : String × List Piece) : written (turn s) = written s := by
  obtain ⟨out, _ | ⟨⟨e, isOperand⟩ | s, stack⟩⟩ := s
  · rfl
  · simp only [turn, written, Piece.allRendered, Piece.rendered, rendered_eq e isOperand]
    split <;>
      simp [Piece.allRendered_append, Piece.allRendered, Piece.rendered, String.append_assoc]
  · simp [turn, written, Piece.allRendered, Piece.rendered, String.append_assoc]

theorem weights_waiting_le (e : Expr) : Piece.weights e.waiting + 3 ≤ 4 * e.size := by
  unfold waiting
  split
  · have := size_pos e
    simp only [Piece.weights]
    omega
  · exact weights_pieces e

/-- A node weighs more than its pieces and a parenthesis. -/
theorem weights_turn_lt {s : String × List Piece} (h : s.2 ≠ []) :
    Piece.weights (turn s).2 < Piece.weights s.2 := by
  obtain ⟨out, _ | ⟨⟨e, isOperand⟩ | s, stack⟩⟩ := s
  · exact absurd rfl h
  · have hle := weights_waiting_le e
    simp only [turn]
    split <;> simp only [Piece.weights_append, Piece.weights, Piece.weight] <;> omega
  · simp only [turn, Piece.weights, Piece.weight]
    omega

/-! ### All turns -/

/-- The loop ends, with what it has written and what waited at the start. -/
theorem exists_turns (s : String × List Piece) :
    ∃ n ≤ Piece.weights s.2, turn^[n] s = (written s, []) := by
  -- on the weight of the stack
  generalize hw : Piece.weights s.2 = w
  induction w using Nat.strong_induction_on generalizing s with
  | h w ih =>
    by_cases hs : s.2 = []
    · refine ⟨0, Nat.zero_le w, ?_⟩
      show s = (s.1 ++ Piece.allRendered s.2, [])
      rw [hs, Piece.allRendered, String.append_empty, ← hs]
    · have hlt : Piece.weights (turn s).2 < w := hw ▸ weights_turn_lt hs
      obtain ⟨n, hn, hturns⟩ := ih _ hlt (turn s) rfl
      refine ⟨n + 1, by omega, ?_⟩
      rw [Function.iterate_succ_apply, hturns, written_turn]

theorem write_iterate_turn (n : ℕ) (s : String × List Piece) :
    write s.1 s.2 = write (turn^[n] s).1 (turn^[n] s).2 := by
  induction n generalizing s with
  | zero => rfl
  | succ n ih => rw [Function.iterate_succ_apply, ← ih (turn s), write_turn]

theorem write_eq_written (out : String) (stack : List Piece) :
    write out stack = written (out, stack) := by
  obtain ⟨n, -, hn⟩ := exists_turns (out, stack)
  rw [write_iterate_turn n (out, stack), hn, write]

theorem text_eq_rendered (e : Expr) : e.text = e.rendered false := by
  rw [text, write_eq_written]
  simp [written, Piece.allRendered, Piece.rendered]

/-- The loop that writes an expression ends, after at most four turns for each occurrence of a node,
and what it has written is the text told by recursion. -/
theorem text_written (e : Expr) :
    (∃ n ≤ 4 * e.size, turn^[n] ("", [.expr e false]) = (e.rendered false, [])) ∧
      e.text = e.rendered false := by
  refine ⟨?_, text_eq_rendered e⟩
  obtain ⟨n, hn, hturns⟩ := exists_turns ("", [.expr e false])
  have hend : written ("", [.expr e false]) = e.rendered false := by
    simp [written, Piece.allRendered, Piece.rendered]
  exact ⟨n, hn, hend ▸ hturns⟩

end DisciplinedConvex.Expr
