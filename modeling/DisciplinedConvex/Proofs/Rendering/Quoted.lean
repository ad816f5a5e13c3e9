/-
DisciplinedConvex/Proofs/Rendering/Quoted.lean

What stands between quotes can be read back.

`Text.unescape` reads one character, whether it was written as itself, by its letter or by its
number, and hands on what comes behind it.  So the characters of a quoted text come
back one after the other (`Text.unescape_escape`), up to the closing quote, with which
none of them begins (`Text.quote_injective`).
-/
import Mathlib
import DisciplinedConvex.Text.Quoted

namespace DisciplinedConvex.Text

/-! ### Hexadecimal numbers -/

/-- The number of a hexadecimal digit. -/
def hexValue (c : Char) : ℕ := if c.isDigit then c.toNat - '0'.toNat else c.toNat - 'a'.toNat + 10

/-- The number of hexadecimal digits. -/
def hexNumber (cs : List Char) : ℕ := cs.foldl (fun n c => 16 * n + hexValue c) 0

theorem hexValue_digitChar : ∀ d < 16, hexValue d.digitChar = d := by decide

theorem digitChar_ne_brace : ∀ d < 16, d.digitChar ≠ '\x7d' := by decide

theorem hexNumber_toDigits (n : ℕ) : hexNumber (Nat.toDigits 16 n) = n := by
  induction n using Nat.base_induction 16 (by decide) with
  | single m hm =>
    rw [Nat.toDigits_of_lt_base hm]
    simp [hexNumber, hexValue_digitChar m hm]
  | digit m d hd hm ih =>
    rw [← Nat.toDigits_append_toDigits (by decide) hm hd, Nat.toDigits_of_lt_base hd, hexNumber,
      List.foldl_append, ← hexNumber, ih]
    simp [hexValue_digitChar d hd]

theorem brace_notMem_toDigits (n : ℕ) : '\x7d' ∉ Nat.toDigits 16 n := by
  induction n using Nat.base_induction 16 (by decide) with
  | single m hm =>
    rw [Nat.toDigits_of_lt_base hm, List.mem_singleton]
    exact (digitChar_ne_brace m hm).symm
  | digit m d hd hm ih =>
    rw [← Nat.toDigits_append_toDigits (by decide) hm hd, Nat.toDigits_of_lt_base hd,
      List.mem_append, List.mem_singleton]
    exact not_or.2 ⟨ih, (digitChar_ne_brace d hd).symm⟩

/-! ### One character -/

/-- The character behind a backslash, by its letter. -/
def unescapeLetter (c : Char) : Char :=
  match c with
  | 'n' => '\n'
  | 'r' => '\r'
  | 't' => '\t'
  | '0' => '\x00'
  | c => c

/-- The first character of a text between quotes, and what comes behind it. -/
def unescape : List Char → Option (Char × List Char)
  | '\\' :: 'u' :: '\x7b' :: cs =>
    some (.ofNat (hexNumber (cs.takeWhile (· ≠ '\x7d'))), (cs.dropWhile (· ≠ '\x7d')).tail)
  | '\\' :: c :: cs => some (unescapeLetter c, cs)
  | c :: cs => some (c, cs)
  | [] => none

/-- A character that is no backslash stands for itself. -/
theorem unescape_cons {c : Char} (hc : c ≠ '\\') (cs : List Char) :
    unescape (c :: cs) = some (c, cs) := by
  unfold unescape
  split
  · rename_i h
    exact absurd (List.cons.inj h).1 hc
  · rename_i h
    exact absurd (List.cons.inj h).1 hc
  · rename_i h
    cases h
    rfl
  · rename_i h
    cases h

/-- The digits of a number end at the brace. -/
theorem unescape_number (n : ℕ) (cs : List Char) :
    unescape ('\\' :: 'u' :: '\x7b' :: (Nat.toDigits 16 n ++ '\x7d' :: cs)) =
      some (.ofNat n, cs) := by
  have hdigits : ∀ c ∈ Nat.toDigits 16 n, decide (c ≠ '\x7d') = true := by
    intro c hc
    refine decide_eq_true fun heq => ?_
    rw [heq] at hc
    exact brace_notMem_toDigits n hc
  rw [unescape, List.takeWhile_append_of_pos hdigits, List.dropWhile_append_of_pos hdigits,
    List.takeWhile_cons_of_neg (by decide), List.dropWhile_cons_of_neg (by decide),
    List.append_nil, hexNumber_toDigits]
  rfl

/-- However a character is written, it is read back, and the rest is left. -/
theorem unescape_escape (c : Char) (cs : List Char) : unescape (escape c ++ cs) = some (c, cs) := by
  unfold escape
  split
  iterate 6 rfl
  · rename_i hc _ _ _ _
    split
    · have hnumber := unescape_number c.toNat cs
      rw [Char.ofNat_toNat] at hnumber
      rw [← hnumber]
      simp
    · exact unescape_cons hc cs

/-! ### The whole text -/

theorem flatMap_escape_inj {cs ds : List Char}
    (h : cs.flatMap escape ++ ['"'] = ds.flatMap escape ++ ['"']) : cs = ds := by
  have hne (c : Char) (rest : List Char) : escape c ++ rest ≠ ['"'] := by
    intro heq
    have hread := unescape_escape c rest
    rw [heq] at hread
    cases hread
    exact absurd heq (by decide)
  -- character by character; the shorter text would end with a quote where the other one goes on
  induction cs generalizing ds with
  | nil =>
    cases ds with
    | nil => rfl
    | cons d ds =>
      rw [List.flatMap_cons, List.append_assoc] at h
      exact absurd h.symm (hne d _)
  | cons c cs ih =>
    cases ds with
    | nil =>
      rw [List.flatMap_cons, List.append_assoc] at h
      exact absurd h (hne c _)
    | cons d ds =>
      rw [List.flatMap_cons, List.append_assoc, List.flatMap_cons, List.append_assoc] at h
      have hread := congrArg unescape h
      rw [unescape_escape, unescape_escape] at hread
      obtain ⟨rfl, hrest⟩ := Prod.mk.inj (Option.some.inj hread)
      rw [ih hrest]

/-- Texts that are quoted alike are the same. -/
theorem quote_injective : Function.Injective quote := by
  intro s t h
  have hinside := List.cons.inj (String.ofList_injective h)
  exact String.toList_injective (flatMap_escape_inj hinside.2)

example : quote "β x" = "\"β x\"" := by decide +kernel

example : quote "\x1b[0m" = "\"\\u\x7b1b\x7d[0m\"" := by decide +kernel

end DisciplinedConvex.Text
