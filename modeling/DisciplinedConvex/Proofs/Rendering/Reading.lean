/-
DisciplinedConvex/Proofs/Rendering/Reading.lean

The text of an expression leaves no doubt about the expression.

A text is read from its end, where an operand shows what it is by its first characters
(`Legible.formOf`), and what stands before the last operand of a term tells the
operation (`markOf_beforeOperand`).  Where one text ends with two expressions, and marks
stand before both, the expressions are the same up to what their text leaves open, and
the marks are at the same place.  This is shown for operands, terms and sums at once,
by induction on the expression: an operand in parentheses is a sum, a term is read from
its last operand and a sum from its last term (`readable`).  Leaves have to be words,
and equal words equal leaves.
-/
import DisciplinedConvex.Proofs.Graph.Nodes
import DisciplinedConvex.Proofs.Rendering.Leftward

namespace DisciplinedConvex

namespace Expr

variable {l : Label} {a b e : Expr}

/-! ### What the last characters tell -/

/-- What an operand is, as far as its last characters tell. -/
inductive Form where
  | leaf
  | transposed
  | selected
  | enclosed

def form : Expr → Form
  | var .. | const .. => .leaf
  | transpose .. => .transposed
  | index .. => .selected
  | add .. | neg .. | mul .. | div .. => .enclosed

/-- The form of the last operand, of which the text is read backwards. -/
def formOf : List Char → Form
  | ')' :: _ => .enclosed
  | ']' :: _ => .selected
  | 'T' :: '.' :: _ => .transposed
  | _ => .leaf

/-- What stands before an operand. -/
inductive Mark where
  /-- Nothing, or a parenthesis. -/
  | edge
  | plus
  | minus
  | times
  | over

/-- The mark before an operand that was read backwards. -/
def markOf : List Char → Option Mark
  | [] => some .edge
  | '(' :: _ => some .edge
  | '-' :: _ => some .minus
  | ' ' :: '+' :: ' ' :: _ => some .plus
  | ' ' :: '*' :: ' ' :: _ => some .times
  | ' ' :: '/' :: ' ' :: _ => some .over
  | _ => none

variable {r s : List Char} {v w : String}

theorem mem_delimiters_of_markOf {c : Char} (h : (markOf (c :: r)).isSome) : c ∈ delimiters := by
  unfold markOf at h
  split at h <;> simp_all [delimiters]

/-- A word ends where a mark begins. -/
theorem eq_of_reverse_append (hv : IsWord v) (hw : IsWord w) (hr : (markOf r).isSome)
    (hs : (markOf s).isSome) (h : v.toList.reverse ++ r = w.toList.reverse ++ s) :
    v = w ∧ r = s := by
  have hrest {c : Char} {cs r : List Char} {u : String} (hu : IsWord u)
      (hmem : c ∈ u.toList.reverse) (hr : (markOf (c :: cs ++ r)).isSome) : False :=
    hu.2 c (List.mem_reverse.1 hmem) (mem_delimiters_of_markOf hr)
  rcases List.append_eq_append_iff.1 h with ⟨_ | ⟨c, cs⟩, hw', hr'⟩ | ⟨_ | ⟨c, cs⟩, hv', hs'⟩
  · rw [List.append_nil] at hw'
    exact ⟨String.toList_inj.1 (List.reverse_inj.1 hw'.symm), hr'⟩
  · exact (hrest hw (hw' ▸ by simp) (hr' ▸ hr)).elim
  · rw [List.append_nil] at hv'
    exact ⟨String.toList_inj.1 (List.reverse_inj.1 hv'), hs'.symm⟩
  · exact (hrest hv (hv' ▸ by simp) (hs' ▸ hs)).elim

theorem formOf_word (hw : IsWord w) (hr : (markOf r).isSome) :
    formOf (w.toList.reverse ++ r) = .leaf := by
  have hne : w.toList.reverse ≠ [] := by simpa using hw.1
  obtain ⟨c, cs, hcs⟩ := List.exists_cons_of_ne_nil hne
  have hword {b : Char} (hb : b ∈ c :: cs) : b ∉ delimiters :=
    hw.2 b (List.mem_reverse.1 (hcs ▸ hb))
  have hc : c ∉ delimiters := hword (by simp)
  rw [hcs]
  unfold formOf
  split
  · simp_all [delimiters]
  · simp_all [delimiters]
  · rename_i t heq
    -- the point would be in the word or before it
    rcases cs with _ | ⟨b, cs⟩
    · obtain ⟨-, rfl⟩ := List.cons.inj heq
      simp [markOf] at hr
    · have hb : b ∉ delimiters := hword (by simp)
      simp_all [delimiters]
  · rfl

/-! ### Legible expressions -/

/-- Leaves are words, and sums are bracketed to the left. -/
def Legible : Expr → Prop
  | var l d => IsWord (variableText l d)
  | const _ v => IsWord v.text
  | add _ a b => a.Legible ∧ b.Legible ∧ b.isSum = false
  | mul _ a b | div _ a b => a.Legible ∧ b.Legible
  | neg _ a | transpose _ a | index _ a _ => a.Legible

theorem legible_joined (ha : a.Legible) (hb : b.Legible) : (joined a b).Legible := by
  induction b with
  | add l b c ihb ihc => exact ⟨ihb hb.1, hb.2⟩
  | _ => exact ⟨ha, hb, rfl⟩

theorem legible_leftward (h : ∀ n ∈ e.leaves, ∀ w, n.leafText? = some w → IsWord w) :
    e.leftward.Legible := by
  induction e with
  | var l d => exact h _ (List.mem_singleton.2 rfl) _ rfl
  | const l v => exact h _ (List.mem_singleton.2 rfl) _ rfl
  | add l a b iha ihb =>
    exact legible_joined (iha fun n hn => h n (List.mem_append_left _ hn))
      (ihb fun n hn => h n (List.mem_append_right _ hn))
  | neg l a iha => exact iha h
  | mul l a b iha ihb =>
    exact ⟨iha fun n hn => h n (List.mem_append_left _ hn),
      ihb fun n hn => h n (List.mem_append_right _ hn)⟩
  | div l a b iha ihb =>
    exact ⟨iha fun n hn => h n (List.mem_append_left _ hn),
      ihb fun n hn => h n (List.mem_append_right _ hn)⟩
  | transpose l a iha => exact iha h
  | index l a s iha => exact iha h

theorem Legible.isWord {w : String} (he : e.Legible) (h : e.leafText? = some w) : IsWord w := by
  cases e <;> cases h <;> exact he

theorem Legible.formOf (he : e.Legible) (hr : (markOf r).isSome) :
    formOf (e.backward true ++ r) = e.form := by
  cases e with
  | var l d =>
    rw [backward_of_leaf (w := variableText l d) rfl]
    exact formOf_word he hr
  | const l v =>
    rw [backward_of_leaf (w := v.text) rfl]
    exact formOf_word he hr
  | transpose l a => rw [backward_transpose]; rfl
  | index l a s => rw [backward_index]; rfl
  | _ => rw [backward_of_isCompound rfl]; rfl

/-! ### The last operand of a term -/

/-- The last operand; of a leaf, a transpose or a selection it is the whole. -/
def lastOperand : Expr → Expr
  | neg _ a => a
  | mul _ _ b | div _ _ b => b
  | e => e

/-- The text before the last operand, from its end. -/
def beforeOperand : Expr → List Char
  | neg .. => ['-']
  | mul _ a _ => ' ' :: '*' :: ' ' :: a.backward true
  | div _ a _ => ' ' :: '/' :: ' ' :: a.backward true
  | _ => []

/-- The mark before the last operand, where `m` is the one before the term. -/
def markBefore (m : Option Mark) : Expr → Option Mark
  | neg .. => some .minus
  | mul .. => some .times
  | div .. => some .over
  | _ => m

theorem backward_of_term (h : e.isSum = false) :
    e.backward false = e.lastOperand.backward true ++ e.beforeOperand := by
  cases e with
  | add l a b => cases h
  | neg l a => exact backward_neg
  | mul l a b => exact backward_mul
  | div l a b => exact backward_div
  | _ => exact (backward_of_not_isCompound rfl).symm.trans (List.append_nil _).symm

theorem markOf_beforeOperand (e : Expr) (r : List Char) :
    markOf (e.beforeOperand ++ r) = e.markBefore (markOf r) := by
  cases e <;> rfl

theorem lastOperand_mem (e : Expr) : e.lastOperand ∈ e :: e.children := by
  cases e <;> simp [lastOperand, children]

/-! ### The last term of a sum -/

/-- The last term; of anything but a sum it is the whole. -/
def lastTerm : Expr → Expr
  | add _ _ b => b
  | e => e

/-- The text before the last term, from its end. -/
def beforeTerm : Expr → List Char
  | add _ a _ => ' ' :: '+' :: ' ' :: a.backward false
  | _ => []

theorem backward_lastTerm (e : Expr) :
    e.backward false = e.lastTerm.backward false ++ e.beforeTerm := by
  cases e with
  | add l a b => exact backward_add
  | _ => exact (List.append_nil _).symm

theorem markOf_beforeTerm (e : Expr) (r : List Char) :
    markOf (e.beforeTerm ++ r) = if e.isSum then some .plus else markOf r := by
  cases e <;> rfl

theorem lastTerm_mem (e : Expr) : e.lastTerm ∈ e :: e.children := by
  cases e <;> simp [lastTerm, children]

theorem Legible.isSum_lastTerm (he : e.Legible) : e.lastTerm.isSum = false := by
  cases e with
  | add l a b => exact he.2.2
  | _ => rfl

/-! ### Two expressions at the end of one text -/

/-- Both can be read, and equal words are equal leaves. -/
structure Comparable (e f : Expr) : Prop where
  left : e.Legible
  right : f.Legible
  agree : AgreeOnLeaves e f

theorem Legible.of_mem (he : e.Legible) (ha : a ∈ e :: e.children) : a.Legible := by
  rcases List.mem_cons.1 ha with rfl | ha
  · exact he
  cases e <;> simp_all [children, Legible]
  all_goals rcases ha with rfl | rfl <;> simp [he]

theorem Comparable.of_mem {e f a b : Expr} (h : Comparable e f) (ha : a ∈ e :: e.children)
    (hb : b ∈ f :: f.children) : Comparable a b := by
  have hleaves {e a : Expr} (ha : a ∈ e :: e.children) : a.leaves ⊆ e.leaves := by
    rcases List.mem_cons.1 ha with rfl | ha
    · exact List.Subset.refl _
    · exact leaves_child ha
  exact ⟨h.left.of_mem ha, h.right.of_mem hb,
    fun m hm n hn => h.agree m (hleaves ha hm) n (hleaves hb hn)⟩

/-- Where a text ends with the one expression as well as with the other, and the marks before them
are as told, the expressions are regrouped and the marks are at the same place. -/
def ReadAlike (isOperand : Bool) (p : Option Mark → Prop) (e f : Expr) : Prop :=
  ∀ r s, p (markOf r) → p (markOf s) →
    e.backward isOperand ++ r = f.backward isOperand ++ s → e.Regrouped f ∧ r = s

/-- Before an operand there is any mark. -/
def OperandsAlike : Expr → Expr → Prop := ReadAlike true fun m => m.isSome = true

/-- Before a term the text begins, or there is another term. -/
def TermsAlike : Expr → Expr → Prop := ReadAlike false fun m => m = some .edge ∨ m = some .plus

/-- Before a sum the text begins. -/
def SumsAlike : Expr → Expr → Prop := ReadAlike false fun m => m = some .edge

theorem exists_leafText (h : e.form = .leaf) : ∃ w, e.leafText? = some w := by
  cases e <;> first | exact ⟨_, rfl⟩ | cases h

theorem OperandsAlike.of_children {e f : Expr} (h : Comparable e f)
    (hsum : e.isCompound = true → SumsAlike e f)
    (hchild : ∀ a ∈ e.children, ∀ b, Comparable a b → OperandsAlike a b) : OperandsAlike e f := by
  intro r s hr hs heq
  have hform : e.form = f.form := by rw [← h.left.formOf hr, heq, h.right.formOf hs]
  rcases he : e.form <;> have hf := hform.symm.trans he
  case leaf =>
    obtain ⟨v, hv⟩ := exists_leafText he
    obtain ⟨w, hw⟩ := exists_leafText hf
    rw [backward_of_leaf hv, backward_of_leaf hw] at heq
    obtain ⟨rfl, hrs⟩ := eq_of_reverse_append (h.left.isWord hv) (h.right.isWord hw) hr hs heq
    refine ⟨.leaf (h.agree e ?_ f ?_ (hv.trans hw.symm)), hrs⟩
    · exact leaves_of_leafText hv ▸ List.mem_singleton_self e
    · exact leaves_of_leafText hw ▸ List.mem_singleton_self f
  case transposed =>
    obtain ⟨l, a, rfl⟩ : ∃ l a, e = transpose l a := by cases e <;> cases he; exact ⟨_, _, rfl⟩
    obtain ⟨m, b, rfl⟩ : ∃ m b, f = transpose m b := by cases f <;> cases hf; exact ⟨_, _, rfl⟩
    simp only [backward_transpose, List.cons_append, List.cons.injEq, true_and] at heq
    have hab : Comparable a b := h.of_mem (by simp [children]) (by simp [children])
    obtain ⟨harg, hrs⟩ := hchild a (by simp [children]) b hab r s hr hs heq
    exact ⟨.transpose l m harg, hrs⟩
  case selected =>
    obtain ⟨l, a, t, rfl⟩ : ∃ l a t, e = index l a t := by
      cases e <;> cases he
      exact ⟨_, _, _, rfl⟩
    obtain ⟨m, b, u, rfl⟩ : ∃ m b u, f = index m b u := by
      cases f <;> cases hf
      exact ⟨_, _, _, rfl⟩
    simp only [backward_index, List.cons_append, List.cons.injEq, true_and,
      List.append_assoc] at heq
    have hbracket (t : Selection) : '[' ∉ t.inside.reverse :=
      mt List.mem_reverse.1 t.bracket_notMem_inside
    obtain ⟨htu, heq⟩ := eq_and_eq_of_append_cons (hbracket t) (hbracket u) heq
    have hab : Comparable a b := h.of_mem (by simp [children]) (by simp [children])
    obtain ⟨harg, hrs⟩ := hchild a (by simp [children]) b hab r s hr hs heq
    exact ⟨.index l m harg (Selection.samePositions_of_inside (List.reverse_inj.1 htu)), hrs⟩
  case enclosed =>
    have hcompound {e : Expr} (he : e.form = .enclosed) : e.isCompound = true := by
      cases e <;> first | rfl | cases he
    rw [backward_of_isCompound (hcompound he), backward_of_isCompound (hcompound hf)] at heq
    simp only [List.cons_append, List.cons.injEq, true_and, List.append_assoc,
      List.nil_append] at heq
    obtain ⟨hef, hrs⟩ := hsum (hcompound he) ('(' :: r) ('(' :: s) rfl rfl heq
    exact ⟨hef, (List.cons.inj hrs).2⟩

theorem TermsAlike.of_lastOperand {e f : Expr} (h : Comparable e f) (he : e.isSum = false)
    (hf : f.isSum = false) (hlast : OperandsAlike e.lastOperand f.lastOperand)
    (hchild : ∀ a ∈ e.children, ∀ b, Comparable a b → OperandsAlike a b) : TermsAlike e f := by
  intro r s hr hs heq
  rw [backward_of_term he, backward_of_term hf, List.append_assoc, List.append_assoc] at heq
  have hmarked {r : List Char} (hr : markOf r = some .edge ∨ markOf r = some .plus) (e : Expr) :
      (markOf (e.beforeOperand ++ r)).isSome = true := by
    rw [markOf_beforeOperand]
    rcases hr with hr | hr <;> rw [hr] <;> cases e <;> rfl
  obtain ⟨hop, hrest⟩ := hlast _ _ (hmarked hr e) (hmarked hs f) heq
  have hmark := congrArg markOf hrest
  rw [markOf_beforeOperand, markOf_beforeOperand] at hmark
  -- the first operand of two
  have hfirst {k k' : Expr} (hk : k ∈ e.children) (hk' : k' ∈ f.children)
      (hrest : k.backward true ++ r = k'.backward true ++ s) : k.Regrouped k' ∧ r = s := by
    have hcomp : Comparable k k' :=
      h.of_mem (List.mem_cons_of_mem e hk) (List.mem_cons_of_mem f hk')
    refine hchild k hk k' hcomp r s ?_ ?_ hrest
    · rcases hr with hr | hr <;> rw [hr] <;> rfl
    · rcases hs with hs | hs <;> rw [hs] <;> rfl
  cases e with
  | add l a b => cases he
  | neg l a =>
    obtain ⟨m, b, rfl⟩ : ∃ m b, f = neg m b := by
      rcases hs with hs | hs <;> rw [hs] at hmark <;> cases f <;>
        first | exact ⟨_, _, rfl⟩ | cases hmark
    exact ⟨.neg l m hop, (List.cons.inj hrest).2⟩
  | mul l k a =>
    obtain ⟨m, k', b, rfl⟩ : ∃ m k' b, f = mul m k' b := by
      rcases hs with hs | hs <;> rw [hs] at hmark <;> cases f <;>
        first | exact ⟨_, _, _, rfl⟩ | cases hmark
    simp only [beforeOperand, List.cons_append, List.cons.injEq, true_and] at hrest
    obtain ⟨hk, hrs⟩ := hfirst (by simp [children]) (by simp [children]) hrest
    exact ⟨.mul l m hk hop, hrs⟩
  | div l a k =>
    obtain ⟨m, b, k', rfl⟩ : ∃ m b k', f = div m b k' := by
      rcases hs with hs | hs <;> rw [hs] at hmark <;> cases f <;>
        first | exact ⟨_, _, _, rfl⟩ | cases hmark
    simp only [beforeOperand, List.cons_append, List.cons.injEq, true_and] at hrest
    obtain ⟨ha, hrs⟩ := hfirst (by simp [children]) (by simp [children]) hrest
    exact ⟨.div l m ha hop, hrs⟩
  | _ =>
    have hsame : f.lastOperand = f ∧ f.beforeOperand = [] := by
      rcases hr with hr | hr <;> rcases hs with hs | hs <;> rw [hr, hs] at hmark <;> cases f <;>
        first | exact ⟨rfl, rfl⟩ | cases hmark
    rw [hsame.1] at hop
    rw [hsame.2] at hrest
    exact ⟨hop, hrest⟩

theorem SumsAlike.of_lastTerm {e f : Expr} (h : Comparable e f)
    (hlast : TermsAlike e.lastTerm f.lastTerm)
    (hchild : ∀ a ∈ e.children, ∀ b, Comparable a b → SumsAlike a b) : SumsAlike e f := by
  intro r s hr hs heq
  rw [backward_lastTerm e, backward_lastTerm f, List.append_assoc, List.append_assoc] at heq
  have hmarked {r : List Char} (hr : markOf r = some .edge) (e : Expr) :
      markOf (e.beforeTerm ++ r) = some .edge ∨ markOf (e.beforeTerm ++ r) = some .plus := by
    rw [markOf_beforeTerm, hr]
    cases e.isSum
    · exact .inl rfl
    · exact .inr rfl
  obtain ⟨hterm, hrest⟩ := hlast _ _ (hmarked hr e) (hmarked hs f) heq
  have hmark := congrArg markOf hrest
  rw [markOf_beforeTerm, markOf_beforeTerm, hr, hs] at hmark
  cases e with
  | add l a b =>
    obtain ⟨m, a', b', rfl⟩ : ∃ m a' b', f = add m a' b' := by
      cases f <;> first | exact ⟨_, _, _, rfl⟩ | cases hmark
    simp only [beforeTerm, List.cons_append, List.cons.injEq, true_and] at hrest
    have haa : Comparable a a' := h.of_mem (by simp [children]) (by simp [children])
    obtain ⟨hfirst, hrs⟩ := hchild a (by simp [children]) a' haa r s hr hs hrest
    exact ⟨.add l m hfirst hterm, hrs⟩
  | _ =>
    have hsame : f.lastTerm = f ∧ f.beforeTerm = [] := by
      cases f <;> first | exact ⟨rfl, rfl⟩ | cases hmark
    rw [hsame.1] at hterm
    rw [hsame.2] at hrest
    exact ⟨hterm, hrest⟩

/-- The expression is told from any other, wherever it stands. -/
structure Readable (e : Expr) : Prop where
  operand : ∀ f, Comparable e f → OperandsAlike e f
  term : e.isSum = false → ∀ f, f.isSum = false → Comparable e f → TermsAlike e f
  sum : ∀ f, Comparable e f → SumsAlike e f

theorem readable (e : Expr) : e.Readable := by
  induction e using induction_on_children with
  | h e ih =>
    have hoperands (a : Expr) (ha : a ∈ e.children) (b : Expr) (hab : Comparable a b) :
        OperandsAlike a b := (ih a ha).operand b hab
    have hsums (a : Expr) (ha : a ∈ e.children) (b : Expr) (hab : Comparable a b) :
        SumsAlike a b := (ih a ha).sum b hab
    have hterm (he : e.isSum = false)
        (hlast : ∀ g, Comparable e.lastOperand g → OperandsAlike e.lastOperand g) (f : Expr)
        (hf : f.isSum = false) (h : Comparable e f) : TermsAlike e f :=
      .of_lastOperand h he hf (hlast _ (h.of_mem e.lastOperand_mem f.lastOperand_mem)) hoperands
    have hsum (hlast : e.lastTerm.isSum = false →
          ∀ g, g.isSum = false → Comparable e.lastTerm g → TermsAlike e.lastTerm g) (f : Expr)
        (h : Comparable e f) : SumsAlike e f :=
      .of_lastTerm h (hlast h.left.isSum_lastTerm _ h.right.isSum_lastTerm
        (h.of_mem e.lastTerm_mem f.lastTerm_mem)) hsums
    have hoperand (hsum : e.isCompound = true → ∀ f, Comparable e f → SumsAlike e f) (f : Expr)
        (h : Comparable e f) : OperandsAlike e f :=
      .of_children h (fun hc => hsum hc f h) hoperands
    cases e with
    | add l a b =>
      have hsum := hsum (ih b (by simp [children])).term
      exact ⟨hoperand fun _ => hsum, fun h => (by cases h), hsum⟩
    | neg l a =>
      have hterm := hterm rfl (ih a (by simp [children])).operand
      have hsum := hsum fun _ => hterm
      exact ⟨hoperand fun _ => hsum, fun _ => hterm, hsum⟩
    | mul l k a =>
      have hterm := hterm rfl (ih a (by simp [children])).operand
      have hsum := hsum fun _ => hterm
      exact ⟨hoperand fun _ => hsum, fun _ => hterm, hsum⟩
    | div l a k =>
      have hterm := hterm rfl (ih k (by simp [children])).operand
      have hsum := hsum fun _ => hterm
      exact ⟨hoperand fun _ => hsum, fun _ => hterm, hsum⟩
    | _ =>
      -- an operand without parentheses is read before the term that it makes
      have hoperand := hoperand fun h => by cases h
      have hterm := hterm rfl hoperand
      exact ⟨hoperand, fun _ => hterm, hsum fun _ => hterm⟩

/-- Two legible expressions with one text are regrouped. -/
theorem Comparable.regrouped {e f : Expr} (h : Comparable e f)
    (htext : e.backward false = f.backward false) : e.Regrouped f :=
  ((readable e).sum f h [] [] rfl rfl (congrArg (· ++ []) htext)).1

/-- Expressions with the same text are regrouped, if their leaves are words that are told apart. -/
theorem regrouped_of_text {e f : Expr}
    (hwords : ∀ n ∈ e.leaves ++ f.leaves, ∀ w, n.leafText? = some w → IsWord w)
    (hleaves : AgreeOnLeaves e f) (h : e.text = f.text) : e.Regrouped f := by
  have hcomp : Comparable e.leftward f.leftward := by
    refine ⟨legible_leftward fun n hn => hwords n (List.mem_append_left _ hn),
      legible_leftward fun n hn => hwords n (List.mem_append_right _ hn), ?_⟩
    rw [AgreeOnLeaves, leaves_leftward, leaves_leftward]
    exact hleaves
  have htext : e.leftward.backward false = f.leftward.backward false := by
    rw [backward_leftward, backward_leftward, backward, backward, ← text_eq_rendered, h,
      text_eq_rendered]
  exact .trans (regrouped_leftward e)
    (.trans (hcomp.regrouped htext) (.symm (regrouped_leftward f)))

/-- What a session builds has an unambiguous text: expressions of one text differ only in the
brackets of sums and in selections of the same positions, provided that leaves are words and that
equal words are equal leaves.  So they have one shape and one value at every assignment. -/
theorem Buildable.text_unambiguous {e f : Expr} (he : e.Buildable) (hf : f.Buildable)
    (hwords : ∀ n ∈ e.leaves ++ f.leaves, ∀ w, n.leafText? = some w → IsWord w)
    (hleaves : AgreeOnLeaves e f) (h : e.text = f.text) :
    e.Regrouped f ∧ e.shape = f.shape ∧
      ∀ (K : Type) [OrderedField K] (x : Assignment K), e.eval x = f.eval x := by
  have hef : e.Regrouped f := regrouped_of_text hwords hleaves h
  refine ⟨hef, hef.shape_eq he.wellFormed hf.wellFormed, ?_⟩
  intro K _ x
  exact hef.eval_eq he.wellFormed hf.wellFormed x

/-- Two sums of three columns, bracketed either way, and of each the second entry: asked for by its
position, and by a slice that goes no further. -/
theorem text_unambiguous_entry : ∃ e f : Expr, e.Buildable ∧ f.Buildable ∧ e.id ≠ f.id ∧
    e.text = "(x + y + z)[1, 0]" ∧ f.text = "(x + y + z)[1, 0]" ∧
    e.Regrouped f ∧ e.shape = f.shape ∧ ∀ x : Assignment ℚ, e.eval x = f.eval x := by
  let steps : List Step := [
    .declare 3 1 (some "x") [],
    .declare 3 1 (some "y") [],
    .declare 3 1 (some "z") [],
    .operate .sum (.register 0) (.register 1) true,
    .operate .sum (.register 3) (.register 2) true,
    .operate .sum (.register 1) (.register 2) true,
    .operate .sum (.register 0) (.register 5) true,
    .index 4 (.single (.range 1 9 5)),
    .index 6 (.single (.index 1))]
  obtain ⟨x, y, z, e, f, hx, hy, hz, he, hf, hids, hle, hlf, hte, htf⟩ : ∃ x y z e f,
      x.leafText? = some "x" ∧ y.leafText? = some "y" ∧ z.leafText? = some "z" ∧
      ((Session.startingAt 0).run steps).1[7]? = some (.ok (.expr e)) ∧
      ((Session.startingAt 0).run steps).1[8]? = some (.ok (.expr f)) ∧
      (e.id = 7 ∧ f.id = 8) ∧ e.leaves = [x, y, z] ∧ f.leaves = [x, y, z] ∧
      e.rendered false = "(x + y + z)[1, 0]" ∧ f.rendered false = "(x + y + z)[1, 0]" :=
    ⟨_, _, _, _, _, rfl, rfl, rfl, rfl, rfl, ⟨rfl, rfl⟩, rfl, rfl, by decide +kernel,
      by decide +kernel⟩
  have hwords : ∀ n ∈ [x, y, z], ∀ w, n.leafText? = some w → IsWord w := by
    have hword {c : Char} (hc : c.isAlphanum = true) : IsWord (String.ofList [c]) :=
      isWord_of_alphanumeric (by simp) fun d hd => .inl (by simp_all)
    intro n hn w hw
    simp only [List.mem_cons, List.not_mem_nil, or_false] at hn
    rcases hn with rfl | rfl | rfl
    · exact Option.some.inj (hx.symm.trans hw) ▸ hword (c := 'x') rfl
    · exact Option.some.inj (hy.symm.trans hw) ▸ hword (c := 'y') rfl
    · exact Option.some.inj (hz.symm.trans hw) ▸ hword (c := 'z') rfl
  -- no two of the three have the same text
  have hleaves : ∀ m ∈ [x, y, z], ∀ n ∈ [x, y, z], m.leafText? = n.leafText? → m.SameLeaf n := by
    have hself {n : Expr} {w : String} (hn : n.leafText? = some w) : n.SameLeaf n := by
      cases n <;> first | exact .var rfl rfl | exact .const rfl rfl fun _ _ => rfl | cases hn
    intro m hm n hn hmn
    simp only [List.mem_cons, List.not_mem_nil, or_false] at hm hn
    rcases hm with rfl | rfl | rfl <;> rcases hn with rfl | rfl | rfl <;>
      first | exact hself ‹_› | simp_all
  have htext : e.text = f.text := by rw [text_eq_rendered, text_eq_rendered, hte, htf]
  obtain ⟨hef, hshape, heval⟩ := Buildable.text_unambiguous (.of_answer 0 steps 7 he)
    (.of_answer 0 steps 8 hf)
    (fun n hn => hwords n ((List.mem_append.1 hn).elim (hle ▸ ·) (hlf ▸ ·)))
    (fun m hm n hn => hleaves m (hle ▸ hm) n (hlf ▸ hn)) htext
  exact ⟨e, f, .of_answer 0 steps 7 he, .of_answer 0 steps 8 hf, by rw [hids.1, hids.2]; decide,
    (text_eq_rendered e).trans hte, (text_eq_rendered f).trans htf, hef, hshape, heval ℚ⟩

end Expr

end DisciplinedConvex
