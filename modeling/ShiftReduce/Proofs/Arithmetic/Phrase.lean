import ShiftReduce.Arithmetic.Symbol

/-!
# Phrases — derivations of the stratified grammar

The table of this library serves an ambiguous grammar and settles precedence in its cells.  What it
is meant to recognize is said here by a grammar that needs no such help:

```
expression -> term   | expression (+|-) term
term       -> factor | term (*|/) factor
factor     -> number | variable | ( expression )
```

* `Phrase`: the derivations of that grammar, with their terminals and their trees.
* `Expr.Fits`: the trees in which every operator stands where its precedence allows it.
* `Phrase.tree_injective`, `Expr.exists_phrase`: such a tree is a derivation, and only one.
-/

namespace ShiftReduce
namespace Arithmetic

/-! ## Derivations -/

/-- The nonterminals of the stratified grammar, from loose to tight. -/
inductive Stratum
  | expression
  | term
  | factor
  deriving DecidableEq, Repr

/-- A derivation of the stratified grammar that starts from a given nonterminal. -/
inductive Phrase : Stratum → Type
  | number (value : Float) : Phrase .factor
  | var (name : String) : Phrase .factor
  | bracketed (inner : Phrase .expression) : Phrase .factor
  | ofFactor (factor : Phrase .factor) : Phrase .term
  | multiplied (left : Phrase .term) (op : Operator) (right : Phrase .factor)
      (h : op = .mul ∨ op = .div) : Phrase .term
  | ofTerm (term : Phrase .term) : Phrase .expression
  | added (left : Phrase .expression) (op : Operator) (right : Phrase .term)
      (h : op = .add ∨ op = .sub) : Phrase .expression

namespace Phrase

def symbols : {σ : Stratum} → Phrase σ → List Symbol
  | _, .number value => [.number value]
  | _, .var name => [.var name]
  | _, .bracketed inner => .bracket .opening :: (inner.symbols ++ [.bracket .closing])
  | _, .ofFactor factor => factor.symbols
  | _, .multiplied left op right _ => left.symbols ++ .operator op :: right.symbols
  | _, .ofTerm term => term.symbols
  | _, .added left op right _ => left.symbols ++ .operator op :: right.symbols

/-- The tree of a derivation; steps from one nonterminal to the next leave no node. -/
def tree : {σ : Stratum} → Phrase σ → Expr
  | _, .number value => .atomic (.number value)
  | _, .var name => .atomic (.var name)
  | _, .bracketed inner => .bracketed inner.tree
  | _, .ofFactor factor => factor.tree
  | _, .multiplied left op right _ => .binary left.tree op right.tree
  | _, .ofTerm term => term.tree
  | _, .added left op right _ => .binary left.tree op right.tree

end Phrase

/-- The texts of the language: the terminals of a derivation of an expression. -/
def Sentence (symbols : List Symbol) : Prop :=
  ∃ d : Phrase .expression, d.symbols = symbols

/-- The beginnings of the texts of the language. -/
def Viable (symbols : List Symbol) : Prop :=
  ∃ rest, Sentence (symbols ++ rest)

/-! ## Trees that respect precedence -/

namespace Expr

def symbols : Expr → List Symbol
  | .atomic a => [.atom a]
  | .binary left op right => left.symbols ++ .operator op :: right.symbols
  | .bracketed inner => .bracket .opening :: (inner.symbols ++ [.bracket .closing])

/-- The text of a tree is that of its terminals, side by side. -/
theorem text_eq_join (e : Expr) : e.text = String.join (e.symbols.map Symbol.text) := by
  induction e with
  | atomic a => simp [text_atomic, symbols, Symbol.text]
  | binary left op right ihl ihr =>
      simp [text_binary, symbols, Symbol.text, ihl, ihr, String.append_assoc]
  | bracketed inner ih => simp [text_bracketed, symbols, Symbol.text, ih, String.append_assoc]

/-- Every operator outside brackets binds at least as tightly as `n`; its left operand binds no
looser than it and its right operand tighter, and so on downward. -/
def Fits : Nat → Expr → Prop
  | _, .atomic _ => True
  | n, .binary left op right =>
      n ≤ op.precedence ∧ left.Fits op.precedence ∧ right.Fits (op.precedence + 1)
  | _, .bracketed inner => inner.Fits 1

theorem Fits.mono {m n : Nat} {e : Expr} (hle : m ≤ n) : e.Fits n → e.Fits m := by
  intro h
  cases e with
  | atomic a => trivial
  | binary left op right => exact ⟨Nat.le_trans hle h.1, h.2⟩
  | bracketed inner => exact h

end Expr

theorem Operator.precedence_eq_one {op : Operator} (h : op = .add ∨ op = .sub) :
    op.precedence = 1 := by
  rcases h with rfl | rfl <;> rfl

theorem Operator.precedence_eq_two {op : Operator} (h : op = .mul ∨ op = .div) :
    op.precedence = 2 := by
  rcases h with rfl | rfl <;> rfl

theorem Operator.one_le_precedence (op : Operator) : 1 ≤ op.precedence := by
  cases op <;> decide

theorem Operator.precedence_lt_three (op : Operator) : op.precedence < 3 := by
  cases op <;> decide

theorem Operator.precedence_cases (op : Operator) :
    (op = .add ∨ op = .sub) ∨ (op = .mul ∨ op = .div) := by
  cases op <;> decide

namespace Stratum

/-- The least precedence of an operator outside brackets. -/
def level : Stratum → Nat
  | .expression => 1
  | .term => 2
  | .factor => 3

end Stratum

namespace Phrase

theorem symbols_tree {σ : Stratum} (d : Phrase σ) : d.tree.symbols = d.symbols := by
  induction d with
  | number value => rfl
  | var name => rfl
  | bracketed inner ih => simp only [tree, Expr.symbols, symbols, ih]
  | ofFactor factor ih => exact ih
  | multiplied left op right h ihl ihr => simp only [tree, Expr.symbols, symbols, ihl, ihr]
  | ofTerm term ih => exact ih
  | added left op right h ihl ihr => simp only [tree, Expr.symbols, symbols, ihl, ihr]

theorem fits_tree {σ : Stratum} (d : Phrase σ) : d.tree.Fits σ.level := by
  induction d with
  | number value => trivial
  | var name => trivial
  | bracketed inner ih => exact ih
  | ofFactor factor ih => exact ih.mono (by decide)
  | multiplied left op right h ihl ihr =>
      have hop := Operator.precedence_eq_two h
      simp only [tree, Expr.Fits, hop]
      exact ⟨Nat.le_refl _, ihl, ihr⟩
  | ofTerm term ih => exact ih.mono (by decide)
  | added left op right h ihl ihr =>
      have hop := Operator.precedence_eq_one h
      simp only [tree, Expr.Fits, hop]
      exact ⟨Nat.le_refl _, ihl, ihr⟩

theorem tree_factor_ne_binary (d : Phrase .factor) (left : Expr) (op : Operator) (right : Expr) :
    d.tree ≠ .binary left op right := by
  intro h
  cases d <;> cases h

theorem tree_term_ne_binary (d : Phrase .term) {op : Operator} (hop : op = .add ∨ op = .sub)
    (left right : Expr) : d.tree ≠ .binary left op right := by
  intro h
  have hfits := d.fits_tree
  rw [h] at hfits
  have hle : 2 ≤ op.precedence := hfits.1
  rw [Operator.precedence_eq_one hop] at hle
  omega

theorem tree_injective {σ : Stratum} {d d' : Phrase σ} (h : d.tree = d'.tree) : d = d' := by
  -- The step to the next nonterminal leaves no node: the precedence of the root tells it apart from
  -- an operation.
  induction d with
  | number value => cases d' <;> cases h; rfl
  | var name => cases d' <;> cases h; rfl
  | bracketed inner ih =>
      cases d' with
      | bracketed inner' => rw [ih (Expr.bracketed.inj h)]
      | _ => cases h
  | ofFactor factor ih =>
      cases d' with
      | ofFactor factor' => rw [ih h]
      | multiplied left op right hop => exact absurd h (factor.tree_factor_ne_binary _ _ _)
  | multiplied left op right hop ihl ihr =>
      cases d' with
      | ofFactor factor' => exact absurd h.symm (factor'.tree_factor_ne_binary _ _ _)
      | multiplied left' op' right' hop' =>
          obtain ⟨hl, rfl, hr⟩ := Expr.binary.inj h
          rw [ihl hl, ihr hr]
  | ofTerm term ih =>
      cases d' with
      | ofTerm term' => rw [ih h]
      | added left op right hop => exact absurd h (term.tree_term_ne_binary hop _ _)
  | added left op right hop ihl ihr =>
      cases d' with
      | ofTerm term' => exact absurd h.symm (term'.tree_term_ne_binary hop _ _)
      | added left' op' right' hop' =>
          obtain ⟨hl, rfl, hr⟩ := Expr.binary.inj h
          rw [ihl hl, ihr hr]

end Phrase

namespace Expr

theorem exists_phrase {e : Expr} {σ : Stratum} (h : e.Fits σ.level) :
    ∃ d : Phrase σ, d.tree = e := by
  induction e generalizing σ with
  | atomic a =>
      have hfactor : ∃ d : Phrase .factor, d.tree = .atomic a := by
        cases a with
        | number value => exact ⟨.number value, rfl⟩
        | var name => exact ⟨.var name, rfl⟩
      obtain ⟨d, hd⟩ := hfactor
      cases σ with
      | expression => exact ⟨.ofTerm (.ofFactor d), hd⟩
      | term => exact ⟨.ofFactor d, hd⟩
      | factor => exact ⟨d, hd⟩
  | binary left op right ihl ihr =>
      obtain ⟨hle, hl, hr⟩ := h
      rcases op.precedence_cases with hop | hop
      · -- A sum can only be a whole expression.
        rw [Operator.precedence_eq_one hop] at hle hl hr
        obtain ⟨l, rfl⟩ := ihl (σ := .expression) hl
        obtain ⟨r, rfl⟩ := ihr (σ := .term) hr
        cases σ with
        | expression => exact ⟨.added l op r hop, rfl⟩
        | term => exact absurd hle (by decide)
        | factor => exact absurd hle (by decide)
      · -- A product can be an expression or a term.
        rw [Operator.precedence_eq_two hop] at hle hl hr
        obtain ⟨l, rfl⟩ := ihl (σ := .term) hl
        obtain ⟨r, rfl⟩ := ihr (σ := .factor) hr
        cases σ with
        | expression => exact ⟨.ofTerm (.multiplied l op r hop), rfl⟩
        | term => exact ⟨.multiplied l op r hop, rfl⟩
        | factor => exact absurd hle (by decide)
  | bracketed inner ih =>
      obtain ⟨i, rfl⟩ := ih (σ := .expression) h
      cases σ with
      | expression => exact ⟨.ofTerm (.ofFactor (.bracketed i)), rfl⟩
      | term => exact ⟨.ofFactor (.bracketed i), rfl⟩
      | factor => exact ⟨.bracketed i, rfl⟩

end Expr

end Arithmetic
end ShiftReduce
