import ShiftReduce.Proofs.Arithmetic.Reading

/-!
# Acceptance — the table decides the stratified grammar

The table was written for an ambiguous grammar.  What it accepts, and with which tree, is what the
stratified grammar derives: multiplication and division bind tighter than addition and subtraction,
all four associate to the left, and a pair of brackets is a node of its own.

* `accepted_iff_derivation`: a text is accepted with exactly the tree of its one derivation.
-/

namespace ShiftReduce
namespace Arithmetic

def inputQueue (ts : List (Token Symbol)) (span : Option Span) : Queue Symbol :=
  .ofList (ts ++ [⟨.endMark, span⟩])

theorem delivers_inputQueue (ts : List (Token Symbol)) (span : Option Span) :
    TokenSource.Delivers (inputQueue ts span) ts (.ok (some ⟨.endMark, span⟩)) :=
  Queue.delivers ts ⟨.endMark, span⟩ [] 0

def spanless (symbols : List Symbol) : List (Token Symbol) :=
  symbols.map fun s => ⟨s, none⟩

def reportOn (mode : ErrorMode) (ts : List (Token Symbol)) (span : Option Span) : Report :=
  Automaton.firstReport (inputQueue ts span) mode

/-- In both modes a text is accepted if and only if the stratified grammar derives it, with the tree
of its derivation, of which there is only one. -/
theorem accepted_iff_derivation (mode : ErrorMode) (ts : List (Token Symbol)) (span : Option Span)
    (hts : ∀ t ∈ ts, t.symbol.isTerminal = true ∧ t.symbol.isEnd = false) :
    (∀ s, (reportOn mode ts span).outcome = .accepted s ↔
      ∃ d : Phrase .expression, d.symbols = ts.map Token.symbol ∧ s = .root d.tree) ∧
    ∀ d d' : Phrase .expression,
      d.symbols = ts.map Token.symbol → d'.symbols = ts.map Token.symbol → d = d' := by
  constructor
  · intro s
    rw [reportOn, accepted_iff_parse hts (delivers_inputQueue ts span)]
    constructor
    · rintro ⟨e, hparse, rfl⟩
      rcases Draft.parse_eq_some_iff_phrase.1 hparse with ⟨d, hd, rfl⟩
      exact ⟨d, hd, rfl⟩
    · rintro ⟨d, hd, rfl⟩
      exact ⟨d.tree, Draft.parse_eq_some_iff_phrase.2 ⟨d, hd, rfl⟩, rfl⟩
  · intro d d' hd hd'
    exact Phrase.symbols_injective (hd.trans hd'.symm)

/-- The witness reads `a - b * c - d`. -/
theorem accepted_difference_of_product :
    (∀ t ∈ spanless [.var "a", .operator .sub, .var "b", .operator .mul, .var "c", .operator .sub,
        .var "d"], t.symbol.isTerminal = true ∧ t.symbol.isEnd = false) ∧
      (reportOn .abort (spanless [.var "a", .operator .sub, .var "b", .operator .mul, .var "c",
        .operator .sub, .var "d"]) none).outcome =
        .accepted (.root (.binary (.binary (.atomic (.var "a")) .sub
          (.binary (.atomic (.var "b")) .mul (.atomic (.var "c")))) .sub (.atomic (.var "d")))) := by
  have hts : ∀ t ∈ spanless [.var "a", .operator .sub, .var "b", .operator .mul, .var "c",
      .operator .sub, .var "d"], t.symbol.isTerminal = true ∧ t.symbol.isEnd = false := by
    decide
  refine ⟨hts, ((accepted_iff_derivation .abort _ none hts).1 _).2 ?_⟩
  let name (x : String) : Phrase .factor := .var x
  exact ⟨.added (.added (.ofTerm (.ofFactor (name "a"))) .sub
    (.multiplied (.ofFactor (name "b")) .mul (name "c") (.inl rfl)) (.inr rfl)) .sub
    (.ofFactor (name "d")) (.inr rfl), rfl, rfl⟩

end Arithmetic
end ShiftReduce
