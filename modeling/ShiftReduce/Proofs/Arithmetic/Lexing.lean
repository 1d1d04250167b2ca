import Mathlib
import ShiftReduce.Proofs.Arithmetic.Reading
import ShiftReduce.Proofs.Decimal.Legible

/-!
# Lexing — the symbols of a text

A text falls into lexemes, or has one that cannot be classified.  A scanner hands out the symbols of
the lexemes and then the end marker, or the diagnostic on the lexeme that it stumbles over.

* `Lexes`: the symbols of a text all of whose lexemes are classified.
* `Lexeme.Classified`, `Lexeme.classified_of_classify`: what such a lexeme looks like.
* `Scanner.exists_delivers`, `Scanner.lexes_or_fails`: what a scanner hands out.
* `parse_eq_some_iff`: a text has a tree if its symbols do.
* `lexes_run`, `lexes_mark`: putting a text together of lexemes.
-/

namespace ShiftReduce
namespace Arithmetic

open TokenSource

/-! ## Texts and their symbols -/

/-- All lexemes of a text are classified, with the given symbols. -/
inductive Lexes : List Char → List Symbol → Prop
  | done {cs : List Char} (hskip : cs.dropWhile isBlank = []) : Lexes cs []
  | lexeme {cs : List Char} {c : Char} {rest : List Char} {s : Symbol} {ss : List Symbol}
      (hskip : cs.dropWhile isBlank = c :: rest)
      (hclassify : Lexeme.classify (Lexeme.split c rest).1 = some s)
      (htail : Lexes (Lexeme.split c rest).2 ss) : Lexes cs (s :: ss)

/-- An operand that a text can contain: a double that a numeral was read as, or a name that is a run
led by a letter. -/
def Atom.Readable : Atom → Prop
  | .number value => ∃ b, value = (Binary64.ofMagnitudeBits false b).toFloat
  | .var name => ∃ c rest, name.toList = c :: rest ∧ c.isAlpha = true ∧
      ∀ x ∈ rest, isRunChar x = true

namespace Lexeme

/-- A lexeme that is cut off a text and has a symbol is a name or a numeral, which are runs led by a
letter or a digit, or a mark. -/
inductive Classified : List Char → Symbol → Prop
  | name {c : Char} {run : List Char} (hc : c.isAlpha = true)
      (hrun : ∀ x ∈ run, isRunChar x = true) : Classified (c :: run) (.var (.ofList (c :: run)))
  | numeral {c : Char} {run : List Char} {value : Float} (hc : c.isDigit = true)
      (hrun : ∀ x ∈ run, isRunChar x = true) (hread : Numeral.read (c :: run) = .ok value) :
      Classified (c :: run) (.number value)
  | bracket (b : Bracket) : Classified [b.toChar] (.bracket b)
  | operator (op : Operator) : Classified [op.toChar] (.operator op)

theorem isBlank_of_skip {cs rest : List Char} {c : Char}
    (h : cs.dropWhile isBlank = c :: rest) : isBlank c = false := by
  have hhead := List.head?_dropWhile_not isBlank cs
  rw [h] at hhead
  exact hhead

/-- A lexeme is its first character and, if that is a letter or a digit, a run of characters. -/
theorem exists_split_eq (c : Char) (rest : List Char) :
    ∃ run, (split c rest).1 = c :: run ∧ (∀ x ∈ run, isRunChar x = true) ∧
      (c.isAlphanum = false → run = []) := by
  unfold split
  cases hc : c.isAlphanum with
  | true => exact ⟨_, rfl, fun x hx => List.all_eq_true.1 List.all_takeWhile x hx, nofun⟩
  | false => exact ⟨[], rfl, fun x hx => absurd hx List.not_mem_nil, fun _ => rfl⟩

theorem classified_of_classify {c : Char} {rest : List Char} {s : Symbol}
    (h : classify (split c rest).1 = some s) : Classified (split c rest).1 s := by
  obtain ⟨run, hsplit, hrun, hmark⟩ := exists_split_eq c rest
  rw [hsplit] at h ⊢
  rw [classify] at h
  split at h
  · rename_i hc
    cases h
    exact .name hc hrun
  · rename_i halpha
    split at h
    · rename_i hc
      obtain ⟨value, hread, rfl⟩ := Option.map_eq_some_iff.1 h
      refine .numeral hc hrun ?_
      cases hnumeral : Numeral.read (c :: run) with
      | error e =>
          rw [hnumeral] at hread
          cases hread
      | ok x =>
          rw [hnumeral] at hread
          cases hread
          rfl
    · rename_i hdigit
      -- What is led by neither a letter nor a digit has no run.
      obtain rfl : run = [] := hmark (by simp [Char.isAlphanum, halpha, hdigit])
      split at h
      · cases h
        subst c
        exact .bracket .opening
      · split at h
        · cases h
          subst c
          exact .bracket .closing
        · obtain ⟨op, hop, rfl⟩ := Option.map_eq_some_iff.1 h
          obtain rfl := Operator.ofChar?_eq_some_iff.1 hop
          exact .operator op

/-- A lexeme takes at least one character. -/
theorem length_split_lt {cs : List Char} {c : Char} {rest : List Char}
    (h : cs.dropWhile isBlank = c :: rest) : (split c rest).2.length < cs.length := by
  have hsplit := length_split_le c rest
  have hdrop := (List.dropWhile_sublist isBlank (l := cs)).length_le
  rw [h, List.length_cons] at hdrop
  omega

namespace Classified

variable {cs : List Char} {s : Symbol}

theorem isInput (h : Classified cs s) : s.isTerminal = true ∧ s.isEnd = false := by
  cases h with
  | _ => exact ⟨rfl, rfl⟩

theorem readable {a : Atom} (h : Classified cs s) (hs : s = .atom a) : a.Readable := by
  cases h with
  | name hc hrun =>
      cases hs
      exact ⟨_, _, String.toList_ofList, hc, hrun⟩
  | numeral hc hrun hread =>
      cases hs
      exact Numeral.exists_bits_of_read hc hread
  | bracket | operator => cases hs

end Classified

end Lexeme

theorem Lexes.readable {cs : List Char} {ss : List Symbol} (h : Lexes cs ss) :
    ∀ a, Symbol.atom a ∈ ss → a.Readable := by
  induction h with
  | done => exact fun a ha => absurd ha List.not_mem_nil
  | lexeme _ hclassify _ ih =>
      intro a ha
      rcases List.mem_cons.1 ha with rfl | ha
      · exact (Lexeme.classified_of_classify hclassify).readable rfl
      · exact ih a ha

/-! ## Lexemes side by side -/

theorem isAlpha_iff_toNat {c : Char} : c.isAlpha = true ↔
    ('A'.toNat ≤ c.toNat ∧ c.toNat ≤ 'Z'.toNat) ∨ ('a'.toNat ≤ c.toNat ∧ c.toNat ≤ 'z'.toNat) := by
  simp [Char.isAlpha, Char.isUpper, Char.isLower, UInt32.le_iff_toNat_le]

theorem toNat_of_isAlphanum {c : Char} (h : c.isAlphanum = true) :
    48 ≤ c.toNat ∧ c.toNat ≤ 122 := by
  rw [Char.isAlphanum, Bool.or_eq_true, isAlpha_iff_toNat, Char.isDigit_iff_toNat] at h
  simp only [Char.reduceToNat] at h
  omega

theorem isBlank_of_isAlphanum {c : Char} (h : c.isAlphanum = true) : isBlank c = false := by
  rcases toNat_of_isAlphanum h with ⟨hlow, hhigh⟩
  -- Every range of blank characters lies below the digits or above the letters.
  unfold isBlank
  rw [List.any_eq_false]
  intro r hr
  have hfar : r.2 < 48 ∨ 122 < r.1 := by
    revert r
    decide
  simp only [Bool.and_eq_true, decide_eq_true_eq]
  omega

theorem isBlank_of_isRunChar {c : Char} (h : isRunChar c = true) : isBlank c = false := by
  rw [isRunChar, Bool.or_eq_true, beq_iff_eq] at h
  rcases h with hc | rfl
  · exact isBlank_of_isAlphanum hc
  · decide

/-- A run with a text behind it that does not go on with the run. -/
theorem lexes_run {c : Char} {run tail : List Char} {s : Symbol} {ss : List Symbol}
    (hc : c.isAlphanum = true) (hrun : ∀ x ∈ run, isRunChar x = true)
    (hclassify : Lexeme.classify (c :: run) = some s) (hstop : Stops isRunChar tail)
    (htail : Lexes tail ss) : Lexes (c :: run ++ tail) (s :: ss) := by
  have hsplit : Lexeme.split c (run ++ tail) = (c :: run, tail) := by
    rw [Lexeme.split, if_pos hc, takeWhile_append_of_stop hrun hstop,
      dropWhile_append_of_stop hrun hstop]
  have hskip : (c :: (run ++ tail)).dropWhile isBlank = c :: (run ++ tail) := by
    rw [List.dropWhile_cons_of_neg (by simp [isBlank_of_isAlphanum hc])]
  refine .lexeme hskip ?_ ?_
  · rw [hsplit]
    exact hclassify
  · rw [hsplit]
    exact htail

/-- A mark with a text behind it. -/
theorem lexes_mark {c : Char} {tail : List Char} {s : Symbol} {ss : List Symbol}
    (hblank : isBlank c = false) (hc : c.isAlphanum = false)
    (hclassify : Lexeme.classify [c] = some s) (htail : Lexes tail ss) :
    Lexes (c :: tail) (s :: ss) := by
  have hsplit : Lexeme.split c tail = ([c], tail) := by
    rw [Lexeme.split, if_neg (by simp [hc])]
  have hskip : (c :: tail).dropWhile isBlank = c :: tail := by
    rw [List.dropWhile_cons_of_neg (by simp [hblank])]
  refine .lexeme hskip ?_ ?_
  · rw [hsplit]
    exact hclassify
  · rw [hsplit]
    exact htail

/-! ## Scanners -/

namespace Scanner

instance : LawfulSource Scanner where
  answer_peek_peek s := by
    cases h : s.pending with
    | none => simp [TokenSource.peek, peek, h]
    | some answer => simp [TokenSource.peek, peek, h]
  source_peek_peek s := by
    cases h : s.pending with
    | none => simp [TokenSource.peek, peek, h]
    | some answer => simp [TokenSource.peek, peek, h]
  answer_consume_peek s := by
    cases h : s.pending with
    | none => simp [TokenSource.peek, TokenSource.consume, peek, consume, h]
    | some answer => simp [TokenSource.peek, TokenSource.consume, peek, consume, h]

variable {s : Scanner}

theorem head_eq (h : s.pending = none) : head s = s.scan.answer.map some := by
  simp [head, TokenSource.peek, peek, h]

theorem tail_eq (h : s.pending = none) : tail s = { s.scan.scanner with pending := none } := by
  simp [tail, TokenSource.peek, TokenSource.consume, peek, consume, h]

theorem scan_of_end (h : s.rest.dropWhile isBlank = []) :
    ∃ span, s.scan.answer = .ok ⟨.endMark, span⟩ := by
  have hrest : s.skipBlanks.rest = [] := h
  unfold scan
  simp only [hrest]
  exact ⟨_, rfl⟩

theorem scan_of_classify {c : Char} {rest : List Char} {symbol : Symbol}
    (h : s.rest.dropWhile isBlank = c :: rest)
    (hclassify : Lexeme.classify (Lexeme.split c rest).1 = some symbol) :
    ∃ span, s.scan.answer = .ok ⟨symbol, span⟩ ∧
      s.scan.scanner.rest = (Lexeme.split c rest).2 := by
  have hrest : s.skipBlanks.rest = c :: rest := h
  unfold scan
  simp only [hrest, hclassify]
  exact ⟨_, rfl, rfl⟩

theorem scan_of_unclassified {c : Char} {rest : List Char}
    (h : s.rest.dropWhile isBlank = c :: rest)
    (hclassify : Lexeme.classify (Lexeme.split c rest).1 = none) :
    ∃ d, s.scan.answer = .error d := by
  have hrest : s.skipBlanks.rest = c :: rest := h
  unfold scan
  simp only [hrest, hclassify]
  exact ⟨_, rfl⟩

/-- The scanner with nothing pending at the rest of a text. -/
def ReadsFrom (s : Scanner) (cs : List Char) : Prop :=
  s.pending = none ∧ s.rest = cs

theorem ReadsFrom.next {cs : List Char} {c : Char} {rest : List Char} {symbol : Symbol}
    (hs : s.ReadsFrom cs) (hskip : cs.dropWhile isBlank = c :: rest)
    (hclassify : Lexeme.classify (Lexeme.split c rest).1 = some symbol) :
    ∃ span, head s = .ok (some ⟨symbol, span⟩) ∧
      (tail s).ReadsFrom (Lexeme.split c rest).2 := by
  obtain ⟨hpending, rfl⟩ := hs
  obtain ⟨span, hanswer, hrest⟩ := scan_of_classify hskip hclassify
  refine ⟨span, ?_, ?_⟩
  · rw [head_eq hpending, hanswer]
    rfl
  · rw [tail_eq hpending]
    exact ⟨rfl, hrest⟩

theorem exists_delivers {cs : List Char} {ss : List Symbol} (h : Lexes cs ss)
    (hs : s.ReadsFrom cs) :
    ∃ ts span, (∀ t ∈ ts, IsInput t) ∧ Delivers s ts (.ok (some ⟨.endMark, span⟩)) ∧
      ts.map Token.symbol = ss := by
  induction h generalizing s with
  | done hskip =>
      rcases hs with ⟨hpending, rfl⟩
      rcases scan_of_end hskip with ⟨span, hanswer⟩
      refine ⟨[], span, fun t ht => absurd ht List.not_mem_nil, ?_, rfl⟩
      rw [Delivers, head_eq hpending, hanswer]
      rfl
  | lexeme hskip hclassify _ ih =>
      obtain ⟨span, hhead, htail⟩ := hs.next hskip hclassify
      obtain ⟨ts, last, hts, hdelivers, hsymbols⟩ := ih htail
      refine ⟨⟨_, span⟩ :: ts, last, ?_, ⟨hhead, hdelivers⟩, ?_⟩
      · exact List.forall_mem_cons.2 ⟨(Lexeme.classified_of_classify hclassify).isInput, hts⟩
      · rw [List.map_cons, hsymbols]

theorem lexes_or_fails (cs : List Char) (hs : s.ReadsFrom cs) :
    (∃ ss, Lexes cs ss) ∨ ∃ ts d, (∀ t ∈ ts, IsInput t) ∧ Delivers s ts (.error d) := by
  induction hlength : cs.length using Nat.strongRecOn generalizing cs s with
  | ind n ih =>
      cases hskip : cs.dropWhile isBlank with
      | nil => exact Or.inl ⟨[], .done hskip⟩
      | cons c rest =>
          cases hclassify : Lexeme.classify (Lexeme.split c rest).1 with
          | none =>
              rcases hs with ⟨hpending, rfl⟩
              rcases scan_of_unclassified hskip hclassify with ⟨d, hanswer⟩
              refine Or.inr ⟨[], d, fun t ht => absurd ht List.not_mem_nil, ?_⟩
              rw [Delivers, head_eq hpending, hanswer]
              rfl
          | some symbol =>
              obtain ⟨span, hhead, htail⟩ := hs.next hskip hclassify
              have hshorter : (Lexeme.split c rest).2.length < n :=
                hlength ▸ Lexeme.length_split_lt hskip
              rcases ih _ hshorter _ htail rfl with ⟨ss, hlexes⟩ | ⟨ts, d, hts, hdelivers⟩
              · exact Or.inl ⟨symbol :: ss, .lexeme hskip hclassify hlexes⟩
              · refine Or.inr ⟨⟨symbol, span⟩ :: ts, d, ?_, hhead, hdelivers⟩
                exact List.forall_mem_cons.2
                  ⟨(Lexeme.classified_of_classify hclassify).isInput, hts⟩

end Scanner

/-! ## Trees of texts -/

theorem parse_eq_some_iff_accepted {text : String} {e : Expr} :
    parse text = some e ↔
      (Automaton.firstReport (Scanner.ofString text) .resync).outcome = .accepted (.root e) := by
  have hresult : parse text =
      ((Automaton.firstReport (Scanner.ofString text) .resync).result?).bind Symbol.root? := rfl
  rw [hresult, Analysis.result?]
  cases (Automaton.firstReport (Scanner.ofString text) .resync).outcome with
  | accepted s => cases s <;> simp [Symbol.root?]
  | recovered s => simp
  | failed d => simp

/-- A text has a tree if and only if that is the tree of its symbols. -/
theorem parse_eq_some_iff {text : String} {e : Expr} :
    parse text = some e ↔ Lexes text.toList e.symbols ∧ e.Fits 1 := by
  have hreads : (Scanner.ofString text).ReadsFrom text.toList := ⟨rfl, rfl⟩
  -- What the scanner hands out decides the run.
  have htree : ∀ {ss : List Symbol}, Lexes text.toList ss →
      (parse text = some e ↔ e.symbols = ss ∧ e.Fits 1) := by
    intro ss hlexes
    rcases Scanner.exists_delivers hlexes hreads with ⟨ts, span, hts, hdelivers, rfl⟩
    rw [parse_eq_some_iff_accepted, accepted_iff_parse hts hdelivers]
    simp only [Symbol.root.injEq, exists_eq_right', Draft.parse_eq_some_iff]
  constructor
  · -- A text with a lexeme that cannot be classified has no tree.
    intro h
    rcases Scanner.lexes_or_fails _ hreads with ⟨ss, hlexes⟩ | ⟨ts, d, hts, hdelivers⟩
    · rcases (htree hlexes).1 h with ⟨rfl, hfits⟩
      exact ⟨hlexes, hfits⟩
    · rw [parse_eq_some_iff_accepted, (analyze_of_error hts hdelivers).1] at h
      cases h
  · rintro ⟨hlexes, hfits⟩
    exact (htree hlexes).2 ⟨rfl, hfits⟩

/-- The value of a text that has a tree is the value of the tree. -/
theorem evaluate_of_parse {text : String} {e : Expr} (h : parse text = some e) (E : Environment) :
    evaluate text E = (e.eval E).mapError .eval := by
  rw [parse_eq_some_iff_accepted] at h
  -- Evaluation reads the text as `parse` does.
  have hreport : (report text .resync).outcome =
      (Automaton.firstReport (Scanner.ofString text) .resync).outcome := rfl
  rw [evaluate]
  simp only [hreport, h]
  rfl

end Arithmetic
end ShiftReduce
