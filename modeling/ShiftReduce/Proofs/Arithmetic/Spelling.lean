import ShiftReduce.Proofs.Arithmetic.Lexing
import ShiftReduce.Proofs.Machine.Modes
import ShiftReduce.Proofs.Machine.Yield

/-!
# Spelling — the text of a tree and the text it was read from

Reading a text into a tree and writing the tree back changes no more than it must: blanks and what was
discarded are gone, and every numeral is written the way its value is written.

* `lexemes`, `flatten_lexemes`: the pieces of a text, which are all of it but its blanks.
* `Lexeme.rendering`: how a lexeme is written back.
* `concatenates_text`: reductions put the texts of symbols side by side.
* `yield_is_preserved`: what the symbol of a run says that succeeds, for every grammar and for texts.
-/

namespace ShiftReduce
namespace Arithmetic

open TokenSource

/-! ## The lexemes of a text -/

def lexemes (cs : List Char) : List (List Char) :=
  match _hskip : cs.dropWhile isBlank with
  | [] => []
  | c :: rest => (Lexeme.split c rest).1 :: lexemes (Lexeme.split c rest).2
termination_by cs.length
decreasing_by exact Lexeme.length_split_lt _hskip

theorem lexemes_nil {cs : List Char} (h : cs.dropWhile isBlank = []) : lexemes cs = [] := by
  rw [lexemes]
  split
  · rfl
  · rename_i hskip
    cases h.symm.trans hskip

theorem lexemes_cons {cs : List Char} {c : Char} {rest : List Char}
    (h : cs.dropWhile isBlank = c :: rest) :
    lexemes cs = (Lexeme.split c rest).1 :: lexemes (Lexeme.split c rest).2 := by
  rw [lexemes]
  split
  · rename_i hskip
    cases h.symm.trans hskip
  · rename_i hskip
    cases h.symm.trans hskip
    rfl

def withoutBlanks (cs : List Char) : List Char :=
  cs.filter fun c => !isBlank c

theorem withoutBlanks_dropWhile (cs : List Char) :
    withoutBlanks (cs.dropWhile isBlank) = withoutBlanks cs := by
  induction cs with
  | nil => rfl
  | cons c cs ih =>
      cases hc : isBlank c with
      | true => rw [List.dropWhile_cons_of_pos hc, ih, withoutBlanks, withoutBlanks,
          List.filter_cons_of_neg (by simp [hc])]
      | false => rw [List.dropWhile_cons_of_neg (by simp [hc])]

/-- A lexeme that does not start with a blank has none in it. -/
theorem Lexeme.withoutBlanks_split {c : Char} (hc : isBlank c = false) (rest : List Char) :
    withoutBlanks (split c rest).1 = (split c rest).1 := by
  obtain ⟨run, hsplit, hrun, _⟩ := exists_split_eq c rest
  rw [hsplit, withoutBlanks, List.filter_eq_self]
  intro x hx
  rcases List.mem_cons.1 hx with rfl | hx
  · rw [hc]
    rfl
  · rw [isBlank_of_isRunChar (hrun x hx)]
    rfl

/-- The lexemes of a text, side by side, are the text without its blanks. -/
theorem flatten_lexemes (cs : List Char) : (lexemes cs).flatten = withoutBlanks cs := by
  fun_induction lexemes cs with
  | case1 cs hskip =>
      rw [← withoutBlanks_dropWhile, hskip]
      rfl
  | case2 cs c rest hskip ih =>
      have hc := Lexeme.isBlank_of_skip hskip
      have hsplit := congrArg withoutBlanks (Lexeme.split_append c rest)
      rw [withoutBlanks, List.filter_append] at hsplit
      rw [← withoutBlanks_dropWhile cs, hskip, ← hsplit, List.flatten_cons, ih]
      exact congrArg (· ++ _) (Lexeme.withoutBlanks_split hc rest).symm

/-! ## Renderings -/

namespace Lexeme

/-- How a lexeme is written back: a numeral by its value, anything else as it is. -/
def rendering (lexeme : List Char) : String :=
  match classify lexeme with
  | some (.atom (.number value)) => compactText value
  | _ => .ofList lexeme

theorem rendering_of_classify {c : Char} {rest : List Char} {s : Symbol}
    (h : classify (split c rest).1 = some s) : rendering (split c rest).1 = s.text := by
  have hclassified := classified_of_classify h
  generalize (split c rest).1 = lexeme at h hclassified
  rw [rendering, h]
  cases hclassified with
  | name | numeral => rfl
  | bracket b => cases b <;> rfl
  | operator op => cases op <;> rfl

end Lexeme

/-- The lexemes of a text have its symbols, and are written back as the texts of these. -/
theorem Lexes.map_lexemes {cs : List Char} {ss : List Symbol} (h : Lexes cs ss) :
    (lexemes cs).map Lexeme.classify = ss.map some ∧
      (lexemes cs).map Lexeme.rendering = ss.map Symbol.text := by
  induction h with
  | done hskip =>
      rw [lexemes_nil hskip]
      exact ⟨rfl, rfl⟩
  | lexeme hskip hclassify _ ih =>
      rw [lexemes_cons hskip]
      simp only [List.map_cons, hclassify, Lexeme.rendering_of_classify hclassify, ih, and_self]

/-! ## Reductions -/

theorem text_of_build? {p : Production} {rhs : List Symbol} {s : Symbol}
    (h : p.build? rhs = some s) : s.text = String.join (rhs.map Symbol.text) := by
  unfold Production.build? at h
  split at h <;> cases h
  · simp [Symbol.text]
  · simp [Symbol.text, Expr.text_atomic]
  · simp [Symbol.text, Expr.text_atomic]
  · simp [Symbol.text, Expr.text_binary, String.append_assoc]
  · simp [Symbol.text, Expr.text_bracketed, String.append_assoc]

/-- A reduction writes the texts of its right-hand side side by side. -/
theorem concatenates_text : grammar.Concatenates Symbol.text := by
  intro p rhs c s h
  simp only [grammar, Production.reduce] at h
  split at h
  · rename_i lhs hbuild
    cases h
    exact text_of_build? hbuild
  · cases h

/-! ## Texts -/

variable {text : String} {mode : ErrorMode} {s : Symbol}

/-- The verdict at the end of a report is about no token. -/
theorem verdicts_report (text : String) (mode : ErrorMode) :
    (report text mode).verdicts =
      (Automaton.firstReport (Scanner.ofString text) mode).verdicts := by
  have hevents : (report text mode).events =
      (Automaton.firstReport (Scanner.ofString text) mode).events ++ [.noted _] := rfl
  rw [Analysis.verdicts, hevents, List.filterMap_append]
  exact List.append_nil _

/-- A run that aborts and succeeds is one that resynchronizes. -/
theorem firstReport_eq_resync (h : (report text mode).outcome = .accepted s ∨
    (report text mode).outcome = .recovered s) :
    Automaton.firstReport (Scanner.ofString text) mode =
      Automaton.firstReport (Scanner.ofString text) .resync := by
  cases mode with
  | resync => rfl
  | abort => exact congrArg Prod.fst (Machine.analyze_resync_of_success shrinking h).symm

/-- A run that succeeds has read the whole text. -/
theorem lexes_of_success (h : (report text mode).outcome = .accepted s ∨
    (report text mode).outcome = .recovered s) :
    Lexes text.toList ((report text mode).verdicts.map fun v => v.1.symbol) := by
  have hreads : (Scanner.ofString text).ReadsFrom text.toList := ⟨rfl, rfl⟩
  rw [verdicts_report, firstReport_eq_resync h]
  rcases Scanner.lexes_or_fails _ hreads with ⟨ss, hlexes⟩ | ⟨ts, d, hts, hdelivers⟩
  · obtain ⟨ts, span, hts, hdelivers, rfl⟩ := Scanner.exists_delivers hlexes hreads
    have hverdicts := congrArg (List.map Token.symbol) (Draft.empty.verdicts_fst ts)
    rw [List.map_map] at hverdicts
    rw [(analyze_resync hts hdelivers).2.2]
    exact hverdicts ▸ hlexes
  · -- A lexeme that cannot be classified is the end of every run.
    have houtcome : (report text mode).outcome =
        (Automaton.firstReport (Scanner.ofString text) mode).outcome := rfl
    rw [houtcome, firstReport_eq_resync h, (analyze_of_error hts hdelivers).1] at h
    rcases h with h | h <;> cases h

theorem text_eq_yield (h : (report text mode).outcome = .accepted s ∨
    (report text mode).outcome = .recovered s) :
    s.text = Token.yield Symbol.text (report text mode).shifted := by
  obtain ⟨fuel, r, hrun, hanalyze⟩ := Machine.exists_run_of_analyze shrinking mode
    (Automaton.ofSource (Scanner.ofString text))
  have hends : Machine.analyzeWithin grammar mode fuel
      (Automaton.ofSource (Scanner.ofString text)) = some (Machine.conclude r) :=
    Option.map_eq_some_iff.2 ⟨r, hrun, rfl⟩
  rw [← hanalyze] at hends
  rw [Analysis.shifted_eq, verdicts_report, ← Analysis.shifted_eq]
  exact Machine.word_eq_yield concatenates_text hends h

def Report.keptLexemes (A : Report) (text : String) : List (List Char) :=
  (((lexemes text.toList).zip A.verdicts).filter fun l => l.2.2).map Prod.fst

/-- Lexemes that are written back as the texts of tokens are so where only some are kept. -/
theorem map_rendering_kept {ls : List (List Char)} {verdicts : List (Token Symbol × Bool)}
    (h : ls.map Lexeme.rendering = verdicts.map fun v => v.1.symbol.text) :
    (((ls.zip verdicts).filter fun l => l.2.2).map Prod.fst).map Lexeme.rendering =
      (survivors verdicts).map fun t => t.symbol.text := by
  induction verdicts generalizing ls with
  | nil => rw [List.zip_nil_right]; rfl
  | cons v verdicts ih =>
      cases ls with
      | nil => cases h
      | cons l ls =>
          obtain ⟨hl, hls⟩ := List.cons.inj h
          have hrest := ih hls
          obtain ⟨t, flag⟩ := v
          cases flag with
          | true => exact congrArg₂ List.cons hl hrest
          | false => exact hrest

/-- If reductions put words side by side, a result says what the shifted tokens said, whatever the
table; for a text that is its lexemes, less those that were discarded. -/
theorem yield_is_preserved :
    (∀ {State Production Symbol Kind Context Source : Type} [TokenSource Source Symbol]
      [GrammarSymbol Symbol Kind] [ToString State] [ToString Kind] [HonestSource Source]
      (G : Grammar State Production Symbol Kind Context) (w : Symbol → String) (mode : ErrorMode)
      (fuel : Nat) (M M' : Machine State Production Symbol Kind Context Source)
      (A : Analysis State Production Symbol Kind) (s : Symbol), G.Concatenates w →
        Machine.analyzeWithin G mode fuel M = some (A, M') →
        (A.outcome = .accepted s ∨ A.outcome = .recovered s) → w s = Token.yield w A.shifted) ∧
    grammar.Concatenates Symbol.text ∧
    ∀ (text : String) (mode : ErrorMode) (s : Symbol),
      ((report text mode).outcome = .accepted s ∨ (report text mode).outcome = .recovered s) →
        s.text = Token.yield Symbol.text (report text mode).shifted ∧
        (lexemes text.toList).flatten = withoutBlanks text.toList ∧
        (lexemes text.toList).map Lexeme.classify =
          (report text mode).verdicts.map (fun v => some v.1.symbol) ∧
        s.text = String.join (((report text mode).keptLexemes text).map Lexeme.rendering) := by
  refine ⟨fun G w mode fuel M M' A s hw => Machine.word_eq_yield hw, concatenates_text, ?_⟩
  intro text mode s hs
  obtain ⟨hclassify, hrendering⟩ := (lexes_of_success hs).map_lexemes
  rw [List.map_map] at hclassify hrendering
  refine ⟨text_eq_yield hs, flatten_lexemes _, hclassify, ?_⟩
  rw [text_eq_yield hs, Token.yield, Analysis.shifted_eq, Report.keptLexemes,
    map_rendering_kept hrendering]
  rfl

/-- The tokens of `a ) + b`, of which the source loses the bracket when it is discarded. -/
def lostBracket : Script Symbol :=
  ⟨[{ token := ⟨.var "a", none⟩ }, { token := ⟨.bracket .closing, none⟩, lost := true },
    { token := ⟨.operator .add, none⟩ }, { token := ⟨.var "b", none⟩ },
    { token := ⟨.endMark, none⟩ }]⟩

/-- The witness reads `a ) + b` from a script that loses the bracket, and the text `(a +* 2.50) )`, in
which the `*` and the last bracket have no place. -/
theorem yield_of_stray_marks :
    (∃ A M' s, Machine.analyzeWithin grammar .resync 12 (Machine.ofSource lostBracket ()) =
        some (A, M') ∧
      A.outcome = .recovered s ∧ s.text = "a+b" ∧ s.text = Token.yield Symbol.text A.shifted) ∧
    ∃ s, (report "(a +* 2.50) )" .resync).outcome = .recovered s ∧ s.text = "(a+2.5)" ∧
      (report "(a +* 2.50) )" .resync).keptLexemes "(a +* 2.50) )" =
        [['('], ['a'], ['+'], ['2', '.', '5', '0'], [')']] ∧
      s.text = String.join
        (((report "(a +* 2.50) )" .resync).keptLexemes "(a +* 2.50) )").map Lexeme.rendering) := by
  constructor
  · have hends : Machine.analyzeWithin grammar .resync 12 (Machine.ofSource lostBracket ()) =
        some (_, _) := rfl
    have h := yield_is_preserved.1 _ _ _ _ _ _ _ _ concatenates_text hends (.inr rfl)
    exact ⟨_, _, _, hends, rfl, by decide +kernel, h⟩
  · have hrecovered : (report "(a +* 2.50) )" .resync).outcome = .recovered _ := rfl
    have h := yield_is_preserved.2.2 _ _ _ (.inr hrecovered)
    exact ⟨_, hrecovered, by decide +kernel, by decide +kernel, h.2.2.2⟩

end Arithmetic
end ShiftReduce
