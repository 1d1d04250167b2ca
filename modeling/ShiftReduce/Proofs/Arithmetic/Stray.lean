import ShiftReduce.Proofs.Arithmetic.Agreement
import ShiftReduce.Proofs.Arithmetic.Juxtaposition
import ShiftReduce.Proofs.Arithmetic.Pointing
import ShiftReduce.Proofs.Arithmetic.Viability

/-!
# Stray marks — operators and brackets where an operand is due

Behind an operator there is no place for another operator, and none for a closing bracket.  Such marks
are thrown away, and because nothing stands between the operator and them that could be closed, the
draft in front of them stays as it is.  So whatever is read behind them is read as if they were not there.

* `Draft.read_around_strays`: tokens that are thrown away where an operand is due.
* `report_of_lexes`: the report on a text, by its tokens in their places.
* `exists_strays`: the tokens of stray marks, and what is said of them.
* `stray_marks_leave_no_trace`: stray marks between two texts behind an operator.
-/

namespace ShiftReduce
namespace Arithmetic

/-! ## Drafts -/

namespace Draft

/-- Behind a sentence and an operator an operand is due, outside all brackets. -/
theorem follow_operator_of_parse {symbols : List Symbol} {e : Expr} (h : parse symbols = some e)
    (op : Operator) :
    ∃ S, empty.follow (symbols ++ [.operator op]) = some (due S) ∧ S.depth = 0 := by
  have hplace := empty.place_follow (symbols ++ [.operator op])
  obtain ⟨d, hd, -⟩ := parse_eq_some_iff_phrase.1 h
  have hsentence := sentence_iff_follow.1 ⟨d, hd⟩
  have hdue : empty.place.follow (symbols ++ [.operator op]) = some (.due 0) := by
    rw [Place.follow_append]
    exact (congrArg (Option.bind · _) hsentence).trans rfl
  obtain ⟨D, hfollow, hD⟩ := Option.map_eq_some_iff.1 (hplace.trans hdue)
  cases D with
  | due S => exact ⟨S, hfollow, Place.due.inj hD⟩
  | operand S e => cases hD

/-- A sentence is read to its end wherever an operand is due outside all brackets. -/
theorem follow_of_parse {symbols : List Symbol} {e : Expr} (h : parse symbols = some e) {S : Spine}
    (hdepth : S.depth = 0) :
    ∃ D whole, (due S).follow symbols = some D ∧ D.complete? = some whole := by
  have hplace := (due S).place_follow symbols
  obtain ⟨d, hd, -⟩ := parse_eq_some_iff_phrase.1 h
  rw [place, hdepth, sentence_iff_follow.1 ⟨d, hd⟩] at hplace
  obtain ⟨D, hfollow, hD⟩ := Option.map_eq_some_iff.1 hplace
  obtain ⟨whole, hcomplete⟩ := Option.isSome_iff_exists.1 (D.complete_isSome_iff.2 hD)
  exact ⟨D, whole, hfollow, hcomplete⟩

/-- Tokens for which there is no place where an operand is due are thrown away, and the draft stays as
it is. -/
theorem read_strays {S : Spine} {ts : List (Token Symbol)}
    (h : ∀ t ∈ ts, (due S).extend? t.symbol = none) :
    (due S).read ts = due S ∧ (due S).verdicts ts = ts.map fun t => (t, false) := by
  induction ts with
  | nil => exact ⟨rfl, rfl⟩
  | cons t ts ih =>
      obtain ⟨hextend, hrest⟩ := List.forall_mem_cons.1 h
      obtain ⟨hread, hverdicts⟩ := ih hrest
      have hstep : (due S).step t.symbol = due S := by
        rw [step, hextend]
        rfl
      refine ⟨?_, ?_⟩
      · rw [Draft.read, List.foldl_cons, hstep]
        exact hread
      · rw [verdicts, hstep, hverdicts, hextend]
        rfl

/-- What is read around such tokens is read as if they were not there, and they alone are thrown
away. -/
theorem read_around_strays {D D' : Draft} {S : Spine} {before strays behind : List (Token Symbol)}
    (hbefore : D.follow (before.map Token.symbol) = some (due S))
    (hstrays : ∀ t ∈ strays, (due S).extend? t.symbol = none)
    (hbehind : (due S).follow (behind.map Token.symbol) = some D') :
    D.read (before ++ strays ++ behind) = D' ∧
      discards (D.verdicts (before ++ strays ++ behind)) = strays := by
  obtain ⟨hread, hverdicts⟩ := read_of_follow hbefore
  obtain ⟨hread', hverdicts'⟩ := read_strays hstrays
  obtain ⟨hread'', hverdicts''⟩ := read_of_follow hbehind
  refine ⟨?_, ?_⟩
  · rw [read_append, read_append, hread, hread', hread'']
  · rw [verdicts_append, verdicts_append, read_append, hread, hread', hverdicts, hverdicts',
      hverdicts'']
    simp [discards, List.filter_map, Function.comp_def]

end Draft

/-! ## Tokens in their places -/

def Occurrence.tokens (text : List Char) (os : List Occurrence) : List (Token Symbol) :=
  os.filterMap fun o => o.symbol?.map fun s => ⟨s, some (o.span text)⟩

theorem Occurrence.tokens_append (text : List Char) (os os' : List Occurrence) :
    tokens text (os ++ os') = tokens text os ++ tokens text os' :=
  List.filterMap_append

/-- If all lexemes are classified, the tokens on them have their symbols and are what is answered. -/
theorem Occurrence.tokens_of_symbols (text : List Char) {os : List Occurrence} {ss : List Symbol}
    (h : os.map symbol? = ss.map some) :
    (tokens text os).map Token.symbol = ss ∧ os.map (answer text) = tokenAnswers (tokens text os) := by
  induction os generalizing ss with
  | nil =>
      obtain rfl : ss = [] := by simpa using h.symm
      exact ⟨rfl, rfl⟩
  | cons o os ih =>
      obtain ⟨s, ss, rfl, hsymbol, hrest⟩ := List.map_eq_cons_iff.1 h.symm
      obtain ⟨hsymbols, hanswers⟩ := ih hrest.symm
      have htokens : tokens text (o :: os) = ⟨s, some (o.span text)⟩ :: tokens text os := by
        rw [tokens, List.filterMap_cons, ← hsymbol]
        rfl
      rw [htokens, List.map_cons, List.map_cons, hsymbols, hanswers, answer, ← hsymbol]
      exact ⟨rfl, rfl⟩

/-- The lexemes in their places have the symbols of the text. -/
theorem Lexes.symbols_tokens {cs : List Char} {ss : List Symbol} (h : Lexes cs ss)
    (text before : List Char) : (Occurrence.tokens text (occurrences before cs)).map Token.symbol = ss :=
  (Occurrence.tokens_of_symbols text ((map_symbol_occurrences before cs).trans (lexes_iff.1 h))).1

def textTokens (text : String) : List (Token Symbol) :=
  Occurrence.tokens text.toList (occurrences [] text.toList)

/-- If all lexemes of a text are classified, the draft behind its tokens decides what is reported. -/
theorem report_of_lexes {text : String} {ss : List Symbol} (h : Lexes text.toList ss) :
    ∃ span,
      (report text .resync).outcome = (Draft.empty.read (textTokens text)).outcome
        (discards (Draft.empty.verdicts (textTokens text))).isEmpty span ∧
      (report text .resync).diagnostics =
        (discards (Draft.empty.verdicts (textTokens text))).map Token.complaint ++
          (Draft.empty.read (textTokens text)).endDiagnostics span := by
  have hdrain := (Scanner.behind_ofList text.toList).drain_eq
  have hsymbols := (map_symbol_occurrences [] text.toList).trans (lexes_iff.1 h)
  have hanswers := (Occurrence.tokens_of_symbols text.toList hsymbols).2
  have hscanned : scanned text = tokenAnswers (textTokens text) ++
      (Occurrence.atEnd text.toList).answer text.toList :: [] := by
    have hmap := congrArg (List.map Draw.answer) hdrain
    rw [Occurrence.map_answer_draws, List.map_append] at hmap
    exact hmap.trans (congrArg (· ++ _) hanswers)
  rw [Occurrence.answer_atEnd] at hscanned
  obtain ⟨hdelivers, hts⟩ := Scanner.delivers_of_drain (s := .ofString text) rfl hscanned
  obtain ⟨houtcome, hdiagnostics, -⟩ := analyze_resync hts hdelivers
  exact ⟨_, houtcome, hdiagnostics⟩

/-! ## Stray marks -/

/-- The marks for which there is no place where an operand is due: the operators and the closing
bracket. -/
def strayMarks : List Char :=
  ['+', '-', '*', '/', ')']

/-- A stray mark is a lexeme of its own, and its symbol has no place. -/
theorem exists_stray {c : Char} (h : c ∈ strayMarks) :
    isBlank c = false ∧ c.isAlphanum = false ∧ isRunChar c = false ∧
      ∃ s, Lexeme.classify [c] = some s ∧ s.text = .singleton c ∧
        ∀ S, (Draft.due S).extend? s = none := by
  have hmarks : (∃ op : Operator, c = op.toChar) ∨ c = Bracket.closing.toChar := by
    simp only [strayMarks, List.mem_cons, List.not_mem_nil, or_false] at h
    rcases h with rfl | rfl | rfl | rfl | rfl
    · exact .inl ⟨.add, rfl⟩
    · exact .inl ⟨.sub, rfl⟩
    · exact .inl ⟨.mul, rfl⟩
    · exact .inl ⟨.div, rfl⟩
    · exact .inr rfl
  rcases hmarks with ⟨op, rfl⟩ | rfl
  · cases op <;> exact ⟨rfl, rfl, rfl, _, rfl, rfl, fun _ => rfl⟩
  · exact ⟨rfl, rfl, rfl, _, rfl, rfl, fun _ => rfl⟩

/-- Stray marks go on with no run. -/
theorem stops_strays {cs : List Char} (h : ∀ c ∈ cs, c ∈ strayMarks) : Stops isRunChar cs := by
  rintro c rest rfl
  exact (exists_stray (h c List.mem_cons_self)).2.2.1

theorem occurrences_mark {c : Char} (hblank : isBlank c = false) (hc : c.isAlphanum = false)
    (before rest : List Char) :
    occurrences before (c :: rest) =
      ⟨.following before [c], Lexeme.classify [c]⟩ :: occurrences (before ++ [c]) rest := by
  have hskip : (c :: rest).dropWhile isBlank = c :: rest :=
    List.dropWhile_cons_of_neg (by simp [hblank])
  have htake : (c :: rest).takeWhile isBlank = [] :=
    List.takeWhile_cons_of_neg (by simp [hblank])
  have hsplit : Lexeme.split c rest = ([c], rest) := by
    rw [Lexeme.split, if_neg (by simp [hc])]
  rw [occurrences_cons before hskip, htake, hsplit, List.append_nil]

/-- Stray marks are tokens for which there is no place where an operand is due, and what is said of each
points at its character. -/
theorem exists_strays {cs : List Char} (h : ∀ c ∈ cs, c ∈ strayMarks) (text before : List Char) :
    (∃ ss, Lexes cs ss) ∧
      (∀ t ∈ Occurrence.tokens text (occurrences before cs), ∀ S,
        (Draft.due S).extend? t.symbol = none) ∧
      (Occurrence.tokens text (occurrences before cs)).map Token.complaint =
        cs.mapIdx fun i c => .unexpected (.singleton c)
          (some (Interval.span ⟨before.length + i, before.length + i + 1⟩ text)) := by
  induction cs generalizing before with
  | nil =>
      rw [occurrences_nil before rfl]
      exact ⟨⟨[], .done rfl⟩, List.forall_mem_nil _, rfl⟩
  | cons c cs ih =>
      obtain ⟨hc, hcs⟩ := List.forall_mem_cons.1 h
      obtain ⟨hblank, halphanum, -, s, hclassify, htext, hextend⟩ := exists_stray hc
      obtain ⟨⟨ss, hlexes⟩, hstrays, hcomplaints⟩ := ih hcs (before ++ [c])
      have htokens : Occurrence.tokens text (occurrences before (c :: cs)) =
          ⟨s, some (Interval.span ⟨before.length, before.length + 1⟩ text)⟩ ::
            Occurrence.tokens text (occurrences (before ++ [c]) cs) := by
        rw [occurrences_mark hblank halphanum, Occurrence.tokens, List.filterMap_cons, hclassify]
        simp only [Option.map_some, Interval.following, List.length_append, List.length_singleton]
        rfl
      have hcomplaint (span : Option Span) :
          (⟨s, span⟩ : Token Symbol).complaint = .unexpected (.singleton c) span := by
        rw [← htext]
        rfl
      refine ⟨⟨s :: ss, lexes_mark hblank halphanum hclassify hlexes⟩, ?_, ?_⟩
      · rw [htokens]
        exact List.forall_mem_cons.2 ⟨hextend, hstrays⟩
      · rw [htokens, List.map_cons, hcomplaint, hcomplaints, List.mapIdx_cons]
        simp only [List.length_append, List.length_singleton, Nat.add_zero, Nat.add_assoc,
          Nat.add_comm 1]

/-! ## Texts around stray marks -/

/-- A text with the symbols `ss`, behind which an operand is due and no run goes on. -/
structure OperandDue (front : String) (ss : List Symbol) (S : Spine) : Prop where
  lexes : Lexes front.toList ss
  follow : Draft.empty.follow ss = some (.due S)
  cut : Stops isRunChar front.toList.reverse

/-- A text with the symbols `ss` that, where an operand is due, completes the tree `e`. -/
structure Completes (S : Spine) (back : String) (ss : List Symbol) (e : Expr) : Prop where
  lexes : Lexes back.toList ss
  follow : ∃ D, (Draft.due S).follow ss = some D ∧ D.complete? = some e

/-- Behind a text that has a tree, an operator demands an operand. -/
theorem exists_operandDue {l : String} {t : Expr} (h : parse l = some t) (op : Operator) :
    ∃ S, OperandDue (l ++ op.text) (t.symbols ++ [.operator op]) S ∧ S.depth = 0 := by
  obtain ⟨hlexes, hfits⟩ := parse_eq_some_iff.1 h
  obtain ⟨S, hfollow, hdepth⟩ :=
    Draft.follow_operator_of_parse (Draft.parse_eq_some_iff.2 ⟨rfl, hfits⟩) op
  have hmark : isRunChar op.toChar = false := by cases op <;> rfl
  refine ⟨S, ⟨?_, hfollow, ?_⟩, hdepth⟩
  · simpa [Operator.text] using
      hlexes.append (Lexes.operator op (.done rfl)) (.inr (stops_cons hmark []))
  · simpa [Operator.text] using stops_cons hmark l.toList.reverse

theorem exists_completes {r : String} {t : Expr} (h : parse r = some t) {S : Spine}
    (hdepth : S.depth = 0) : ∃ e, Completes S r t.symbols e := by
  obtain ⟨hlexes, hfits⟩ := parse_eq_some_iff.1 h
  obtain ⟨D, e, hfollow, hcomplete⟩ :=
    Draft.follow_of_parse (Draft.parse_eq_some_iff.2 ⟨rfl, hfits⟩) hdepth
  exact ⟨e, hlexes, D, hfollow, hcomplete⟩

section

variable {front back x : String} {ss ss' : List Symbol} {S : Spine} {e : Expr}

theorem OperandDue.parse_append (hfront : OperandDue front ss S) (hback : Completes S back ss' e) :
    parse (front ++ back) = some e := by
  obtain ⟨D, hfollow, hcomplete⟩ := hback.follow
  have htree : Draft.parse (ss ++ ss') = some e := by
    rw [Draft.parse, Draft.follow_append, hfront.follow, Option.bind_some, hfollow, Option.bind_some,
      hcomplete]
  obtain ⟨hsymbols, hfits⟩ := Draft.parse_eq_some_iff.1 htree
  refine parse_eq_some_iff.2 ⟨?_, hfits⟩
  rw [hsymbols, String.toList_append]
  exact hfront.lexes.append hback.lexes (.inl hfront.cut)

/-- The tokens of a text that is cut twice where no run goes on. -/
theorem textTokens_append (back : String) (hcut : Stops isRunChar front.toList.reverse)
    (hcut' : Stops isRunChar x.toList.reverse) :
    textTokens (front ++ x ++ back) =
      Occurrence.tokens (front ++ x ++ back).toList (occurrences [] front.toList) ++
        Occurrence.tokens (front ++ x ++ back).toList (occurrences front.toList x.toList) ++
        Occurrence.tokens (front ++ x ++ back).toList
          (occurrences (front.toList ++ x.toList) back.toList) := by
  have hoccurrences : occurrences [] (front ++ x ++ back).toList =
      occurrences [] front.toList ++ occurrences front.toList x.toList ++
        occurrences (front.toList ++ x.toList) back.toList := by
    rw [String.toList_append, String.toList_append, List.append_assoc,
      occurrences_append _ _ _ (.inl hcut), occurrences_append _ _ _ (.inl hcut'), List.nil_append,
      List.append_assoc]
  rw [textTokens, hoccurrences, Occurrence.tokens_append, Occurrence.tokens_append]

/-- Wherever an operand is due, a run goes on past stray marks as if they were not there, and complains
of each. -/
theorem OperandDue.report_around_strays (hfront : OperandDue front ss S)
    (hback : Completes S back ss' e) (hsome : x ≠ "") (hx : ∀ c ∈ x.toList, c ∈ strayMarks) :
    (report (front ++ x ++ back) .resync).outcome = .recovered (.root e) ∧
      (report (front ++ x ++ back) .resync).diagnostics =
        x.toList.mapIdx fun i c => .unexpected (.singleton c)
          (some (Interval.span ⟨front.length + i, front.length + i + 1⟩
            (front ++ x ++ back).toList)) := by
  obtain ⟨D, hfollow, hcomplete⟩ := hback.follow
  have hcut : Stops isRunChar x.toList.reverse :=
    stops_strays fun c hc => hx c (List.mem_reverse.1 hc)
  have htokens := textTokens_append back hfront.cut hcut
  obtain ⟨⟨xs, hmarks⟩, hstrays, hcomplaints⟩ :=
    exists_strays hx (front ++ x ++ back).toList front.toList
  have hwhole : Lexes (front ++ x ++ back).toList (ss ++ (xs ++ ss')) := by
    rw [String.toList_append, String.toList_append, List.append_assoc]
    exact hfront.lexes.append (hmarks.append hback.lexes (.inl hcut)) (.inl hfront.cut)
  obtain ⟨span, houtcome, hdiagnostics⟩ := report_of_lexes hwhole
  -- The marks leave the draft as it is, and they alone are thrown away.
  have hbefore := hfront.follow
  rw [← hfront.lexes.symbols_tokens (front ++ x ++ back).toList []] at hbefore
  rw [← hback.lexes.symbols_tokens (front ++ x ++ back).toList (front.toList ++ x.toList)] at hfollow
  obtain ⟨hread, hdiscards⟩ :=
    Draft.read_around_strays hbefore (fun t ht => hstrays t ht S) hfollow
  rw [htokens, hread, hdiscards, Draft.outcome, hcomplete] at houtcome
  rw [htokens, hread, hdiscards, hcomplaints, Draft.endDiagnostics, hcomplete, List.append_nil,
    String.length_toList] at hdiagnostics
  have hstray : Occurrence.tokens (front ++ x ++ back).toList
      (occurrences front.toList x.toList) ≠ [] := by
    intro hnone
    rw [hnone, List.map_nil] at hcomplaints
    exact hsome (by simpa using hcomplaints.symm)
  rw [List.isEmpty_eq_false_iff.2 hstray] at houtcome
  exact ⟨houtcome, hdiagnostics⟩

end

/-- Stray marks where an operand is due are discarded without a trace: each raises one diagnostic,
at its place, and the tree is that of the text without them. -/
theorem stray_marks_leave_no_trace {l r x : String} {tl tr : Expr} (hl : parse l = some tl)
    (hr : parse r = some tr) (op : Operator) (hsome : x ≠ "")
    (hx : ∀ c ∈ x.toList, c ∈ strayMarks) :
    parse (l ++ op.text ++ x ++ r) = none ∧
    ∃ e, parse (l ++ op.text ++ r) = some e ∧
      (report (l ++ op.text ++ x ++ r) .resync).outcome = .recovered (.root e) ∧
      (report (l ++ op.text ++ x ++ r) .resync).diagnostics =
        x.toList.mapIdx fun i c => .unexpected (.singleton c)
          (some (Interval.span ⟨(l ++ op.text).length + i, (l ++ op.text).length + i + 1⟩
            (l ++ op.text ++ x ++ r).toList)) := by
  obtain ⟨S, hdue, hdepth⟩ := exists_operandDue hl op
  obtain ⟨e, hcompletes⟩ := exists_completes hr hdepth
  obtain ⟨houtcome, hdiagnostics⟩ := hdue.report_around_strays hcompletes hsome hx
  exact ⟨parse_of_not_accepted (by simp [houtcome]), e, hdue.parse_append hcompletes, houtcome,
    hdiagnostics⟩

/-- The witness has a multiplication behind a line end, and `+)` behind that. -/
theorem stray_marks_after_product :
    parse "a\n" = some (.atomic (.var "a")) ∧ parse " b" = some (.atomic (.var "b")) ∧
      "+)" ≠ "" ∧ (∀ c ∈ "+)".toList, c ∈ strayMarks) ∧
      parse "a\n*+) b" = none ∧
      ∃ e, parse "a\n* b" = some e ∧ (report "a\n*+) b" .resync).outcome = .recovered (.root e) ∧
        (report "a\n*+) b" .resync).diagnostics =
          [.unexpected "+" (some ⟨⟨1, 1⟩, ⟨1, 2⟩⟩), .unexpected ")" (some ⟨⟨1, 2⟩, ⟨1, 3⟩⟩)] := by
  have hl : parse "a\n" = some (.atomic (.var "a")) := rfl
  have hr : parse " b" = some (.atomic (.var "b")) := rfl
  have hsome : "+)" ≠ "" := by decide
  have hx : ∀ c ∈ "+)".toList, c ∈ strayMarks := by simp [strayMarks]
  have htext : "a\n" ++ Operator.mul.text ++ "+)" ++ " b" = "a\n*+) b" := by decide
  have hwithout : "a\n" ++ Operator.mul.text ++ " b" = "a\n* b" := by decide
  have h := stray_marks_leave_no_trace hl hr .mul hsome hx
  rw [htext, hwithout] at h
  obtain ⟨hnone, e, htree, houtcome, hdiagnostics⟩ := h
  exact ⟨hl, hr, hsome, hx, hnone, e, htree, houtcome, hdiagnostics.trans (by decide +kernel)⟩

end Arithmetic
end ShiftReduce
