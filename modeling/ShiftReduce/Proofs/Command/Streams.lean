import ShiftReduce.Command.Run
import ShiftReduce.Proofs.Arithmetic.Agreement
import ShiftReduce.Proofs.Arithmetic.Remarks
import ShiftReduce.Proofs.Decimal.Display

/-!
# Streams — what a command shows, and what its flags change of it

A command shows a value where reading and evaluation give one, a remark where the text has no tree, and
nothing else on its first stream.  The flags only concern what is said on the second.

* `errorLines`, `errorLines_eq_nil_iff`: the lines of a stream that begin with the mark of a diagnostic.
* `Options.Leaves`, `Options.exists_leaves`: the four ways in which a command ends.
* `Options.run_with_flags`: the flags change neither status nor output.
* `Options.errorLines_run`, `Options.errorLines_bindingsLine`: the marked lines of a command.
* `Options.command_agrees`: all of it together.
-/

namespace ShiftReduce
namespace Command

open Arithmetic

/-! ## Lines of the counters -/

theorem oneLine_scannerLine (s : SourceStats) : OneLine (scannerLine s) := by
  have htext : scannerLine s = "LexerStats \x7b chars: " ++ s.chars.repr ++ ", tokens: " ++
      s.tokens.repr ++ " \x7d" := rfl
  simp +decide [htext]

theorem oneLine_runLine (s : RunStats) : OneLine (runLine s) := by
  have htext : runLine s = "ParserStats \x7b tokens: " ++ s.tokens.repr ++ ", shifts: " ++
      s.shifts.repr ++ ", reductions: " ++ s.reductions.repr ++ ", gotos: " ++ s.gotos.repr ++
      ", discarded: " ++ s.discarded.repr ++ " \x7d" := rfl
  simp +decide [htext]

/-! ## Lines of a stream -/

/-- The lines of a stream that begin with the mark of a diagnostic. -/
def errorLines (stream : String) : List String :=
  ((stream.toList.splitOn '\n').filter fun line => "[Error]".toList.isPrefixOf line).map .ofList

theorem toList_unlines_cons (line : String) (lines : List String) :
    (unlines (line :: lines)).toList = line.toList ++ '\n' :: (unlines lines).toList := by
  simp [unlines, String.toList_append, List.append_assoc]

/-- The marked lines of a stream are those of its pieces. -/
theorem errorLines_unlines (lines : List String) :
    errorLines (unlines lines) = lines.flatMap errorLines := by
  induction lines with
  | nil => decide
  | cons line lines ih =>
      rw [errorLines] at ih
      rw [errorLines, toList_unlines_cons, List.splitOn_append_cons_self, List.filter_append,
        List.map_append, ih, List.flatMap_cons, errorLines]

theorem splitOn_of_oneLine {line : String} (h : OneLine line) :
    line.toList.splitOn '\n' = [line.toList] := by
  have hsplit : (['\n'].intercalate [line.toList]).splitOn '\n' = [line.toList] :=
    List.splitOn_intercalate '\n' (List.forall_mem_singleton.2 h) (List.cons_ne_nil _ _)
  simpa using hsplit

theorem errorLines_of_oneLine {line : String} (h : OneLine line) :
    errorLines line = if "[Error]".toList.isPrefixOf line.toList then [line] else [] := by
  rw [errorLines, splitOn_of_oneLine h]
  split
  · rename_i hmark
    rw [List.filter_cons_of_pos hmark]
    simp
  · rename_i hmark
    rw [List.filter_cons_of_neg hmark]
    rfl

/-- A text on a line that begins otherwise does not bear the mark. -/
theorem errorLines_append_of_head? {head tail : String} {c : Char} (h : OneLine (head ++ tail))
    (hhead : head.toList.head? = some c) (hc : c ≠ '[') : errorLines (head ++ tail) = [] := by
  obtain ⟨cs, htext⟩ := List.head?_eq_some_iff.1 hhead
  have hmark : "[Error]".toList.isPrefixOf (c :: (cs ++ tail.toList)) = false := by
    simp [List.isPrefixOf, hc.symm]
  rw [errorLines_of_oneLine h, String.toList_append, htext, List.cons_append, hmark]
  rfl

/-- Pieces that fit on lines and bear the mark are the marked lines. -/
theorem flatMap_errorLines_marked {pieces : List String} (h : ∀ p ∈ pieces, OneLine p) :
    (pieces.map fun p => "[Error] " ++ p).flatMap errorLines =
      pieces.map fun p => "[Error] " ++ p := by
  induction pieces with
  | nil => rfl
  | cons p pieces ih =>
      obtain ⟨hp, hpieces⟩ := List.forall_mem_cons.1 h
      have hline : OneLine ("[Error] " ++ p) := oneLine_append.2 ⟨by decide, hp⟩
      have hmark : "[Error]".toList.isPrefixOf ("[Error] " ++ p).toList = true := by
        rw [String.toList_append]
        rfl
      rw [List.map_cons, List.flatMap_cons, errorLines_of_oneLine hline, if_pos hmark, ih hpieces]
      rfl

/-- A stream has a marked line if and only if the mark begins it or follows a line end. -/
theorem errorLines_eq_nil_iff {stream : String} :
    errorLines stream = [] ↔ ¬ '\n' :: "[Error]".toList <:+: '\n' :: stream.toList := by
  rw [errorLines, List.map_eq_nil_iff, List.filter_eq_nil_iff]
  constructor
  · intro hunmarked hwithin
    obtain ⟨line, hline, hfront⟩ := exists_line_of_cons_infix (by decide) hwithin
    exact hunmarked line hline (List.isPrefixOf_iff_prefix.2 hfront)
  · intro hwithin line hline hmark
    have hmarked : '\n' :: "[Error]".toList <+: '\n' :: line :=
      List.cons_prefix_cons.2 ⟨rfl, List.isPrefixOf_iff_prefix.1 hmark⟩
    exact hwithin (hmarked.isInfix.trans (cons_infix_of_mem_splitOn hline))

/-- A name that is quoted in a line brings in a marked line if and only if it has one after its
first line end. -/
theorem errorLines_quoted {head name tail : String} (hhead : OneLine head) (htail : OneLine tail) :
    errorLines ("error: " ++ head ++ name ++ "'" ++ tail) = [] ↔
      ¬ '\n' :: "[Error]".toList <:+: name.toList := by
  have htext : ("error: " ++ head ++ name ++ "'" ++ tail).toList =
      ("error: " ++ head).toList ++ (name.toList ++ '\'' :: tail.toList) := by
    simp [String.toList_append]
  rw [errorLines_eq_nil_iff, htext, not_iff_not]
  constructor
  · intro hwithin
    rcases List.infix_cons_iff.1 hwithin with hfront | hwithin
    · -- The first line begins with another word.
      have hbegin := (List.cons_prefix_cons.1 hfront).2
      rw [String.toList_append] at hbegin
      simp at hbegin
    · have hrest := infix_of_cons_infix_append hwithin (oneLine_append.2 ⟨by decide, hhead⟩)
      rcases infix_append_cons hrest (by decide) with hname | hbehind
      · exact hname
      · exact absurd (hbehind.subset List.mem_cons_self) htail
  · intro hname
    have hpart : name.toList <:+: name.toList ++ '\'' :: tail.toList :=
      (List.prefix_append _ _).isInfix
    exact List.infix_cons ((hname.trans hpart).trans (List.suffix_append _ _).isInfix)

/-! ## Ways in which a command ends -/

namespace Options

variable (o : Options)

def mode : ErrorMode :=
  if o.abort then .abort else .resync

def diagnosticLines : List String :=
  (report o.expression o.mode).diagnostics.map fun d => "[Error] " ++ toString d

def counterLines : List String :=
  let S := (Session.ofString o.expression o.mode).analyze.2
  if o.stats then [scannerLine S.scannerStats, runLine S.runStats] else []

def bindingsLine (failure : Failure) : String :=
  errorLine ("invalid bindings" :: failure.message :: failure.causes)

def valueLine (e : Expr) (err : EvalError) : String :=
  errorLine [s!"cannot evaluate '{e.text}'", err.message]

/-- How a command ends. -/
inductive Leaves (o : Options) : Effect → Prop
  | invalidBindings {failure : Failure} (h : Environment.ofArguments o.bindings = .error failure) :
      Leaves o ⟨1, "", unlines [bindingsLine failure]⟩
  | noTree {E : Environment} (h : Environment.ofArguments o.bindings = .ok E)
      (hparse : parse o.expression = none) :
      Leaves o ⟨1, unlines ["Invalid arithmetic expression!"],
        unlines (o.diagnosticLines ++ o.counterLines)⟩
  | noValue {E : Environment} {e : Expr} {err : EvalError}
      (h : Environment.ofArguments o.bindings = .ok E) (hparse : parse o.expression = some e)
      (heval : e.eval E = .error err) :
      Leaves o ⟨1, "", unlines (o.diagnosticLines ++ o.counterLines ++ [valueLine e err])⟩
  | value {E : Environment} {e : Expr} {v : Float}
      (h : Environment.ofArguments o.bindings = .ok E) (hparse : parse o.expression = some e)
      (heval : e.eval E = .ok v) :
      Leaves o ⟨0, unlines [e.text ++ " = " ++ positionalText v],
        unlines (o.diagnosticLines ++ o.counterLines)⟩

variable {o} {x : Effect}

theorem run_eq (h : o.Leaves x) : o.run = x := by
  -- In either mode the command goes on with the tree that parsing gives.
  have htree : (Session.ofString o.expression
      (if o.abort then .abort else .resync)).analyze.1.tree? = parse o.expression :=
    tree?_report o.expression o.mode
  unfold run
  cases h with
  | invalidBindings h =>
      rw [h]
      rfl
  | noTree h hparse =>
      rw [h]
      dsimp only
      rw [htree, hparse]
      rfl
  | noValue h hparse heval =>
      rw [h]
      dsimp only
      rw [htree, hparse]
      dsimp only
      rw [heval]
      rfl
  | value h hparse heval =>
      rw [h]
      dsimp only
      rw [htree, hparse]
      dsimp only
      rw [heval]
      rfl

variable (o)

theorem exists_leaves : ∃ x, o.Leaves x ∧ o.run = x := by
  have hsuffices : ∃ x, o.Leaves x := by
    cases hbindings : Environment.ofArguments o.bindings with
    | error failure => exact ⟨_, .invalidBindings hbindings⟩
    | ok E =>
        cases hparse : parse o.expression with
        | none => exact ⟨_, .noTree hbindings hparse⟩
        | some e =>
            cases heval : e.eval E with
            | error err => exact ⟨_, .noValue hbindings hparse heval⟩
            | ok v => exact ⟨_, .value hbindings hparse heval⟩
  obtain ⟨x, h⟩ := hsuffices
  exact ⟨x, h, run_eq h⟩

/-! ## Status and output -/

theorem unlines_singleton (line : String) : unlines [line] = line ++ "\n" := by
  simp [unlines]

theorem status_run : o.run.status = 0 ∨ o.run.status = 1 := by
  obtain ⟨x, hleaves, hrun⟩ := o.exists_leaves
  rw [hrun]
  cases hleaves with
  | value => exact .inl rfl
  | _ => exact .inr rfl

theorem status_eq_zero_iff :
    o.run.status = 0 ↔
      ∃ E v, Environment.ofArguments o.bindings = .ok E ∧ evaluate o.expression E = .ok v := by
  constructor
  · intro hzero
    obtain ⟨x, hleaves, hrun⟩ := o.exists_leaves
    rw [hrun] at hzero
    cases hleaves with
    | invalidBindings | noTree | noValue => cases hzero
    | value h hparse heval => exact ⟨_, _, h, (evaluate_eq_ok_iff _).2 ⟨_, hparse, heval⟩⟩
  · rintro ⟨E, v, h, hvalue⟩
    obtain ⟨e, hparse, heval⟩ := (evaluate_eq_ok_iff E).1 hvalue
    rw [run_eq (.value h hparse heval)]

theorem output_of_evaluate {E : Environment} {v : Float}
    (h : Environment.ofArguments o.bindings = .ok E) (hvalue : evaluate o.expression E = .ok v) :
    ∃ e, parse o.expression = some e ∧
      o.run.output = e.text ++ " = " ++ positionalText v ++ "\n" := by
  obtain ⟨e, hparse, heval⟩ := (evaluate_eq_ok_iff E).1 hvalue
  rw [run_eq (.value h hparse heval)]
  exact ⟨e, hparse, unlines_singleton _⟩

/-- A line with a value has an equals sign in it, and the remark has none. -/
theorem value_ne_remark (left right : String) :
    unlines [left ++ " = " ++ right] ≠ "Invalid arithmetic expression!\n" := by
  intro h
  have hmem : '=' ∈ (unlines [left ++ " = " ++ right]).toList := by
    simp [unlines_singleton, String.toList_append]
  rw [h] at hmem
  exact absurd hmem (by decide)

theorem output_eq_remark_iff :
    o.run.output = "Invalid arithmetic expression!\n" ↔
      (∃ E, Environment.ofArguments o.bindings = .ok E) ∧
        (report o.expression .resync).isAccepted = false := by
  rw [← isSome_parse]
  constructor
  · intro hremark
    obtain ⟨x, hleaves, hrun⟩ := o.exists_leaves
    rw [hrun] at hremark
    cases hleaves with
    | invalidBindings | noValue =>
        exact absurd hremark (by decide : ("" : String) ≠ "Invalid arithmetic expression!\n")
    | noTree h hparse => exact ⟨⟨_, h⟩, by rw [hparse]; rfl⟩
    | value => exact absurd hremark (value_ne_remark _ _)
  · rintro ⟨⟨E, h⟩, hparse⟩
    rw [run_eq (.noTree h (Option.not_isSome_iff_eq_none.1 (by simp [hparse])))]
    exact unlines_singleton _

theorem output_eq_empty (hstatus : o.run.status ≠ 0)
    (hremark : o.run.output ≠ "Invalid arithmetic expression!\n") : o.run.output = "" := by
  obtain ⟨x, hleaves, hrun⟩ := o.exists_leaves
  rw [hrun] at hstatus hremark ⊢
  cases hleaves with
  | invalidBindings | noValue => rfl
  | noTree => exact absurd (unlines_singleton _) hremark
  | value => exact absurd rfl hstatus

/-- The flags change neither status nor output. -/
theorem run_with_flags (abort stats : Bool) :
    (run { o with abort, stats }).status = o.run.status ∧
      (run { o with abort, stats }).output = o.run.output := by
  obtain ⟨x, hleaves, hrun⟩ := o.exists_leaves
  rw [hrun]
  cases hleaves with
  | invalidBindings h =>
      rw [run_eq (o := { o with abort, stats }) (.invalidBindings h)]
      exact ⟨rfl, rfl⟩
  | noTree h hparse =>
      rw [run_eq (o := { o with abort, stats }) (.noTree h hparse)]
      exact ⟨rfl, rfl⟩
  | noValue h hparse heval =>
      rw [run_eq (o := { o with abort, stats }) (.noValue h hparse heval)]
      exact ⟨rfl, rfl⟩
  | value h hparse heval =>
      rw [run_eq (o := { o with abort, stats }) (.value h hparse heval)]
      exact ⟨rfl, rfl⟩

variable {o}

/-! ## Marked lines -/

theorem diagnostics_mode (o : Options) :
    (report o.expression o.mode).diagnostics =
      if o.abort then (report o.expression .resync).diagnostics.take 1
      else (report o.expression .resync).diagnostics := by
  unfold mode
  split
  · exact diagnostics_abort o.expression
  · rfl

theorem errorLines_diagnosticLines (o : Options) :
    o.diagnosticLines.flatMap errorLines = o.diagnosticLines := by
  have hone : ∀ d ∈ (report o.expression o.mode).diagnostics, OneLine (toString d) := by
    intro d hd
    rw [diagnostics_mode] at hd
    split at hd
    · exact oneLine_diagnostics (List.mem_of_mem_take hd)
    · exact oneLine_diagnostics hd
  have hpieces := flatMap_errorLines_marked (List.forall_mem_map.2 hone)
  rw [List.map_map] at hpieces
  exact hpieces

theorem errorLines_counterLines (o : Options) : o.counterLines.flatMap errorLines = [] := by
  have hscanner : ∀ s, errorLines (scannerLine s) = [] := by
    intro s
    have hone := oneLine_scannerLine s
    unfold scannerLine at hone ⊢
    simp only [String.append_assoc] at hone ⊢
    exact errorLines_append_of_head? (c := 'L') hone (by simp) (by decide)
  have hrun : ∀ s, errorLines (runLine s) = [] := by
    intro s
    have hone := oneLine_runLine s
    unfold runLine at hone ⊢
    simp only [String.append_assoc] at hone ⊢
    exact errorLines_append_of_head? (c := 'P') hone (by simp) (by decide)
  unfold counterLines
  simp only
  split
  · rw [List.flatMap_cons, List.flatMap_singleton, hscanner, hrun, List.append_nil]
  · rfl

/-- The line about a tree without a value bears no mark. -/
theorem errorLines_valueLine {E : Environment} {e : Expr} {err : EvalError}
    (hparse : parse o.expression = some e) (heval : e.eval E = .error err) :
    errorLines (valueLine e err) = [] := by
  have htext : valueLine e err = "error: " ++
      ("cannot evaluate '" ++ e.text ++ "'" ++ ": " ++ err.message) := by
    unfold valueLine errorLine
    rw [String.intercalate_cons_cons, String.intercalate_singleton]
    rfl
  have hone : OneLine (valueLine e err) := by
    rw [htext]
    simp +decide [oneLine_tree hparse, oneLine_evalError hparse heval]
  rw [htext] at hone ⊢
  exact errorLines_append_of_head? (c := 'e') hone (by simp) (by decide)

/-- The line about a failure of the bindings quotes the name at fault. -/
theorem bindingsLine_cases {E : Environment} {args : List String} {failure : Failure}
    (h : E.bindArguments args = .error failure) :
    ∃ name ∈ args, (failure = .missingValue name ∨ ∃ err, failure = .invalidValue name err) ∧
      ∃ head tail, OneLine head ∧ OneLine tail ∧
        bindingsLine failure = "error: " ++ head ++ name ++ "'" ++ tail := by
  fun_induction Environment.bindArguments E args with
  | case1 => cases h
  | case2 E name =>
      cases h
      refine ⟨name, List.mem_singleton_self _, .inl rfl,
        "invalid bindings" ++ ": " ++ "no value given for '", "", by decide, by decide, ?_⟩
      unfold bindingsLine errorLine Failure.message Failure.causes
      simp only [String.intercalate_cons_cons, String.intercalate_singleton, String.append_assoc,
        String.append_empty]
      rfl
  | case3 E name value rest v hread ih =>
      -- The first pair is valid, and the fault lies behind it.
      obtain ⟨other, hmem, hfailure⟩ := ih h
      exact ⟨other, List.mem_cons_of_mem _ (List.mem_cons_of_mem _ hmem), hfailure⟩
  | case4 E name value rest err hread =>
      cases h
      have herr : OneLine err.message := by cases err <;> decide
      have hquote : "' is not a number: " = "'" ++ " is not a number: " := by decide
      refine ⟨name, List.mem_cons_self, .inr ⟨err, rfl⟩,
        "invalid bindings" ++ ": " ++ "value for '",
        " is not a number: " ++ err.message ++ ": " ++ err.message, by decide, ?_, ?_⟩
      · simp +decide [herr]
      · unfold bindingsLine errorLine Failure.message Failure.causes
        simp only [String.intercalate_cons_cons, String.intercalate_singleton, String.append_assoc,
          hquote]
        rfl

/-- Where the bindings are not valid, no line is marked but in the name at fault. -/
theorem errorLines_bindingsLine {failure : Failure}
    (h : Environment.ofArguments o.bindings = .error failure) :
    ∃ name ∈ o.bindings,
      (failure = .missingValue name ∨ ∃ err, failure = .invalidValue name err) ∧
      (errorLines o.run.errors = [] ↔ ¬ '\n' :: "[Error]".toList <:+: name.toList) := by
  obtain ⟨name, hmem, hfailure, head, tail, hhead, htail, htext⟩ := bindingsLine_cases h
  refine ⟨name, hmem, hfailure, ?_⟩
  rw [run_eq (.invalidBindings h), errorLines_unlines, List.flatMap_singleton, htext]
  exact errorLines_quoted hhead htail

/-- Where the bindings are valid, the marked lines are those about the reading. -/
theorem errorLines_run {E : Environment} (h : Environment.ofArguments o.bindings = .ok E) :
    errorLines o.run.errors = o.diagnosticLines := by
  obtain ⟨x, hleaves, hrun⟩ := o.exists_leaves
  rw [hrun]
  cases hleaves with
  | invalidBindings h' => cases h.symm.trans h'
  | noTree | value =>
      rw [errorLines_unlines, List.flatMap_append, errorLines_diagnosticLines,
        errorLines_counterLines, List.append_nil]
  | noValue h hparse heval =>
      rw [errorLines_unlines, List.flatMap_append, List.flatMap_append, errorLines_diagnosticLines,
        errorLines_counterLines, List.flatMap_singleton, errorLines_valueLine hparse heval,
        List.append_nil, List.append_nil]

/-! ## Agreement of a command with its readings -/

variable (o) in
/-- Status and output of a command say what reading and evaluation say, whatever its flags; the
marked lines are the diagnostics, and lines inside a name that is quoted. -/
theorem command_agrees :
    (o.run.status = 0 ↔
      ∃ E v, Environment.ofArguments o.bindings = .ok E ∧ evaluate o.expression E = .ok v) ∧
    (∀ E v, Environment.ofArguments o.bindings = .ok E → evaluate o.expression E = .ok v →
      'e' ∉ (positionalText v).toList ∧ Numeral.read (positionalText v).toList = .ok v ∧
        ∃ e, parse o.expression = some e ∧
          o.run.output = e.text ++ " = " ++ positionalText v ++ "\n") ∧
    (o.run.output = "Invalid arithmetic expression!\n" ↔
      (∃ E, Environment.ofArguments o.bindings = .ok E) ∧
        (report o.expression .resync).isAccepted = false) ∧
    (o.run.status ≠ 0 → o.run.output ≠ "Invalid arithmetic expression!\n" → o.run.output = "") ∧
    (o.run.status = 0 ∨ o.run.status = 1) ∧
    (∀ abort stats,
      (run { o with abort, stats }).status = o.run.status ∧
        (run { o with abort, stats }).output = o.run.output) ∧
    (∀ E, Environment.ofArguments o.bindings = .ok E →
      errorLines o.run.errors =
        (if o.abort then (report o.expression .resync).diagnostics.take 1
          else (report o.expression .resync).diagnostics).map fun d => "[Error] " ++ toString d) ∧
    ∀ failure, Environment.ofArguments o.bindings = .error failure →
      o.run.errors = errorLine ("invalid bindings" :: failure.message :: failure.causes) ++ "\n" ∧
        ∃ name ∈ o.bindings,
          (failure = .missingValue name ∨ ∃ err, failure = .invalidValue name err) ∧
          (errorLines o.run.errors = [] ↔ ¬ '\n' :: "[Error]".toList <:+: name.toList) := by
  refine ⟨o.status_eq_zero_iff, ?_, o.output_eq_remark_iff, o.output_eq_empty, o.status_run,
    o.run_with_flags, ?_, ?_⟩
  · intro E v h hvalue
    exact ⟨exponent_not_mem_positionalText v, read_positionalText v, o.output_of_evaluate h hvalue⟩
  · intro E h
    rw [errorLines_run h, diagnosticLines, diagnostics_mode]
  · intro failure h
    refine ⟨?_, errorLines_bindingsLine h⟩
    rw [run_eq (.invalidBindings h), unlines_singleton]
    rfl

def product : Options :=
  ⟨false, false, "(x + y) * x", ["x", "3", "y", "0.5"]⟩

def strayBrackets : Options :=
  ⟨true, true, "a ) )", []⟩

/-- The witness gives a product a value, and shows the first of two diagnostics. -/
theorem commands_show_value_and_first :
    product.run.status = 0 ∧ product.run.output = "(x+y)*x = 10.5\n" ∧
      strayBrackets.run.output = "Invalid arithmetic expression!\n" ∧
      errorLines strayBrackets.run.errors =
        ["[Error] syntax error: unexpected token ')' at 0:2..0:3"] ∧
      (report strayBrackets.expression .resync).diagnostics.length = 2 := by
  -- A numeral that is the text of a double is read as that double.
  have hread : ∀ {v text}, positionalText v = text → Numeral.read text.toList = .ok v := by
    rintro v _ rfl
    exact read_positionalText v
  have hbindings : Environment.ofArguments product.bindings =
      .ok (.ofList [("x", 3), ("y", 0.5)]) := by
    have hx : Numeral.read "3".toList = .ok 3 := hread (by decide +kernel)
    have hy : Numeral.read "0.5".toList = .ok 0.5 := hread (by decide +kernel)
    simp only [product, Environment.ofArguments, Environment.bindArguments, hx, hy]
    rfl
  have hparse : parse product.expression =
      some (.binary (.bracketed (.binary (.atomic (.var "x")) .add (.atomic (.var "y")))) .mul
        (.atomic (.var "x"))) := rfl
  have hvalue : evaluate product.expression (.ofList [("x", 3), ("y", 0.5)]) = .ok 10.5 := by
    rw [evaluate_of_parse hparse]
    simp only [Expr.eval_binary, Expr.eval_bracketed, Expr.eval_atomic]
    rfl
  obtain ⟨hstatus, houtput, -⟩ := command_agrees product
  obtain ⟨-, -, e, he, hshown⟩ := houtput _ _ hbindings hvalue
  cases hparse.symm.trans he
  have hdiagnostics : (report strayBrackets.expression .resync).diagnostics =
      [.unexpected ")" (some ⟨⟨0, 2⟩, ⟨0, 3⟩⟩), .unexpected ")" (some ⟨⟨0, 4⟩, ⟨0, 5⟩⟩)] := by
    decide +kernel
  have haccepted : (report strayBrackets.expression .resync).isAccepted = false := rfl
  obtain ⟨-, -, hremark, -, -, -, hmarked, -⟩ := command_agrees strayBrackets
  refine ⟨hstatus.2 ⟨_, _, hbindings, hvalue⟩, hshown.trans ?_, hremark.2 ⟨⟨_, rfl⟩, haccepted⟩, ?_,
    by rw [hdiagnostics]; rfl⟩
  · decide +kernel
  · rw [hmarked _ rfl, hdiagnostics]
    decide

/-- A name with a line end in it puts a marked line on the stream of a command that read nothing. -/
theorem quoted_name_marks_line :
    Environment.ofArguments ["x\n[Error] y"] = .error (.missingValue "x\n[Error] y") ∧
      errorLines (run ⟨false, false, "1", ["x\n[Error] y"]⟩).errors = ["[Error] y'"] := by
  refine ⟨rfl, ?_⟩
  decide +kernel

end Options

end Command

end ShiftReduce
