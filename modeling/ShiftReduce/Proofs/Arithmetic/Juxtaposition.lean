import ShiftReduce.Proofs.Arithmetic.Partition
import ShiftReduce.Proofs.Arithmetic.Spelling

/-!
# Juxtaposition — texts side by side

What a text is read as depends on what stands next to it only where a run could go on from one to the
other.  A bracket or an operator in between rules that out, and so texts can be put together as trees are.

* `occurrences_append`, `lexemes_append`: the lexemes of a text that is cut.
* `Lexes.append`, `Lexes.binary`, `Lexes.bracketed`: the symbols of texts that are put together.
* `brackets_compose`: the tree and the value of an operation on two bracketed texts.
-/

namespace ShiftReduce
namespace Arithmetic

/-! ## Runs that end at a cut -/

theorem stops_of_append {p : Char → Bool} {cs ds : List Char} (h : Stops p (cs ++ ds)) :
    Stops p cs := by
  intro c rest hcs
  exact h c (rest ++ ds) (by simp [hcs])

/-- What is put behind a text does not lengthen its first run if it does not go on with one, or if that
run is over before. -/
theorem takeWhile_append_of_cut {p : Char → Bool} {cs ds : List Char}
    (h : Stops p ds ∨ ∃ c ∈ cs, p c = false) :
    (cs ++ ds).takeWhile p = cs.takeWhile p ∧ (cs ++ ds).dropWhile p = cs.dropWhile p ++ ds := by
  by_cases hall : ∀ c ∈ cs, p c = true
  · have hstop : Stops p ds := by
      rcases h with hstop | ⟨c, hc, hfalse⟩
      · exact hstop
      · cases hfalse.symm.trans (hall c hc)
    have htake : cs.takeWhile p = cs := by
      simpa using takeWhile_append_of_stop hall (stops_nil p)
    have hdrop : cs.dropWhile p = [] := by
      simpa using dropWhile_append_of_stop hall (stops_nil p)
    rw [takeWhile_append_of_stop hall hstop, dropWhile_append_of_stop hall hstop, htake, hdrop]
    exact ⟨rfl, rfl⟩
  · have hdrop : cs.dropWhile p ≠ [] := fun hnil => hall (List.dropWhile_eq_nil_iff.1 hnil)
    have htake : (cs.takeWhile p).length ≠ cs.length := by
      intro hlength
      have hsplit := congrArg List.length (List.takeWhile_append_dropWhile (p := p) (l := cs))
      rw [List.length_append, hlength] at hsplit
      exact hdrop (List.length_eq_zero_iff.1 (by omega))
    constructor
    · simp [List.takeWhile_append, htake]
    · simp [List.dropWhile_append, hdrop]

/-! ## Lexemes on both sides of a cut -/

/-- The first lexeme of a text ends in front of what is put behind the text, unless a run goes on. -/
theorem Lexeme.split_append_of_cut {c : Char} {rest tail : List Char}
    (h : Stops isRunChar (c :: rest).reverse ∨ Stops isRunChar tail) :
    split c (rest ++ tail) = ((split c rest).1, (split c rest).2 ++ tail) := by
  unfold split
  split
  · rename_i hc
    have hcut : Stops isRunChar tail ∨ ∃ x ∈ rest, isRunChar x = false := by
      rcases h with hlast | hstop
      · -- The last character of the text goes on with no run, so it is not the first.
        obtain ⟨x, xs, hx⟩ := List.exists_cons_of_ne_nil (l := (c :: rest).reverse) (by simp)
        have hfalse := hlast x xs hx
        have hmem : x ∈ c :: rest := List.mem_reverse.1 (by simp [hx])
        rcases List.mem_cons.1 hmem with rfl | hmem
        · simp [isRunChar, hc] at hfalse
        · exact .inr ⟨x, hmem, hfalse⟩
      · exact .inl hstop
    obtain ⟨htake, hdrop⟩ := takeWhile_append_of_cut hcut
    rw [htake, hdrop]
  · rfl

theorem occurrences_blanks {blanks : List Char} (hblanks : ∀ c ∈ blanks, isBlank c = true)
    (before tail : List Char) :
    occurrences before (blanks ++ tail) = occurrences (before ++ blanks) tail := by
  have hdrop : (blanks ++ tail).dropWhile isBlank = tail.dropWhile isBlank :=
    List.dropWhile_append_of_pos hblanks
  have htake : (blanks ++ tail).takeWhile isBlank = blanks ++ tail.takeWhile isBlank :=
    List.takeWhile_append_of_pos hblanks
  cases hskip : tail.dropWhile isBlank with
  | nil => rw [occurrences_nil _ (hdrop.trans hskip), occurrences_nil _ hskip]
  | cons c rest =>
      rw [occurrences_cons _ (hdrop.trans hskip), occurrences_cons _ hskip, htake]
      simp only [List.append_assoc]

/-- The lexemes of a text that is cut are those on both sides, where they lie, unless the cut goes
through a run. -/
theorem occurrences_append (before cs tail : List Char)
    (h : Stops isRunChar cs.reverse ∨ Stops isRunChar tail) :
    occurrences before (cs ++ tail) = occurrences before cs ++ occurrences (before ++ cs) tail := by
  fun_induction occurrences before cs with
  | case1 before cs hskip => exact occurrences_blanks (List.dropWhile_eq_nil_iff.1 hskip) before tail
  | case2 before cs c rest hskip ih =>
      have hskip' : (cs ++ tail).dropWhile isBlank = c :: (rest ++ tail) := by
        simp [List.dropWhile_append, hskip]
      have hblanks : (cs ++ tail).takeWhile isBlank = cs.takeWhile isBlank := by
        have hwhole := List.takeWhile_append_dropWhile (p := isBlank) (l := cs ++ tail)
        rw [hskip', ← List.cons_append, ← hskip, ← List.append_assoc] at hwhole
        have hcs := List.append_cancel_right hwhole
        exact List.append_cancel_right (hcs.trans List.takeWhile_append_dropWhile.symm)
      have hwhole : cs.reverse = (c :: rest).reverse ++ (cs.takeWhile isBlank).reverse := by
        rw [← List.reverse_append, ← hskip, List.takeWhile_append_dropWhile]
      have hsplit := (Lexeme.split_append c rest).symm
      have hfront : Stops isRunChar (c :: rest).reverse ∨ Stops isRunChar tail :=
        h.imp_left fun hlast => stops_of_append (hwhole ▸ hlast)
      have hrest : Stops isRunChar (Lexeme.split c rest).2.reverse ∨ Stops isRunChar tail := by
        refine hfront.imp_left fun hlast => ?_
        rw [hsplit, List.reverse_append] at hlast
        exact stops_of_append hlast
      rw [occurrences_cons before hskip', Lexeme.split_append_of_cut hfront, hblanks, ih hrest,
        ← Lexeme.append_behind_of_skip before hskip, List.cons_append]

/-- The lexemes in their places have the characters of the lexemes. -/
theorem map_characters_occurrences (before cs tail : List Char) :
    (occurrences before cs).map (fun o => o.characters (before ++ cs ++ tail)) = lexemes cs := by
  fun_induction occurrences before cs with
  | case1 before cs hskip => rw [lexemes_nil hskip, List.map_nil]
  | case2 before cs c rest hskip ih =>
      rw [lexemes_cons hskip, List.map_cons, ← ih, ← Lexeme.append_behind_of_skip before hskip]
      refine congrArg (· :: _) ?_
      rw [Lexeme.append_behind_of_skip before hskip, List.append_assoc _ _ tail,
        Interval.characters_following]

theorem map_symbol_occurrences (before cs : List Char) :
    (occurrences before cs).map Occurrence.symbol? = (lexemes cs).map Lexeme.classify := by
  fun_induction occurrences before cs with
  | case1 before cs hskip => rw [lexemes_nil hskip, List.map_nil, List.map_nil]
  | case2 before cs c rest hskip ih => rw [lexemes_cons hskip, List.map_cons, List.map_cons, ih]

theorem lexemes_append (before tail : List Char)
    (h : Stops isRunChar before.reverse ∨ Stops isRunChar tail) :
    lexemes (before ++ tail) = lexemes before ++ lexemes tail := by
  have hwhole := map_characters_occurrences [] (before ++ tail) []
  have hfront := map_characters_occurrences [] before tail
  have hbehind := map_characters_occurrences before tail []
  simp only [List.nil_append, List.append_nil] at hwhole hfront hbehind
  rw [← hwhole, occurrences_append [] before tail h, List.map_append, hfront, List.nil_append,
    hbehind]

/-! ## Symbols of texts that are put together -/

section

variable {cs ds : List Char} {ss ts : List Symbol}

/-- The symbols of a text are what its lexemes are classified as. -/
theorem lexes_iff : Lexes cs ss ↔ (lexemes cs).map Lexeme.classify = ss.map some := by
  refine ⟨fun h => h.map_lexemes.1, fun h => ?_⟩
  fun_induction lexemes cs generalizing ss with
  | case1 cs hskip =>
      obtain rfl : ss = [] := by simpa using h.symm
      exact .done hskip
  | case2 cs c rest hskip ih =>
      obtain ⟨s, ss, rfl, hclassify, htail⟩ := List.map_eq_cons_iff.1 h.symm
      exact .lexeme hskip hclassify.symm (ih htail.symm)

theorem Lexes.append (hcs : Lexes cs ss) (hds : Lexes ds ts)
    (hcut : Stops isRunChar cs.reverse ∨ Stops isRunChar ds) : Lexes (cs ++ ds) (ss ++ ts) := by
  rw [lexes_iff] at hcs hds ⊢
  rw [lexemes_append cs ds hcut, List.map_append, List.map_append, hcs, hds]

theorem Lexes.operator (op : Operator) (h : Lexes cs ss) :
    Lexes (op.toChar :: cs) (.operator op :: ss) := by
  cases op <;> exact lexes_mark rfl rfl rfl h

/-- An operator between two texts. -/
theorem Lexes.binary {left right : Expr} (hcs : Lexes cs left.symbols) (op : Operator)
    (hds : Lexes ds right.symbols) :
    Lexes (cs ++ op.toChar :: ds) (Expr.binary left op right).symbols := by
  refine hcs.append (hds.operator op) (.inr (stops_cons ?_ ds))
  cases op <;> rfl

/-- Brackets around a text. -/
theorem Lexes.bracketed {inner : Expr} (h : Lexes cs inner.symbols) :
    Lexes ('(' :: (cs ++ [')'])) (Expr.bracketed inner).symbols := by
  have hclosing : Lexes [')'] [.bracket .closing] := lexes_mark rfl rfl rfl (.done rfl)
  exact lexes_mark rfl rfl rfl (h.append hclosing (.inr (stops_cons rfl [])))

end

/-! ## Operations on bracketed texts -/

/-- Texts in brackets compose: the tree is that of the operation, and the value too, unless one of
the texts has none; the first that has none tells why. -/
theorem brackets_compose {a b : String} {ta tb : Expr} (ha : parse a = some ta)
    (hb : parse b = some tb) (op : Operator) (E : Environment) :
    parse ("(" ++ a ++ ")" ++ op.text ++ "(" ++ b ++ ")") =
        some (.binary (.bracketed ta) op (.bracketed tb)) ∧
      evaluate ("(" ++ a ++ ")" ++ op.text ++ "(" ++ b ++ ")") E = do
        let x ← evaluate a E
        let y ← evaluate b E
        match op with
        | .add => return x + y
        | .sub => return x - y
        | .mul => return x * y
        | .div => return x / y := by
  obtain ⟨hlexes, hfits⟩ := parse_eq_some_iff.1 ha
  obtain ⟨hlexes', hfits'⟩ := parse_eq_some_iff.1 hb
  have htext : ("(" ++ a ++ ")" ++ op.text ++ "(" ++ b ++ ")").toList =
      '(' :: (a.toList ++ [')']) ++ op.toChar :: '(' :: (b.toList ++ [')']) := by
    simp [Operator.text]
  have htree : parse ("(" ++ a ++ ")" ++ op.text ++ "(" ++ b ++ ")") =
      some (.binary (.bracketed ta) op (.bracketed tb)) := by
    refine parse_eq_some_iff.2 ⟨?_, op.one_le_precedence, hfits, hfits'⟩
    rw [htext]
    exact hlexes.bracketed.binary op hlexes'.bracketed
  refine ⟨htree, ?_⟩
  rw [evaluate_of_parse htree, evaluate_of_parse ha, evaluate_of_parse hb, Expr.eval_binary,
    Expr.eval_bracketed, Expr.eval_bracketed]
  cases ta.eval E with
  | error err => rfl
  | ok x =>
      cases tb.eval E with
      | error err => rfl
      | ok y => cases op <;> rfl

/-- The witness puts a sum on two lines and a variable together, which is unbound and then bound. -/
theorem brackets_compose_two_lines :
    parse "x\n+ y" = some (.binary (.atomic (.var "x")) .add (.atomic (.var "y"))) ∧
      parse " z" = some (.atomic (.var "z")) ∧
      parse "(x\n+ y)-( z)" =
        some (.binary (.bracketed (.binary (.atomic (.var "x")) .add (.atomic (.var "y")))) .sub
          (.bracketed (.atomic (.var "z")))) ∧
      evaluate "(x\n+ y)-( z)" (.ofList [("x", 1), ("y", 2)]) = .error (.eval (.unbound "z")) ∧
      evaluate "(x\n+ y)-( z)" (.ofList [("x", 1), ("y", 2), ("z", 0.5)]) = .ok 2.5 := by
  have hsum : parse "x\n+ y" = some (.binary (.atomic (.var "x")) .add (.atomic (.var "y"))) := rfl
  have hvar : parse " z" = some (.atomic (.var "z")) := rfl
  have htext : "(" ++ "x\n+ y" ++ ")" ++ Operator.sub.text ++ "(" ++ " z" ++ ")" = "(x\n+ y)-( z)" := by
    decide
  have hunbound := brackets_compose hsum hvar .sub (.ofList [("x", 1), ("y", 2)])
  have hbound := brackets_compose hsum hvar .sub (.ofList [("x", 1), ("y", 2), ("z", 0.5)])
  rw [htext, evaluate_of_parse hsum, evaluate_of_parse hvar] at hunbound hbound
  simp only [Expr.eval_binary, Expr.eval_atomic] at hunbound hbound
  exact ⟨hsum, hvar, hunbound.1, hunbound.2.trans rfl, hbound.2.trans rfl⟩

end Arithmetic
end ShiftReduce
