import ShiftReduce.Proofs.Arithmetic.Canonical
import ShiftReduce.Proofs.Arithmetic.OnDemand

/-!
# Numerals — a number is written as one lexeme

A run that is led by a letter or a digit is scanned as a whole, and the text of a number without a sign
is such a run: a large number has an exponent, but that has no sign either, and a small one has none.
So the text is one lexeme, and its value is the double that was written.

* `scanned_run`: a text that is a single run.
* `Atom.exists_digits`: the text of a finite number without a sign.
* `number_survives_rendering`: what a scanner answers on that text.
-/

namespace ShiftReduce
namespace Arithmetic

/-! ## Single runs -/

theorem Lexeme.split_run {c : Char} {run : List Char} (hc : c.isAlphanum = true)
    (hrun : ∀ x ∈ run, isRunChar x = true) : Lexeme.split c run = (c :: run, []) := by
  have htake := takeWhile_append_of_stop hrun (stops_nil isRunChar)
  have hdrop := dropWhile_append_of_stop hrun (stops_nil isRunChar)
  rw [List.append_nil] at htake hdrop
  rw [split, if_pos hc, htake, hdrop]

/-- A text that is a single run has this for its only lexeme. -/
theorem occurrences_run {c : Char} {run : List Char} (hc : c.isAlphanum = true)
    (hrun : ∀ x ∈ run, isRunChar x = true) :
    occurrences [] (c :: run) = [⟨.following [] (c :: run), Lexeme.classify (c :: run)⟩] := by
  have hblank : isBlank c = false := isBlank_of_isRunChar (by simp [isRunChar, hc])
  have hskip : (c :: run).dropWhile isBlank = c :: run := by simp [hblank]
  have hfront : (c :: run).takeWhile isBlank = [] := by simp [hblank]
  rw [occurrences_cons [] hskip, Lexeme.split_run hc hrun, hfront, occurrences_nil _ rfl]
  rfl

/-- A single run that has a symbol is answered with that symbol, from the start of the text to its end,
and then with the end marker. -/
theorem scanned_run {text : String} {c : Char} {run : List Char} {s : Symbol}
    (htext : text.toList = c :: run) (hc : c.isAlphanum = true)
    (hrun : ∀ x ∈ run, isRunChar x = true) (hclassify : Lexeme.classify (c :: run) = some s) :
    scanned text = tokenAnswers [⟨s, some ⟨{}, .behind text.toList⟩⟩,
      ⟨.endMark, some (.empty (.behind text.toList))⟩] := by
  have hspan : Interval.span (.following [] (c :: run)) (c :: run) =
      ⟨.behind [], .behind (c :: run)⟩ := by
    simpa using Interval.span_following [] (c :: run) []
  have hdrain := (Scanner.behind_ofList text.toList).drain_eq
  have hoccurrences : occurrences [] (Scanner.ofList text.toList).rest =
      [⟨.following [] (c :: run), some s⟩] := by
    rw [← hclassify, ← occurrences_run hc hrun, ← htext]
    rfl
  rw [hoccurrences] at hdrain
  have hanswers : scanned text =
      (Occurrence.draws text.toList 0 [⟨.following [] (c :: run), some s⟩]).map Draw.answer :=
    congrArg (List.map Draw.answer) hdrain
  rw [hanswers, htext]
  simp only [Occurrence.draws, List.map_cons, List.map_nil, Occurrence.answer, hspan]
  rfl

/-! ## Numbers -/

/-- The text of a finite number without a sign is a run led by a digit, which stands for the number. -/
theorem Atom.exists_digits {v : Float} (hfinite : v.isFinite = true)
    (hsign : v.toBits.toNat < 2 ^ 63) :
    ∃ c run, (Atom.number v).text.toList = c :: run ∧ c.isDigit = true ∧
      (∀ x ∈ run, isRunChar x = true) ∧ Lexeme.classify (c :: run) = some (.number v) := by
  have hreadable := ((Atom.canonical_iff (.number v)).1 ⟨hfinite, hsign⟩).1
  obtain ⟨c, run, htext, hc, hrun, hclassify⟩ := Atom.exists_run hreadable
  rw [Atom.reread, if_pos hfinite] at hclassify
  refine ⟨c, run, htext, ?_, hrun, hclassify⟩
  -- What a letter leads is a name.
  have halpha : c.isAlpha = false := by
    refine Bool.eq_false_iff.2 fun halpha => ?_
    rw [Lexeme.classify, if_pos halpha] at hclassify
    cases hclassify
  simpa [Char.isAlphanum, halpha] using hc

/-- The text of a finite number without a sign is a numeral that is scanned as the same double. -/
theorem number_survives_rendering (v : Float) (hfinite : v.isFinite = true)
    (hsign : v.toBits.toNat < 2 ^ 63) :
    (∃ c run, (Atom.number v).text.toList = c :: run ∧ c.isDigit = true ∧
      ∀ x ∈ run, x.isAlphanum = true ∨ x = '.') ∧
    scanned (Atom.number v).text =
      tokenAnswers [⟨.number v, some ⟨{}, .behind (Atom.number v).text.toList⟩⟩,
        ⟨.endMark, some (.empty (.behind (Atom.number v).text.toList))⟩] := by
  obtain ⟨c, run, htext, hc, hrun, hclassify⟩ := Atom.exists_digits hfinite hsign
  refine ⟨⟨c, run, htext, hc, fun x hx => ?_⟩, ?_⟩
  · simpa [isRunChar] using hrun x hx
  · exact scanned_run htext (by simp [Char.isAlphanum, hc]) hrun hclassify

/-- A small number, which is written without an exponent, and the first that is written with one. -/
theorem rendering_with_and_without_exponent :
    ((Atom.number 1e-7).text = "0.0000001" ∧
      scanned "0.0000001" = tokenAnswers [⟨.number 1e-7, some ⟨{}, ⟨0, 9⟩⟩⟩,
        ⟨.endMark, some (.empty ⟨0, 9⟩)⟩]) ∧
    (Atom.number 1e16).text = "1e16" ∧
      scanned "1e16" = tokenAnswers [⟨.number 1e16, some ⟨{}, ⟨0, 4⟩⟩⟩,
        ⟨.endMark, some (.empty ⟨0, 4⟩)⟩] := by
  have hsmall : (Atom.number 1e-7).text = "0.0000001" := by decide +kernel
  have hlarge : (Atom.number 1e16).text = "1e16" := by decide +kernel
  have hplain := (number_survives_rendering 1e-7 (by decide +kernel) (by decide +kernel)).2
  have hexponent := (number_survives_rendering 1e16 (by decide +kernel) (by decide +kernel)).2
  rw [hsmall] at hplain
  rw [hlarge] at hexponent
  exact ⟨⟨hsmall, hplain⟩, hlarge, hexponent⟩

end Arithmetic
end ShiftReduce
