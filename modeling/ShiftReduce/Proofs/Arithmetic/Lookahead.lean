import ShiftReduce.Proofs.Arithmetic.Partition

/-!
# Lookahead — looking at an answer and taking it

Whoever has a scanner can look at its next answer or take it, in any order and as often as they like.
What is taken does not depend on what was looked at.  A look scans the answer early, and that is all
that can be told of it.

* `Call`, `Scanner.after`, `Scanner.taken`: what can be asked of a scanner, the scanner behind a list of
  calls, and the answers that these took.
* `Scanner.after_eq`: all that matters is how many answers were taken, and whether the last call was a
  look.
* `Scanner.AtEnd`: a scanner that has met the end marker, which it never leaves.
* `Scanner.lookahead_is_transparent`: what calls answer, and what they count.
-/

namespace ShiftReduce
namespace Arithmetic

/-- What can be asked of a scanner: to look at its next answer or to take it. -/
inductive Call
  | peek
  | consume
  deriving DecidableEq, Repr

namespace Scanner

variable {s : Scanner}

/-! ## Calls -/

def call (s : Scanner) : Call → Pull Scanner Symbol
  | .peek => s.peek
  | .consume => s.consume

def after (s : Scanner) (calls : List Call) : Scanner :=
  calls.foldl (fun s c => (s.call c).source) s

/-- The answers that a list of calls takes, from the first to the last. -/
def taken (s : Scanner) : List Call → List (Answer Symbol)
  | [] => []
  | .peek :: calls => s.peek.source.taken calls
  | .consume :: calls => s.consume.answer :: s.consume.source.taken calls

@[simp] theorem after_nil (s : Scanner) : s.after [] = s :=
  rfl

@[simp] theorem after_cons (s : Scanner) (c : Call) (calls : List Call) :
    s.after (c :: calls) = (s.call c).source.after calls :=
  rfl

theorem after_append (s : Scanner) (calls calls' : List Call) :
    s.after (calls ++ calls') = (s.after calls).after calls' :=
  List.foldl_append

theorem after_concat (s : Scanner) (calls : List Call) (c : Call) :
    s.after (calls ++ [c]) = ((s.after calls).call c).source :=
  s.after_append calls [c]

/-! ## Looks -/

/-- A look shows what would be taken. -/
@[simp] theorem answer_peek (s : Scanner) : s.peek.answer = s.consume.answer := by
  cases h : s.pending <;> simp only [peek, consume, h]

@[simp] theorem answer_consume_peek (s : Scanner) :
    s.peek.source.consume.answer = s.consume.answer := by
  cases h : s.pending <;> simp only [peek, consume, h]

/-- A second look leaves things as they are. -/
@[simp] theorem peek_peek (s : Scanner) : s.peek.source.peek.source = s.peek.source := by
  cases h : s.pending <;> simp only [peek, h]

/-- Who takes an answer is as far as if they had not looked at it. -/
@[simp] theorem consume_peek (s : Scanner) : s.peek.source.consume.source = s.consume.source := by
  cases h : s.pending with
  | some answer => simp only [peek, h]
  | none =>
      have hpending : s.scan.scanner.pending = none := (pending_scan s).trans h
      simp only [peek, consume, h]
      rw [← hpending]

/-- A look counts what is looked at as if it were taken. -/
theorem stats_peek (s : Scanner) : s.peek.source.stats = s.consume.source.stats := by
  cases h : s.pending <;> simp only [peek, consume, h]

theorem isSome_pending_peek (s : Scanner) : s.peek.source.pending.isSome = true := by
  cases h : s.pending <;> simp [peek, h]

/-! ## Lists of calls -/

/-- What is taken is the same after a look. -/
theorem taken_peek (s : Scanner) (calls : List Call) :
    s.peek.source.taken calls = s.taken calls := by
  cases calls with
  | nil => rfl
  | cons c calls =>
      cases c with
      | peek => simp only [taken, peek_peek]
      | consume => simp only [taken, answer_consume_peek, consume_peek]

/-- Looks can be left out. -/
theorem taken_filter (s : Scanner) (calls : List Call) :
    s.taken (calls.filter (· = .consume)) = s.taken calls := by
  induction calls generalizing s with
  | nil => rfl
  | cons c calls ih =>
      cases c with
      | peek =>
          rw [List.filter_cons_of_neg (by decide), ih, taken, taken_peek]
      | consume =>
          rw [List.filter_cons_of_pos (by decide), taken, taken, ih]

/-- The scanner from which `n` answers have been taken and none was looked at. -/
def drawn (s : Scanner) (n : Nat) : Scanner :=
  s.after (List.replicate n .consume)

@[simp] theorem drawn_succ (s : Scanner) (n : Nat) :
    s.drawn (n + 1) = (s.drawn n).consume.source := by
  rw [drawn, List.replicate_succ', after_concat]
  rfl

theorem pending_drawn (h : s.pending = none) (n : Nat) : (s.drawn n).pending = none := by
  cases n with
  | zero => exact h
  | succ n => rw [drawn_succ, pending_consume]

/-- A list of calls leaves the scanner from which as many answers have been taken, looked at once if the
last call was a look. -/
theorem after_eq (s : Scanner) (calls : List Call) :
    s.after calls = if calls.getLast? = some .peek then (s.drawn (calls.count .consume)).peek.source
      else s.drawn (calls.count .consume) := by
  -- One more call is made on a scanner that has been looked at, or on one that has not.
  induction calls using List.reverseRecOn with
  | nil => rfl
  | append_singleton calls c ih =>
      rw [after_concat, ih]
      cases c with
      | peek =>
          have hcount : (calls ++ [Call.peek]).count .consume = calls.count .consume := by simp
          simp only [List.getLast?_concat, if_true, hcount, call]
          split
          · exact peek_peek _
          · rfl
      | consume =>
          have hcount : (calls ++ [Call.consume]).count .consume = calls.count .consume + 1 := by
            simp
          simp only [List.getLast?_concat, Option.some.injEq, reduceCtorEq, if_false, hcount, call,
            drawn_succ]
          split
          · exact consume_peek _
          · rfl

/-- What is taken next, and what is left of it, does not depend on looks. -/
theorem answer_consume_after (s : Scanner) (calls : List Call) :
    (s.after calls).consume.answer = (s.drawn (calls.count .consume)).consume.answer := by
  rw [after_eq]
  split
  · exact answer_consume_peek _
  · rfl

theorem source_consume_after (s : Scanner) (calls : List Call) :
    (s.after calls).consume.source = (s.drawn (calls.count .consume)).consume.source := by
  rw [after_eq]
  split
  · exact consume_peek _
  · rfl

theorem answer_call (s : Scanner) (c : Call) : (s.call c).answer = s.consume.answer := by
  cases c with
  | peek => exact s.answer_peek
  | consume => rfl

/-- However it is asked, a scanner answers the same behind a number of looks. -/
theorem answer_call_looks (s : Scanner) (n : Nat) (c : Call) :
    ((s.after (List.replicate n .peek)).call c).answer = s.peek.answer := by
  induction n generalizing s with
  | zero => rw [List.replicate_zero, after_nil, answer_call, answer_peek]
  | succ n ih =>
      rw [List.replicate_succ, after_cons, ih, call, answer_peek, answer_consume_peek, answer_peek]

/-- What has been counted is what would have been counted if each answer had been taken that was scanned
for a call. -/
theorem stats_after (hpending : s.pending = none) (calls : List Call) :
    (s.after calls).stats =
      (s.drawn (calls.count .consume + (s.after calls).pending.isSome.toNat)).stats := by
  rw [after_eq]
  split
  · rw [isSome_pending_peek, Bool.toNat_true, drawn_succ, stats_peek]
  · rw [pending_drawn hpending]
    rfl

/-- An answer is pending if and only if the last call was a look. -/
theorem isSome_pending_after (hpending : s.pending = none) (calls : List Call) :
    (s.after calls).pending.isSome = true ↔ calls.getLast? = some .peek := by
  rw [after_eq]
  split
  · rename_i hlast
    simp only [isSome_pending_peek, hlast]
  · rename_i hlast
    simp [pending_drawn hpending, hlast]

/-! ## The end -/

/-- The scanner stands behind the last character of its text, at `place`, and has read `chars`
characters.  If an answer is pending, it is the end marker. -/
structure AtEnd (s : Scanner) (place : Position) (chars : Nat) : Prop where
  rest : s.rest = []
  position : s.cursor.position = place
  chars : s.stats.chars = chars
  pending : ∀ answer, s.pending = some answer → answer = .ok ⟨.endMark, some (.empty place)⟩

variable {place : Position} {chars : Nat}

theorem AtEnd.scan (h : s.AtEnd place chars) :
    s.scan.answer = .ok ⟨.endMark, some (.empty place)⟩ ∧ s.scan.scanner.AtEnd place chars := by
  have hrest : s.skipBlanks.rest = [] := by simp [skipBlanks, read, h.rest]
  have hposition : s.skipBlanks.cursor.position = place := by
    simpa [skipBlanks, read, h.rest, Cursor.begin, Cursor.position, Span.empty] using h.position
  have hchars : s.skipBlanks.stats.chars = chars := by
    simpa [skipBlanks, read, h.rest] using h.chars
  unfold Scanner.scan
  simp only [hrest]
  exact ⟨by rw [hposition], hrest, hposition, hchars, h.pending⟩

/-- At the end every call answers with the end marker, and reads nothing. -/
theorem AtEnd.call (h : s.AtEnd place chars) (c : Call) :
    (s.call c).answer = .ok (some ⟨.endMark, some (.empty place)⟩) ∧
      (s.call c).source.AtEnd place chars := by
  obtain ⟨hanswer, hscan⟩ := h.scan
  cases hpending : s.pending with
  | some answer =>
      obtain rfl := h.pending answer hpending
      cases c with
      | peek =>
          simp only [Scanner.call, peek, hpending]
          exact ⟨rfl, h⟩
      | consume =>
          simp only [Scanner.call, consume, hpending]
          exact ⟨rfl, h.rest, h.position, h.chars, fun _ hnone => nomatch hnone⟩
  | none =>
      cases c with
      | peek =>
          simp only [Scanner.call, peek, hpending, hanswer]
          exact ⟨rfl, hscan.rest, hscan.position, hscan.chars,
            fun _ hsome => (Option.some.inj hsome).symm⟩
      | consume =>
          simp only [Scanner.call, consume, hpending, hanswer]
          exact ⟨rfl, hscan⟩

theorem AtEnd.after (h : s.AtEnd place chars) (calls : List Call) :
    (s.after calls).AtEnd place chars := by
  induction calls generalizing s with
  | nil => exact h
  | cons c calls ih => exact ih (h.call c).2

/-- Who meets the end marker is at the end. -/
theorem atEnd_of_scan {t : Token Symbol} (hpending : s.pending = none)
    (h : s.scan.answer = .ok t) (hend : t.symbol.isEnd = true) :
    ∃ place, t = ⟨.endMark, some (.empty place)⟩ ∧
      s.scan.scanner.AtEnd place s.scan.scanner.stats.chars := by
  cases hskip : s.rest.dropWhile isBlank with
  | nil =>
      have hrest : s.skipBlanks.rest = [] := hskip
      revert h
      unfold Scanner.scan
      simp only [hrest]
      intro h
      refine ⟨_, (Except.ok.inj h).symm, hrest, rfl, rfl, ?_⟩
      intro answer hanswer
      cases hpending.symm.trans hanswer
  | cons c rest =>
      -- What a lexeme stands for is no end marker.
      cases hclassify : Lexeme.classify (Lexeme.split c rest).1 with
      | none =>
          obtain ⟨d, hanswer⟩ := scan_of_unclassified hskip hclassify
          cases hanswer.symm.trans h
      | some symbol =>
          obtain ⟨span, hanswer, -⟩ := scan_of_classify hskip hclassify
          cases hanswer.symm.trans h
          cases (Lexeme.classified_of_classify hclassify).isInput.2.symm.trans hend

theorem atEnd_of_consume {t : Token Symbol} (hpending : s.pending = none)
    (h : s.consume.answer = .ok (some t)) (hend : t.symbol.isEnd = true) :
    ∃ place, t = ⟨.endMark, some (.empty place)⟩ ∧
      s.consume.source.AtEnd place s.consume.source.stats.chars := by
  rw [consume_of_none hpending] at h ⊢
  cases hscan : s.scan.answer with
  | error d =>
      rw [hscan] at h
      cases h
  | ok u =>
      rw [hscan] at h
      cases h
      exact atEnd_of_scan hpending hscan hend

/-! ## Texts -/

/-- Looking ahead changes nothing of what is taken, and shows it; behind the end marker nothing
changes any more. -/
theorem lookahead_is_transparent (text : String) (calls : List Call) :
    (ofString text).taken calls = (ofString text).taken (calls.filter (· = .consume)) ∧
    (∀ n c, (((ofString text).after (calls ++ List.replicate n Call.peek)).call c).answer =
      ((ofString text).after calls).peek.answer) ∧
    ((ofString text).after calls).stats =
      ((ofString text).after (List.replicate (calls.count .consume +
        ((ofString text).after calls).pending.isSome.toNat) .consume)).stats ∧
    (((ofString text).after calls).pending.isSome = true ↔ calls.getLast? = some .peek) ∧
    ∀ t : Token Symbol, t.symbol.isEnd = true →
      ((ofString text).after calls).consume.answer = .ok (some t) → ∀ later c,
        (((ofString text).after (calls ++ Call.consume :: later)).call c).answer = .ok (some t) ∧
        ((ofString text).after (calls ++ Call.consume :: later)).stats.chars =
          ((ofString text).after (calls ++ [Call.consume])).stats.chars := by
  have hpending : (ofString text).pending = none := rfl
  refine ⟨(taken_filter _ calls).symm, ?_, stats_after hpending calls,
    isSome_pending_after hpending calls, ?_⟩
  · intro n c
    rw [after_append, answer_call_looks]
  · intro t hend hanswer later c
    rw [answer_consume_after] at hanswer
    obtain ⟨place, rfl, hatEnd⟩ :=
      atEnd_of_consume (pending_drawn hpending _) hanswer hend
    have hlater := hatEnd.after later
    rw [after_concat, after_append, after_cons, call, source_consume_after]
    exact ⟨(hlater.call c).1, hlater.chars⟩

/-- The witness reads `a` and a newline, and goes on asking at the end. -/
theorem lookahead_behind_newline :
    ((ofString "a\n").after [.peek, .consume]).consume.answer =
      .ok (some ⟨.endMark, some (.empty ⟨1, 0⟩)⟩) ∧
    (((ofString "a\n").after
      ([Call.peek, Call.consume] ++ Call.consume :: [Call.peek, Call.peek])).call .consume).answer =
        .ok (some ⟨.endMark, some (.empty ⟨1, 0⟩)⟩) ∧
    ((ofString "a\n").after
      ([Call.peek, Call.consume] ++ Call.consume :: [Call.peek, Call.peek])).stats.chars = 2 := by
  have hanswer : ((ofString "a\n").after [.peek, .consume]).consume.answer =
      .ok (some ⟨.endMark, some (.empty ⟨1, 0⟩)⟩) := rfl
  have hchars : ((ofString "a\n").after
      ([Call.peek, Call.consume] ++ [Call.consume])).stats.chars = 2 := by decide +kernel
  have hlater := (lookahead_is_transparent "a\n" [.peek, .consume]).2.2.2.2 _ rfl hanswer
    [.peek, .peek] .consume
  exact ⟨hanswer, hlater.1, hlater.2.trans hchars⟩

end Scanner

end Arithmetic
end ShiftReduce
