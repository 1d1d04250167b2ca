import ShiftReduce.Proofs.Arithmetic.Consistency
import ShiftReduce.Proofs.Text.Place

/-!
# Partition — the lexemes of a text in their places

A scanner that is emptied answers once for each lexeme of its text and then with the end marker.  The
lexemes lie in the text one behind the other with nothing but blanks around them, and each is decided
by its first character.

* `Lexeme.Rule`: what a lexeme stands for, as its first character decides.
* `Occurrence`, `Occurrence.Tiling`: lexemes in their places, and that they cover a text.
* `occurrences`, `tiling_occurrences`: the lexemes of a text in their places, which cover it.
* `Scanner.drain`: what a scanner answers up to the first end marker.
* `Scanner.drain_partitions_text`: these answers are those on the lexemes of the text.
-/

namespace ShiftReduce
namespace Arithmetic

/-! ## Lexemes -/

namespace Lexeme

/-- What a lexeme in front of `rest` stands for, if it stands for anything.  One that is led by a
letter or a digit is as long as it can be; any other is a single character. -/
inductive Rule (rest : List Char) : List Char → Option Symbol → Prop
  | name {c : Char} {run : List Char} (hc : c.isAlpha = true)
      (hrun : ∀ x ∈ run, isRunChar x = true) (hstop : Stops isRunChar rest) :
      Rule rest (c :: run) (some (.var (.ofList (c :: run))))
  | numeral {c : Char} {run : List Char} {value : Float} (hc : c.isDigit = true)
      (hrun : ∀ x ∈ run, isRunChar x = true) (hstop : Stops isRunChar rest)
      (hread : Numeral.read (c :: run) = .ok value) : Rule rest (c :: run) (some (.number value))
  | malformed {c : Char} {run : List Char} {error : NumeralError} (hc : c.isDigit = true)
      (hrun : ∀ x ∈ run, isRunChar x = true) (hstop : Stops isRunChar rest)
      (hread : Numeral.read (c :: run) = .error error) : Rule rest (c :: run) none
  | bracket (b : Bracket) : Rule rest [b.toChar] (some (.bracket b))
  | operator (op : Operator) : Rule rest [op.toChar] (some (.operator op))
  | unknown {c : Char} (hblank : isBlank c = false) (hrun : c.isAlphanum = false)
      (hbracket : ∀ b : Bracket, c ≠ b.toChar) (hoperator : ∀ op : Operator, c ≠ op.toChar) :
      Rule rest [c] none

variable {cs : List Char} {c : Char} {rest : List Char}

/-- A text is its leading blanks, its first lexeme and what is behind that. -/
theorem append_of_skip (h : cs.dropWhile isBlank = c :: rest) :
    cs = cs.takeWhile isBlank ++ (split c rest).1 ++ (split c rest).2 := by
  rw [List.append_assoc, split_append, ← h, List.takeWhile_append_dropWhile]

/-- Behind a lexeme that is led by a letter or a digit the run is over. -/
theorem stops_split (hc : c.isAlphanum = true) (rest : List Char) :
    Stops isRunChar (split c rest).2 := by
  rw [split, if_pos hc]
  intro x xs hx
  have hhead := List.head?_dropWhile_not isRunChar rest
  rw [show rest.dropWhile isRunChar = x :: xs from hx] at hhead
  exact hhead

theorem rule_of_classify_none (hblank : isBlank c = false)
    (h : classify (split c rest).1 = none) : Rule (split c rest).2 (split c rest).1 none := by
  obtain ⟨run, hsplit, hrun, hmark⟩ := exists_split_eq c rest
  rw [hsplit] at h ⊢
  rw [classify] at h
  split at h
  · cases h
  · rename_i halpha
    split at h
    · rename_i hdigit
      have hstop : Stops isRunChar (split c rest).2 :=
        stops_split (by simp [Char.isAlphanum, hdigit]) rest
      cases hread : Numeral.read (c :: run) with
      | ok value =>
          rw [hread] at h
          cases h
      | error error => exact .malformed hdigit hrun hstop hread
    · rename_i hdigit
      have halphanum : c.isAlphanum = false := by simp [Char.isAlphanum, halpha, hdigit]
      obtain rfl := hmark halphanum
      split at h
      · cases h
      · rename_i hopening
        split at h
        · cases h
        · rename_i hclosing
          refine .unknown hblank halphanum ?_ ?_
          · intro b
            cases b with
            | opening => exact hopening
            | closing => exact hclosing
          · rintro op rfl
            rw [Operator.ofChar?_eq_some_iff.2 rfl] at h
            cases h

/-- A lexeme that is cut off a text obeys the rule. -/
theorem rule_split (hblank : isBlank c = false) (rest : List Char) :
    Rule (split c rest).2 (split c rest).1 (classify (split c rest).1) := by
  cases hclassify : classify (split c rest).1 with
  | none => exact rule_of_classify_none hblank hclassify
  | some s =>
      have hclassified := classified_of_classify hclassify
      obtain ⟨run, hsplit, -, -⟩ := exists_split_eq c rest
      have hstop := fun hc : c.isAlphanum = true => stops_split hc rest
      rw [hsplit] at hclassified ⊢
      cases hclassified with
      | name hc hrun => exact .name hc hrun (hstop (by simp [Char.isAlphanum, hc]))
      | numeral hc hrun hread =>
          exact .numeral hc hrun (hstop (by simp [Char.isAlphanum, hc])) hread
      | bracket b => exact .bracket b
      | operator op => exact .operator op

theorem Rule.isInput {lexeme : List Char} {s : Symbol} (h : Rule rest lexeme (some s)) :
    s.isTerminal = true ∧ s.isEnd = false := by
  cases h with
  | _ => exact ⟨rfl, rfl⟩

end Lexeme

/-! ## Occurrences -/

/-- A lexeme where it lies in a text, with the symbol that it stands for, if it stands for one. -/
structure Occurrence extends Interval where
  symbol? : Option Symbol

namespace Occurrence

/-- From character number `n` on, a text consists of the lexemes of a list, one behind the other, and
of blanks. -/
inductive Tiling (text : List Char) : Nat → List Occurrence → Prop
  | done {n : Nat} (hblank : ∀ c ∈ text.drop n, isBlank c = true) : Tiling text n []
  | lexeme {n : Nat} {o : Occurrence} {os : List Occurrence} (hle : n ≤ o.start)
      (hblank : ∀ c ∈ (text.take o.start).drop n, isBlank c = true) (hlt : o.start < o.stop)
      (hstop : o.stop ≤ text.length)
      (hrule : Lexeme.Rule (text.drop o.stop) (o.characters text) o.symbol?)
      (htail : Tiling text o.stop os) : Tiling text n (o :: os)

namespace Tiling

variable {text : List Char} {n : Nat} {os : List Occurrence}

theorem le_start (h : Tiling text n os) : ∀ o ∈ os, n ≤ o.start := by
  induction h with
  | done => exact fun o ho => absurd ho List.not_mem_nil
  | lexeme hle _ hlt _ _ _ ih =>
      refine List.forall_mem_cons.2 ⟨hle, fun o ho => ?_⟩
      have hstart := ih o ho
      omega

theorem rule (h : Tiling text n os) : ∀ o ∈ os, o.start < o.stop ∧ o.stop ≤ text.length ∧
    Lexeme.Rule (text.drop o.stop) (o.characters text) o.symbol? := by
  induction h with
  | done => exact fun o ho => absurd ho List.not_mem_nil
  | lexeme _ _ hlt hstop hrule _ ih => exact List.forall_mem_cons.2 ⟨⟨hlt, hstop, hrule⟩, ih⟩

theorem pairwise (h : Tiling text n os) : os.Pairwise fun o o' => o.stop ≤ o'.start := by
  induction h with
  | done => exact .nil
  | lexeme _ _ _ _ _ htail ih => exact .cons htail.le_start ih

/-- A character that lies in no lexeme is blank. -/
theorem isBlank_outside (h : Tiling text n os) {m : Nat} {c : Char} (hm : n ≤ m)
    (hc : text[m]? = some c) (hout : ∀ o ∈ os, ¬(o.start ≤ m ∧ m < o.stop)) : isBlank c = true := by
  induction h with
  | @done n hblank =>
      refine hblank c (List.mem_of_getElem? (i := m - n) ?_)
      rw [List.getElem?_drop, Nat.add_sub_cancel' hm, hc]
  | @lexeme n o os hle hblank _ _ _ _ ih =>
      obtain ⟨hfirst, hrest⟩ := List.forall_mem_cons.1 hout
      by_cases hstop : o.stop ≤ m
      · exact ih hstop hrest
      · -- In front of the next lexeme there are only blanks.
        have hbefore : m < o.start := by omega
        refine hblank c (List.mem_of_getElem? (i := m - n) ?_)
        rw [List.getElem?_drop, Nat.add_sub_cancel' hm, List.getElem?_take_of_lt hbefore, hc]

/-- Blanks and a lexeme in front of what is tiled. -/
theorem following {before blanks piece rest : List Char} {symbol? : Option Symbol}
    (hblanks : ∀ c ∈ blanks, isBlank c = true) (hpiece : piece ≠ [])
    (hrule : Lexeme.Rule rest piece symbol?)
    (htail : Tiling (before ++ blanks ++ piece ++ rest) (before ++ blanks ++ piece).length os) :
    Tiling (before ++ blanks ++ piece ++ rest) before.length
      (⟨.following (before ++ blanks) piece, symbol?⟩ :: os) := by
  have hpositive : 0 < piece.length := List.length_pos_iff.2 hpiece
  refine .lexeme ?_ ?_ ?_ ?_ ?_ htail
  · simp [Interval.following]
  · have hbetween : ((before ++ blanks ++ piece ++ rest).take (before ++ blanks).length).drop
        before.length = blanks := by
      rw [List.append_assoc (before ++ blanks), List.take_left, List.drop_left]
    rw [← hbetween] at hblanks
    exact hblanks
  · simp only [Interval.following, List.length_append]
    omega
  · simp [Interval.following]
  · have hrest : (before ++ blanks ++ piece ++ rest).drop (before ++ blanks ++ piece).length =
        rest := List.drop_left
    rw [Interval.characters_following]
    exact hrest.symm ▸ hrule

theorem length_le (h : Tiling text n os) (hn : n ≤ text.length) :
    os.length + n ≤ text.length := by
  induction h with
  | done => simpa using hn
  | lexeme hle _ hlt hstop _ _ ih =>
      have htail := ih hstop
      rw [List.length_cons]
      omega

end Tiling

end Occurrence

/-- The lexemes of the characters `cs`, where they lie behind the characters `before`. -/
def occurrences (before cs : List Char) : List Occurrence :=
  match _hskip : cs.dropWhile isBlank with
  | [] => []
  | c :: rest =>
      ⟨.following (before ++ cs.takeWhile isBlank) (Lexeme.split c rest).1,
          Lexeme.classify (Lexeme.split c rest).1⟩ ::
        occurrences (before ++ cs.takeWhile isBlank ++ (Lexeme.split c rest).1)
          (Lexeme.split c rest).2
termination_by cs.length
decreasing_by exact Lexeme.length_split_lt _hskip

theorem occurrences_nil {cs : List Char} (before : List Char) (h : cs.dropWhile isBlank = []) :
    occurrences before cs = [] := by
  rw [occurrences]
  split
  · rfl
  · rename_i hskip
    cases h.symm.trans hskip

theorem occurrences_cons {cs : List Char} {c : Char} {rest : List Char} (before : List Char)
    (h : cs.dropWhile isBlank = c :: rest) :
    occurrences before cs =
      ⟨.following (before ++ cs.takeWhile isBlank) (Lexeme.split c rest).1,
          Lexeme.classify (Lexeme.split c rest).1⟩ ::
        occurrences (before ++ cs.takeWhile isBlank ++ (Lexeme.split c rest).1)
          (Lexeme.split c rest).2 := by
  rw [occurrences]
  split
  · rename_i hskip
    cases h.symm.trans hskip
  · rename_i hskip
    cases h.symm.trans hskip
    rfl

/-- A text that goes on behind `before` is that, blanks, a lexeme and what is behind the lexeme. -/
theorem Lexeme.append_behind_of_skip {cs : List Char} {c : Char} {rest : List Char}
    (before : List Char) (h : cs.dropWhile isBlank = c :: rest) :
    before ++ cs = before ++ cs.takeWhile isBlank ++ (split c rest).1 ++ (split c rest).2 := by
  simpa only [List.append_assoc] using congrArg (before ++ ·) (append_of_skip h)

/-- The lexemes of a text tile it. -/
theorem tiling_occurrences (before cs : List Char) :
    Occurrence.Tiling (before ++ cs) before.length (occurrences before cs) := by
  fun_induction occurrences before cs with
  | case1 before cs hskip =>
      refine .done ?_
      rw [List.drop_left]
      exact List.dropWhile_eq_nil_iff.1 hskip
  | case2 before cs c rest hskip ih =>
      have hblanks : ∀ x ∈ cs.takeWhile isBlank, isBlank x = true :=
        List.all_eq_true.1 List.all_takeWhile
      have hpiece : (Lexeme.split c rest).1 ≠ [] := by
        obtain ⟨run, hsplit, -, -⟩ := Lexeme.exists_split_eq c rest
        simp [hsplit]
      have hrule := Lexeme.rule_split (Lexeme.isBlank_of_skip hskip) rest
      rw [Lexeme.append_behind_of_skip before hskip]
      exact .following hblanks hpiece hrule ih

/-! ## Answers -/

structure Draw where
  answer : Answer Symbol
  stats : SourceStats

def Draw.isLast (d : Draw) : Bool :=
  match d.answer with
  | .ok (some t) => t.symbol.isEnd
  | _ => false

namespace Occurrence

/-- The answer on a lexeme of a text: its symbol as a token, or a diagnostic that names it. -/
def answer (text : List Char) (o : Occurrence) : Answer Symbol :=
  match o.symbol? with
  | some s => .ok (some ⟨s, some (o.span text)⟩)
  | none => .error (.tokenize (.ofList (o.characters text)) (some (o.span text)))

/-- The answers on the lexemes of a text, and the end marker at the end of the text.  The counters
behind an answer are the number of the character up to which the text has been read, and the number
of tokens so far, to which `tokens` came before. -/
def draws (text : List Char) (tokens : Nat) : List Occurrence → List Draw
  | [] => [⟨.ok (some ⟨.endMark, some (.empty (.behind text))⟩), ⟨text.length, tokens + 1⟩⟩]
  | o :: os =>
      let tokens := tokens + o.symbol?.isSome.toNat
      ⟨o.answer text, ⟨o.stop, tokens⟩⟩ :: draws text tokens os

theorem length_draws (text : List Char) (tokens : Nat) (os : List Occurrence) :
    (draws text tokens os).length = os.length + 1 := by
  induction os generalizing tokens with
  | nil => rfl
  | cons o os ih => rw [draws, List.length_cons, ih, List.length_cons]

/-- What a lexeme is answered with is no end marker. -/
theorem isLast_answer {text : List Char} {o : Occurrence} {stats : SourceStats}
    (rest : List Char) (h : Lexeme.Rule rest (o.characters text) o.symbol?) :
    Draw.isLast ⟨o.answer text, stats⟩ = false := by
  unfold answer
  cases hsymbol : o.symbol? with
  | none => rfl
  | some s =>
      rw [hsymbol] at h
      exact h.isInput.2

end Occurrence

/-! ## Scanners -/

namespace Scanner

def draw (s : Scanner) : Draw :=
  ⟨s.consume.answer, s.consume.source.stats⟩

theorem consume_of_some {s : Scanner} {answer : Except Diagnostic (Token Symbol)}
    (h : s.pending = some answer) :
    s.consume = ⟨answer.map some, { s with pending := none }, []⟩ := by
  simp only [consume, h]

theorem consume_of_none {s : Scanner} (h : s.pending = none) :
    s.consume = ⟨s.scan.answer.map some, s.scan.scanner, s.scan.notes⟩ := by
  simp only [consume, h]

theorem pending_consume (s : Scanner) : s.consume.source.pending = none := by
  cases h : s.pending with
  | some answer => rw [consume_of_some h]
  | none =>
      rw [consume_of_none h]
      exact (pending_scan s).trans h

/-- An answer that is no end marker counts. -/
theorem answerSize_eq_one {answer : Except Diagnostic (Token Symbol)} {stats : SourceStats}
    (h : Draw.isLast ⟨answer.map some, stats⟩ = false) : answerSize answer = 1 := by
  cases answer with
  | error d => rfl
  | ok t =>
      have hend : t.symbol.isEnd = false := h
      simp [answerSize, hend]

theorem size_consume_lt {s : Scanner} (h : s.draw.isLast = false) :
    s.consume.source.size < s.size := by
  cases hpending : s.pending with
  | some answer =>
      rw [draw, consume_of_some hpending] at h
      rw [consume_of_some hpending]
      simp [size, hpending, answerSize_eq_one h]
  | none =>
      rw [draw, consume_of_none hpending] at h
      rw [consume_of_none hpending]
      have hscan := s.length_scan_le
      rw [answerSize_eq_one h] at hscan
      simp only [size, hpending, pending_scan, Option.map_none, Option.getD_none]
      omega

/-- What taking one answer after the other gives, up to the first end marker. -/
def drain (s : Scanner) : List Draw :=
  s.draw :: if _h : s.draw.isLast = true then [] else s.consume.source.drain
termination_by s.size
decreasing_by exact size_consume_lt (Bool.eq_false_iff.2 _h)

theorem drain_of_last {s : Scanner} (h : s.draw.isLast = true) : s.drain = [s.draw] := by
  rw [drain, dif_pos h]

theorem drain_of_next {s : Scanner} (h : s.draw.isLast = false) :
    s.drain = s.draw :: s.consume.source.drain := by
  rw [drain, dif_neg (by simp [h])]

/-- The scanner has read the characters `before` and counted `tokens` tokens, and nothing that it
answered is still to be taken. -/
structure Behind (s : Scanner) (before : List Char) (tokens : Nat) : Prop where
  pending : s.pending = none
  place : s.cursor.span.stop = .behind before
  stats : s.stats = ⟨before.length, tokens⟩

variable {s : Scanner} {before cs : List Char} {tokens : Nat}

theorem behind_ofList (text : List Char) : (ofList text).Behind [] 0 :=
  ⟨rfl, rfl, rfl⟩

/-! ### Reading on -/

theorem Behind.read (h : s.Behind before tokens) (piece rest : List Char) :
    (s.read piece rest).Behind (before ++ piece) tokens := by
  refine ⟨h.pending, Cursor.stop_advanceAll h.place piece, ?_⟩
  simp only [Scanner.read, h.stats, List.length_append]

theorem Behind.count (h : s.Behind before tokens) : s.count.Behind before (tokens + 1) :=
  ⟨h.pending, h.place, by simp only [Scanner.count, h.stats]⟩

theorem Behind.skipBlanks (h : s.Behind before tokens) :
    s.skipBlanks.Behind (before ++ s.rest.takeWhile isBlank) tokens ∧
      s.skipBlanks.cursor.span = .empty (.behind (before ++ s.rest.takeWhile isBlank)) := by
  have hread := h.read (s.rest.takeWhile isBlank) (s.rest.dropWhile isBlank)
  exact ⟨⟨hread.pending, hread.place, hread.stats⟩, congrArg Span.empty hread.place⟩

/-- Behind the last lexeme there is the end marker. -/
theorem Behind.scan_end (h : s.Behind before tokens) (hskip : s.rest.dropWhile isBlank = []) :
    s.scan.answer = .ok ⟨.endMark, some (.empty (.behind (before ++ s.rest)))⟩ ∧
      s.scan.scanner.Behind (before ++ s.rest) (tokens + 1) := by
  have hall : s.rest.takeWhile isBlank = s.rest := by
    simpa [hskip] using List.takeWhile_append_dropWhile (p := isBlank) (l := s.rest)
  have hskipped := h.skipBlanks
  rw [hall] at hskipped
  have hrest : s.skipBlanks.rest = [] := hskip
  unfold scan
  simp only [hrest]
  refine ⟨?_, hskipped.1.count⟩
  rw [Cursor.position, hskipped.1.place]

/-- The next lexeme is read and answered on, whether it stands for a symbol or not. -/
theorem Behind.scan_lexeme {c : Char} {rest : List Char} (h : s.Behind before tokens)
    (hskip : s.rest.dropWhile isBlank = c :: rest) :
    s.scan.answer.map some = Occurrence.answer (before ++ s.rest)
        ⟨.following (before ++ s.rest.takeWhile isBlank) (Lexeme.split c rest).1,
          Lexeme.classify (Lexeme.split c rest).1⟩ ∧
      s.scan.scanner.rest = (Lexeme.split c rest).2 ∧
      s.scan.scanner.Behind
        (before ++ s.rest.takeWhile isBlank ++ (Lexeme.split c rest).1)
        (tokens + (Lexeme.classify (Lexeme.split c rest).1).isSome.toNat) := by
  obtain ⟨hskipped, hempty⟩ := h.skipBlanks
  have hread := hskipped.read (Lexeme.split c rest).1 (Lexeme.split c rest).2
  -- The text is what has been read, the blanks, the lexeme and what is left.
  have htext := Lexeme.append_behind_of_skip before hskip
  have hspan : (s.skipBlanks.cursor.advanceAll (Lexeme.split c rest).1).span =
      ⟨.behind (before ++ s.rest.takeWhile isBlank),
        .behind (before ++ s.rest.takeWhile isBlank ++ (Lexeme.split c rest).1)⟩ := by
    have hstop := hread.place
    rw [Cursor.span_advanceAll, hempty]
    rw [Scanner.read, Cursor.span_advanceAll, hempty] at hstop
    exact congrArg _ hstop
  have hrest : s.skipBlanks.rest = c :: rest := hskip
  unfold scan Occurrence.answer
  simp only [hrest]
  cases hclassify : Lexeme.classify (Lexeme.split c rest).1 with
  | some symbol =>
      refine ⟨?_, rfl, hread.count⟩
      simp only [Except.map, Scanner.read, hspan, htext, Interval.span_following]
  | none =>
      refine ⟨?_, rfl, hread⟩
      simp only [Except.map, Scanner.read, hspan, htext, Interval.span_following,
        Interval.characters_following]

/-! ### Emptying a scanner -/

/-- A scanner that is emptied answers on the lexemes of what is left of its text. -/
theorem Behind.drain_eq (h : s.Behind before tokens) :
    s.drain = Occurrence.draws (before ++ s.rest) tokens (occurrences before s.rest) := by
  generalize hcs : s.rest = cs
  fun_induction occurrences before cs generalizing s tokens with
  | case1 before cs hskip =>
      subst hcs
      obtain ⟨hanswer, hbehind⟩ := h.scan_end hskip
      have hdraw : s.draw = ⟨.ok (some ⟨.endMark, some (.empty (.behind (before ++ s.rest)))⟩),
          ⟨(before ++ s.rest).length, tokens + 1⟩⟩ := by
        rw [draw, consume_of_none h.pending, hanswer, hbehind.stats]
        rfl
      rw [drain_of_last (by rw [hdraw]; rfl), hdraw]
      rfl
  | case2 before cs c rest hskip ih =>
      subst hcs
      obtain ⟨hanswer, hrest, hbehind⟩ := h.scan_lexeme hskip
      have htext := Lexeme.append_behind_of_skip before hskip
      have hdraw : s.draw = ⟨s.scan.answer.map some, s.scan.scanner.stats⟩ := by
        rw [draw, consume_of_none h.pending]
      have hlast : s.draw.isLast = false := by
        rw [hdraw, hanswer]
        refine Occurrence.isLast_answer (Lexeme.split c rest).2 ?_
        rw [htext, Interval.characters_following]
        exact Lexeme.rule_split (Lexeme.isBlank_of_skip hskip) rest
      have hdrain := ih hbehind hrest
      rw [← htext] at hdrain
      rw [drain_of_next hlast, hdraw, consume_of_none h.pending, hdrain, hanswer, hbehind.stats]
      rfl

/-- What is left of the text is tiled by lexemes, and the answers are those on them. -/
theorem Behind.exists_tiling (h : s.Behind before tokens) :
    ∃ os, Occurrence.Tiling (before ++ s.rest) before.length os ∧
      s.drain = Occurrence.draws (before ++ s.rest) tokens os :=
  ⟨occurrences before s.rest, tiling_occurrences before s.rest, h.drain_eq⟩

end Scanner

end Arithmetic
end ShiftReduce
