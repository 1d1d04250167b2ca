import ShiftReduce.Arithmetic.Symbol
import ShiftReduce.Decimal.Numeral
import ShiftReduce.Source.Basic
import ShiftReduce.Text.Blank
import ShiftReduce.Text.Cursor

/-!
# The scanner — arithmetic text as a token source

Blanks are skipped.  A lexeme is decided by its first character: a letter or a digit takes the
longest run of ASCII letters, digits and points, which is a variable or a numeral; an operator or a
bracket stands for itself; anything else cannot be classified.  Behind the last character there is
the end marker, as often as it is asked for.

* `Lexeme.classify`: the symbol of a lexeme, if it has one.
* `Scanner`: the rest of the text, a cursor, and at most one answer that has been looked at.
* `Scanner.length_scan_le`: scanning reads at least one character unless it meets the end.
-/

namespace ShiftReduce
namespace Arithmetic

/-! ## Lexemes -/

def isRunChar (c : Char) : Bool :=
  c.isAlphanum || c == '.'

namespace Lexeme

/-- Cuts the lexeme that starts with the character `c` off the text `rest` behind it. -/
def split (c : Char) (rest : List Char) : List Char × List Char :=
  if c.isAlphanum then
    (c :: rest.takeWhile isRunChar, rest.dropWhile isRunChar)
  else
    ([c], rest)

def classify : List Char → Option Symbol
  | [] => none
  | c :: rest =>
      if c.isAlpha then
        some (.var (.ofList (c :: rest)))
      else if c.isDigit then
        (Numeral.read (c :: rest)).toOption.map .number
      else if c = Bracket.opening.toChar then
        some (.bracket .opening)
      else if c = Bracket.closing.toChar then
        some (.bracket .closing)
      else
        (Operator.ofChar? c).map .operator

theorem split_append (c : Char) (rest : List Char) :
    (split c rest).1 ++ (split c rest).2 = c :: rest := by
  unfold split
  split <;> simp

theorem length_split_le (c : Char) (rest : List Char) :
    (split c rest).2.length ≤ rest.length := by
  unfold split
  split
  · exact (List.dropWhile_sublist _).length_le
  · exact Nat.le_refl _

end Lexeme

/-! ## The source -/

structure Scanner where
  rest : List Char
  cursor : Cursor := {}
  /-- An answer that has been looked at and not yet been taken. -/
  pending : Option (Except Diagnostic (Token Symbol)) := none
  stats : SourceStats := {}

namespace Scanner

def ofList (text : List Char) : Scanner :=
  { rest := text }

def ofString (text : String) : Scanner :=
  ofList text.toList

/-- Reads the characters `cs`, which `rest` is behind. -/
def read (s : Scanner) (cs rest : List Char) : Scanner :=
  { s with
    rest := rest
    cursor := s.cursor.advanceAll cs
    stats := { s.stats with chars := s.stats.chars + cs.length } }

def count (s : Scanner) : Scanner :=
  { s with stats := { s.stats with tokens := s.stats.tokens + 1 } }

def skipBlanks (s : Scanner) : Scanner :=
  let s := s.read (s.rest.takeWhile isBlank) (s.rest.dropWhile isBlank)
  { s with cursor := s.cursor.begin }

structure Scan where
  answer : Except Diagnostic (Token Symbol)
  scanner : Scanner
  notes : List Note

/-- Scans the next lexeme.  One that cannot be classified is read but not counted. -/
def scan (s : Scanner) : Scan :=
  let s := s.skipBlanks
  match s.rest with
  | [] =>
      let place := s.cursor.position
      ⟨.ok ⟨.endMark, some (.empty place)⟩, s.count,
        [⟨.trace, fun _ => s!"End at {place.column}"⟩]⟩
  | c :: rest =>
      let (lexeme, rest) := Lexeme.split c rest
      let s := s.read lexeme rest
      let span := s.cursor.span
      match Lexeme.classify lexeme with
      | none => ⟨.error (.tokenize (.ofList lexeme) (some span)), s, []⟩
      | some symbol =>
          ⟨.ok ⟨symbol, some span⟩, s.count,
            [⟨.trace, fun _ => s!"Token {symbol.kind} at {span}"⟩]⟩

def peek (s : Scanner) : Pull Scanner Symbol :=
  match s.pending with
  | some answer => ⟨answer.map some, s, []⟩
  | none =>
      let result := s.scan
      ⟨result.answer.map some, { result.scanner with pending := some result.answer },
        result.notes⟩

def consume (s : Scanner) : Pull Scanner Symbol :=
  match s.pending with
  | some answer => ⟨answer.map some, { s with pending := none }, []⟩
  | none =>
      let result := s.scan
      ⟨result.answer.map some, result.scanner, result.notes⟩

instance : TokenSource Scanner Symbol where
  peek := peek
  consume := consume
  stats := stats

/-! ## Scanning comes to an end -/

/-- How much an answer counts for: nothing for the end marker, one for anything else. -/
def answerSize : Except Diagnostic (Token Symbol) → Nat
  | .ok t => if t.symbol.isEnd then 0 else 1
  | .error _ => 1

/-- The characters left, and one for an answer that was looked at. -/
def size (s : Scanner) : Nat :=
  s.rest.length + (s.pending.map answerSize).getD 0

/-- What scanning finds is paid for by the characters it reads. -/
theorem length_scan_le (s : Scanner) :
    s.scan.scanner.rest.length + answerSize s.scan.answer ≤ s.rest.length := by
  have hskip : s.skipBlanks.rest.length ≤ s.rest.length := by
    simp only [skipBlanks, read]
    exact (List.dropWhile_sublist _).length_le
  unfold scan
  dsimp only
  split
  · -- The end marker counts for nothing.
    rename_i hrest
    simp [answerSize, count, Symbol.isEnd, hrest]
  · rename_i c rest hrest
    have hsplit := Lexeme.length_split_le c rest
    rw [hrest, List.length_cons] at hskip
    split
    · simp only [read, answerSize]
      omega
    · simp only [read, count, answerSize]
      split <;> omega

theorem size_peek_le (s : Scanner) : s.peek.source.size ≤ s.size := by
  unfold peek
  split
  · exact Nat.le_refl _
  · rename_i hpending
    have hscan := s.length_scan_le
    simp only [size, hpending, Option.map_some, Option.map_none, Option.getD_some,
      Option.getD_none]
    omega

theorem size_consume_peek_lt (s : Scanner) (t : Token Symbol) (h : s.peek.answer = .ok (some t))
    (hend : t.symbol.isEnd = false) : s.peek.source.consume.source.size < s.peek.source.size := by
  -- After a look, what was seen is pending, and it is all that taking it removes.
  have hpending : s.peek.source.pending = some (.ok t) := by
    unfold peek at h ⊢
    split at h
    · rename_i answer hanswer
      cases answer with
      | error d => cases h
      | ok u =>
          cases h
          exact hanswer
    · revert h
      dsimp only
      cases s.scan.answer with
      | error d => intro h; cases h
      | ok u => intro h; cases h; rfl
  unfold consume
  simp only [hpending, size, Option.map_some, Option.map_none, Option.getD_some,
    Option.getD_none, answerSize, hend]
  simp

instance : FiniteSource Scanner where
  size := size
  size_peek_le := size_peek_le
  size_consume_lt s t h hend := size_consume_peek_lt s t h hend

end Scanner

end Arithmetic
end ShiftReduce
