import ShiftReduce.Grammar.Basic

/-!
# Events — what a run does, step by step

Each event of a run is kept as a value, with the stacks as they were where it shows them, and is
turned into a note only when somebody reads the journal.

* `Event.shifted?`, `Event.discarded?`: the token that an event takes from the source.
* `Event.note`: the level and the text of an event.
-/

namespace ShiftReduce

inductive Event (State Production Symbol Kind : Type)
  | /-- A lookahead was examined with these stacks, tops first. -/
    examined (states : List State) (stacked : List (Token Symbol)) (lookahead : Token Symbol)
  | /-- The lookahead is to be pushed, with the state that follows. -/
    shifted (lookahead : Token Symbol) (target : State)
  | /-- A right-hand side is about to be popped. -/
    reduced (production : Production)
  | /-- A nonterminal that was just built leads to this state. -/
    advanced (kind : Kind) (target : State)
  | /-- The table accepts. -/
    accepted
  | /-- The lookahead is reported and to be thrown away. -/
    discarded (lookahead : Token Symbol) (error : Diagnostic) (state : State)
  | /-- The run was given up. -/
    terminated (error : Diagnostic)
  | /-- The source, a reduction or the owner of the run made a remark. -/
    noted (note : Note)

namespace Event

variable {State Production Symbol Kind : Type}

def shifted? : Event State Production Symbol Kind → Option (Token Symbol)
  | .shifted lookahead _ => some lookahead
  | _ => none

def discarded? : Event State Production Symbol Kind → Option (Token Symbol)
  | .discarded lookahead _ _ => some lookahead
  | _ => none

/-! ## Notes -/

variable [ToString State] [ToString Kind]

/-- Both stacks from the bottom up, each state before the symbol above it, the lookahead last; an
arrow stands after the topmost state. -/
def stackText [GrammarSymbol Symbol Kind] (states : List State)
    (stacked : List (Token Symbol)) (lookahead : Token Symbol) : String :=
  -- The row has one state more than stacked symbols; the lookahead stands beside the last.
  let top := states.length - 1
  let row := (states.reverse.zip (stacked.reverse ++ [lookahead])).zipIdx
  row.foldl (fun text cell =>
    let arrow := if cell.2 = top then "<-  " else ""
    text ++ "<" ++ toString cell.1.1 ++ ">  " ++ arrow ++
      GrammarSymbol.text cell.1.2.symbol ++ "  ") ""

def note {Context : Type} [GrammarSymbol Symbol Kind]
    (G : Grammar State Production Symbol Kind Context) : Event State Production Symbol Kind → Note
  | .examined states stacked lookahead => ⟨.trace, fun _ => stackText states stacked lookahead⟩
  | .shifted lookahead target =>
      ⟨.trace, fun _ => s!"Shift {GrammarSymbol.kind lookahead.symbol} -> {target}"⟩
  | .reduced p => ⟨.debug, fun _ => "Reduce " ++ G.label p⟩
  | .advanced kind target => ⟨.trace, fun _ => s!"Goto {kind} -> {target}"⟩
  | .accepted => ⟨.trace, fun _ => "Accept"⟩
  | .discarded _ error state => ⟨.warn, fun _ => s!"{error} in state {state} was discarded"⟩
  | .terminated error => ⟨.warn, fun _ => s!"{error}; analysis terminated"⟩
  | .noted n => n

end Event

end ShiftReduce
