import Mathlib.Data.List.Induction
import ShiftReduce.Proofs.Arithmetic.Recovery

/-!
# Survivors — the recovered tree against the tree of what was kept

The tokens that a run keeps are a text of their own.  Read alone they have a tree with the same
terminals, but not always the same tree: a token that is about to be thrown away closes everything
that is open, a sum too.  A product that comes next should have torn off the last summand and now
gets the whole sum: `a + b c * d` is recovered as `(a + b) * d`.

* `Torn`: where that happens, read off the verdicts.
* `Draft.Regular`: precedence is respected; `Draft.regular_read_iff` is the invariant of a run.
* `recovered_eq_reread_iff`: the two trees are the same if and only if no sum is torn.
-/

namespace ShiftReduce
namespace Arithmetic

/-! ## Sums that are open -/

/-- For each open bracket, the innermost first, whether an addition or a subtraction stands directly
behind it; the last entry is for what stands outside all brackets. -/
def levels (symbols : List Symbol) : List Bool :=
  symbols.foldl enter [false]
where
  /-- What one terminal does to the levels. -/
  enter (bs : List Bool) : Symbol → List Bool
    | .bracket .opening => false :: bs
    | .bracket .closing => bs.tail
    | .operator op => (bs.head?.getD false || op.precedence == 1) :: bs.tail
    | _ => bs

/-- The text ends in a sum that no bracket has closed. -/
def SumOpen (symbols : List Symbol) : Prop :=
  (levels symbols).head? = some true

instance (symbols : List Symbol) : Decidable (SumOpen symbols) :=
  inferInstanceAs (Decidable (_ = _))

def IsFactorSign (s : Symbol) : Prop :=
  s = .operator .mul ∨ s = .operator .div

/-- Somewhere a token is thrown away behind an open sum, and the sign of a product follows it. -/
def Torn (verdicts : List (Token Symbol × Bool)) : Prop :=
  ∃ before t u behind, verdicts = before ++ (t, false) :: (u, true) :: behind ∧
    IsFactorSign u.symbol ∧ SumOpen ((survivors before).map Token.symbol)

namespace Expr

/-- An addition or a subtraction stands outside all brackets. -/
def hasSum : Expr → Bool
  | .atomic _ => false
  | .bracketed _ => false
  | .binary left op right => left.hasSum || op.precedence == 1 || right.hasSum

theorem foldl_enter_symbols (e : Expr) (b : Bool) (bs : List Bool) :
    e.symbols.foldl levels.enter (b :: bs) = (b || e.hasSum) :: bs := by
  induction e generalizing b bs with
  | atomic a => simp [Expr.symbols, levels.enter, hasSum]
  | binary left op right ihl ihr =>
      rw [Expr.symbols, List.foldl_append, ihl, List.foldl_cons, levels.enter]
      simp [ihr, hasSum, Bool.or_assoc]
  | bracketed inner ih =>
      rw [Expr.symbols, List.foldl_cons, levels.enter, List.foldl_append, ih]
      simp [levels.enter, hasSum]

/-- A tree in which precedence is respected can be a factor's left neighbour if it has no sum. -/
theorem Fits.fits_two_iff {e : Expr} (he : e.Fits 1) : e.Fits 2 ↔ e.hasSum = false := by
  constructor
  · -- The right operand binds tighter still, the left one at least as tightly.
    clear he
    intro h
    induction e with
    | atomic a => rfl
    | bracketed inner ih => rfl
    | binary left op right ihl ihr =>
        rcases h with ⟨hop, hl, hr⟩
        have hone : op.precedence ≠ 1 := by omega
        have hleft := ihl (hl.mono hop)
        have hright := ihr (hr.mono (by omega))
        simp [hasSum, hleft, hright, hone]
  · intro h
    cases e with
    | atomic a => trivial
    | bracketed inner => exact he
    | binary left op right =>
        rcases he with ⟨hop, hl, hr⟩
        have hone : op.precedence ≠ 1 := by
          intro hone
          simp [hasSum, hone] at h
        exact ⟨by omega, hl, hr⟩

end Expr

namespace Spine

/-- Behind a bracket, or at the beginning, the sum that is open is that of the operand. -/
theorem sumOpen_iff {S : Spine} (hS : S = .start ∨ ∃ below, S = .opened below) (e : Expr) :
    SumOpen (S.yield ++ e.symbols) ↔ e.hasSum = true := by
  rcases hS with rfl | ⟨below, rfl⟩
  · rw [SumOpen, levels, yield, List.nil_append, e.foldl_enter_symbols]
    simp
  · -- The bracket starts a level of its own.
    rw [SumOpen, levels, yield, List.foldl_append, List.foldl_append]
    simp only [List.foldl_cons, List.foldl_nil, levels.enter]
    rw [e.foldl_enter_symbols]
    simp

end Spine

namespace Draft

/-! ## Precedence in drafts -/

/-- Every operator stands where its precedence allows it; unlike in a sound draft, the operand at
the end may have been closed already. -/
def Regular : Draft → Prop
  | .due S => S.Sound
  | .operand S e => S.Sound ∧ e.Fits S.level

theorem regular_settle_iff (D : Draft) : D.settle.Regular ↔ D.Regular := by
  cases D with
  | due S => exact Iff.rfl
  | operand S e => exact S.sound_unwind_iff 0 e

theorem regular_iff_of_complete {D : Draft} {e : Expr} (h : D.complete? = some e) :
    D.Regular ↔ e.Fits 1 := by
  cases D with
  | due S => cases h
  | operand S last =>
      have hsound := S.sound_unwind_iff 0 last
      rw [complete?_operand h] at hsound
      rw [Regular, ← hsound]
      exact and_iff_right trivial

/-- An operator breaks precedence if and only if its left operand does not fit it. -/
theorem regular_operator_iff (S : Spine) (e : Expr) (op : Operator) :
    (due (.after (S.unwind op.precedence e).1 (S.unwind op.precedence e).2 op)).Regular ↔
      (operand S e).Regular ∧ (S.unwind op.precedence e).2.Fits op.precedence := by
  have hlevel := S.level_unwind_le op.one_le_precedence e
  have hsound := S.sound_unwind_iff op.precedence e
  simp only [Regular, Spine.Sound, ← hsound]
  constructor
  · rintro ⟨hS, _, hfits⟩
    exact ⟨⟨hS, hfits.mono hlevel⟩, hfits⟩
  · rintro ⟨⟨hS, _⟩, hfits⟩
    exact ⟨hS, hlevel, hfits⟩

theorem regular_extend_iff {D D' : Draft} {s : Symbol} (h : D.extend? s = some D')
    (hs : ∀ op, s ≠ .operator op) : D'.Regular ↔ D.Regular := by
  cases D with
  | due S =>
      cases s with
      | atom a =>
          cases h
          exact and_iff_left trivial
      | bracket b =>
          cases b <;> cases h
          exact Iff.rfl
      | _ => cases h
  | operand S e =>
      cases s with
      | operator op => exact absurd rfl (hs op)
      | bracket b =>
          cases b with
          | opening => cases h
          | closing =>
              rcases extend?_closing h with ⟨below, inner, hunwind, rfl⟩
              have hsound := S.sound_unwind_iff 0 e
              rw [hunwind] at hsound
              exact hsound
      | _ => cases h

theorem Regular.fits_of_extend {D : Draft} {S : Spine} {e : Expr} {s : Symbol}
    (hregular : (operand S e).Regular) (h : D.extend? s = some (.operand S e)) : e.Fits 3 := by
  cases D with
  | due S' =>
      cases s with
      | atom a =>
          cases h
          trivial
      | bracket b => cases b <;> cases h
      | _ => cases h
  | operand S' e' =>
      cases s with
      | operator op => cases h
      | bracket b =>
          cases b with
          | opening => cases h
          | closing =>
              rcases extend?_closing h with ⟨below, inner, _, heq⟩
              cases heq
              exact hregular.2
      | _ => cases h

/-- A refusal leaves an operand that stands directly behind a bracket or at the beginning. -/
theorem base_of_settle {D : Draft} {S : Spine} {e : Expr} (h : D.settle = operand S e) :
    S = .start ∨ ∃ below, S = .opened below := by
  cases D with
  | due S' => cases h
  | operand S' e' =>
      rcases S'.unwind_zero_cases e' with ⟨whole, hunwind⟩ | ⟨below, inner, hunwind⟩
      · rw [settle, hunwind] at h
        cases h
        exact Or.inl rfl
      · rw [settle, hunwind] at h
        cases h
        exact Or.inr ⟨below, rfl⟩

/-! ## The run -/

theorem read_concat (D : Draft) (ts : List (Token Symbol)) (t : Token Symbol) :
    D.read (ts ++ [t]) = (D.read ts).step t.symbol :=
  D.read_append ts [t]

theorem verdicts_concat (D : Draft) (ts : List (Token Symbol)) (t : Token Symbol) :
    D.verdicts (ts ++ [t]) = D.verdicts ts ++ [(t, ((D.read ts).extend? t.symbol).isSome)] :=
  D.verdicts_append ts [t]

/-- Behind a bracket or at the beginning an operand fits an operator unless the operator is one of a
product and the operand a sum. -/
theorem fits_unwind_base_iff {S : Spine} {e : Expr} (op : Operator)
    (hbase : S = .start ∨ ∃ below, S = .opened below) (hregular : (operand S e).Regular) :
    (S.unwind op.precedence e).2.Fits op.precedence ↔
      ¬(IsFactorSign (.operator op) ∧ e.hasSum = true) := by
  have hlevel : S.level = 1 := by rcases hbase with rfl | ⟨below, rfl⟩ <;> rfl
  have hone : e.Fits 1 := hlevel ▸ hregular.2
  rw [Spine.unwind_eq_self (hlevel ▸ op.one_le_precedence)]
  cases op with
  | add => simpa [IsFactorSign, Operator.precedence] using hone
  | sub => simpa [IsFactorSign, Operator.precedence] using hone
  | mul => simpa [IsFactorSign, Operator.precedence] using hone.fits_two_iff
  | div => simpa [IsFactorSign, Operator.precedence] using hone.fits_two_iff

/-- A left operand fits its operator unless a token was thrown away in between and the operator is
one of a product behind an open sum. -/
theorem fits_operator_iff {ts : List (Token Symbol)} {S : Spine} {e : Expr} (op : Operator)
    (hread : empty.read ts = operand S e) (hregular : (operand S e).Regular) :
    (S.unwind op.precedence e).2.Fits op.precedence ↔
      ¬(IsFactorSign (.operator op) ∧ ∃ before t, empty.verdicts ts = before ++ [(t, false)] ∧
        SumOpen ((survivors before).map Token.symbol)) := by
  induction ts using List.reverseRecOn with
  | nil => cases hread
  | append_singleton ts t _ =>
      rw [read_concat] at hread
      rw [verdicts_concat]
      cases hextend : (empty.read ts).extend? t.symbol with
      | some D =>
          -- The last token was kept: it ends a factor, and a factor fits every operator.
          rw [step, hextend, Option.getD_some] at hread
          rw [hread] at hextend
          have hthree := hregular.fits_of_extend hextend
          have hfits := hthree.mono (Nat.le_of_lt op.precedence_lt_three)
          refine iff_of_true (Spine.fits_unwind hregular.1 hregular.2 hfits) ?_
          rintro ⟨_, before, u, hlast, _⟩
          cases (List.append_inj' hlast rfl).2
      | none =>
          -- It was thrown away, and the refusal has made one operand of all that was open.
          rw [step, hextend, Option.getD_none] at hread
          have hbase := base_of_settle hread
          have hyield : (survivors (empty.verdicts ts)).map Token.symbol = S.yield ++ e.symbols := by
            have hyield := empty.yield_read ts
            rw [← yield_settle, hread] at hyield
            exact hyield.symm
          have hlast : (∃ before u, empty.verdicts ts ++ [(t, false)] = before ++ [(u, false)] ∧
              SumOpen ((survivors before).map Token.symbol)) ↔ e.hasSum = true := by
            rw [← Spine.sumOpen_iff hbase, ← hyield]
            constructor
            · rintro ⟨before, u, heq, hsum⟩
              rw [(List.append_inj' heq rfl).1]
              exact hsum
            · intro hsum
              exact ⟨_, t, rfl, hsum⟩
          rw [Option.isSome_none, hlast]
          exact fits_unwind_base_iff op hbase hregular

end Draft

theorem torn_concat_iff {verdicts : List (Token Symbol × Bool)} {u : Token Symbol} {b : Bool} :
    Torn (verdicts ++ [(u, b)]) ↔ Torn verdicts ∨
      b = true ∧ IsFactorSign u.symbol ∧ ∃ before t, verdicts = before ++ [(t, false)] ∧
        SumOpen ((survivors before).map Token.symbol) := by
  constructor
  · -- The torn place is at the end, or the last token stands behind it.
    rintro ⟨before, t, v, behind, heq, hsign, hsum⟩
    rcases List.eq_nil_or_concat behind with rfl | ⟨behind, last, rfl⟩
    · have hsplit : verdicts ++ [(u, b)] = (before ++ [(t, false)]) ++ [(v, true)] := by
        rw [heq, List.append_assoc]
        rfl
      rcases List.append_inj' hsplit rfl with ⟨rfl, hlast⟩
      cases hlast
      exact Or.inr ⟨rfl, hsign, before, t, rfl, hsum⟩
    · have hsplit : verdicts ++ [(u, b)] =
          (before ++ (t, false) :: (v, true) :: behind) ++ [last] := by
        simp [heq]
      rcases List.append_inj' hsplit rfl with ⟨rfl, _⟩
      exact Or.inl ⟨before, t, v, behind, rfl, hsign, hsum⟩
  · rintro (⟨before, t, v, behind, rfl, hsign, hsum⟩ | ⟨rfl, hsign, before, t, rfl, hsum⟩)
    · exact ⟨before, t, v, behind ++ [(u, b)], by simp, hsign, hsum⟩
    · exact ⟨before, t, u, [], by simp, hsign, hsum⟩

theorem Draft.regular_read_iff (ts : List (Token Symbol)) :
    (empty.read ts).Regular ↔ ¬Torn (empty.verdicts ts) := by
  -- The last token is the one that may tear, so the induction takes tokens off the end.
  induction ts using List.reverseRecOn with
  | nil =>
      refine iff_of_true trivial ?_
      rintro ⟨before, t, u, behind, heq, _⟩
      cases before <;> cases heq
  | append_singleton ts t ih =>
      rw [read_concat, verdicts_concat, torn_concat_iff, not_or, ← ih]
      cases hextend : (empty.read ts).extend? t.symbol with
      | none =>
          rw [step, hextend, Option.getD_none, regular_settle_iff]
          simp
      | some D =>
          rw [step, hextend, Option.getD_some]
          by_cases hoperator : ∃ op, t.symbol = .operator op
          · rcases hoperator with ⟨op, hop⟩
            cases hread : empty.read ts with
            | due S =>
                rw [hread, hop] at hextend
                cases hextend
            | operand S e =>
                rw [hread, hop] at hextend
                cases hextend
                rw [regular_operator_iff, hop]
                refine and_congr_right fun hregular => ?_
                rw [fits_operator_iff op hread hregular]
                simp
          · have hother : ∀ op, t.symbol ≠ .operator op := fun op h => hoperator ⟨op, h⟩
            have hsign : ¬IsFactorSign t.symbol := by
              rintro (h | h)
              · exact hother .mul h
              · exact hother .div h
            rw [regular_extend_iff hextend hother]
            simp [hsign]

/-! ## Reading again what was kept -/

theorem isInput_of_mem_survivors {ts : List (Token Symbol)} {D : Draft} (hts : ∀ t ∈ ts, IsInput t) :
    ∀ t ∈ survivors (D.verdicts ts), IsInput t := by
  intro t ht
  rcases List.mem_map.1 ht with ⟨v, hv, rfl⟩
  refine hts v.1 ?_
  rw [← D.verdicts_fst ts]
  exact List.mem_map_of_mem (List.mem_filter.1 hv).1

/-- What was kept is accepted, with a tree that has the same terminals as the recovered one and in
which precedence is respected. -/
theorem exists_reread {ts : List (Token Symbol)} {e : Expr} (hts : ∀ t ∈ ts, IsInput t)
    (hcomplete : (Draft.empty.read ts).complete? = some e) (span : Option Span) :
    ∃ e', (reportOn .resync (survivors (Draft.empty.verdicts ts)) span).outcome =
        .accepted (.root e') ∧
      e'.symbols = e.symbols ∧ e'.Fits 1 := by
  have hyield : e.symbols = (survivors (Draft.empty.verdicts ts)).map Token.symbol := by
    rw [Draft.symbols_complete hcomplete, Draft.yield_read]
    rfl
  have hsentence : Sentence ((survivors (Draft.empty.verdicts ts)).map Token.symbol) := by
    rw [← sift_eq_verdicts, ← complete_read_isSome_iff, hcomplete]
    rfl
  rcases hsentence with ⟨d, hd⟩
  have hparse := Draft.parse_eq_some_iff_phrase.2 ⟨d, hd, rfl⟩
  refine ⟨d.tree, ?_, ?_, d.fits_tree⟩
  · rw [reportOn, accepted_iff_parse (isInput_of_mem_survivors hts) (delivers_inputQueue _ span)]
    exact ⟨d.tree, hparse, rfl⟩
  · rw [d.symbols_tree, hd, hyield]

/-- A recovered tree has the terminals of the tokens that were kept, and read alone these are
accepted.  They have the recovered tree if and only if no sum is torn. -/
theorem recovered_eq_reread_iff (ts : List (Token Symbol)) (span span' : Option Span) (s : Symbol)
    (hts : ∀ t ∈ ts, t.symbol.isTerminal = true ∧ t.symbol.isEnd = false)
    (h : (reportOn .resync ts span).outcome = .recovered s) :
    (reportOn .resync ts span).verdicts.map Prod.fst = ts ∧
    ∃ e e', s = .root e ∧
      (reportOn .resync (survivors (reportOn .resync ts span).verdicts) span').outcome =
        .accepted (.root e') ∧
      e'.symbols = e.symbols ∧ (e' = e ↔ ¬Torn (reportOn .resync ts span).verdicts) := by
  rcases analyze_resync hts (delivers_inputQueue ts span) with ⟨houtcome, _, hverdicts⟩
  rw [reportOn] at h ⊢
  rw [houtcome, Draft.outcome] at h
  rw [hverdicts]
  cases hcomplete : (Draft.empty.read ts).complete? with
  | none =>
      rw [hcomplete] at h
      cases h
  | some e =>
      rw [hcomplete] at h
      rcases exists_reread hts hcomplete span' with ⟨e', haccepted, hsymbols, hfits⟩
      refine ⟨Draft.verdicts_fst _ ts, e, e', ?_, haccepted, hsymbols, ?_⟩
      · dsimp only at h
        split at h <;> cases h
        rfl
      · -- Of the trees with these terminals only one respects precedence, and that is `e'`.
        rw [← Draft.regular_read_iff, Draft.regular_iff_of_complete hcomplete]
        constructor
        · rintro rfl
          exact hfits
        · intro he
          exact Expr.symbols_injective hfits he hsymbols

/-- The witness reads `a * b + ) c`. -/
theorem reread_of_stray_bracket :
    (∀ t ∈ spanless [.var "a", .operator .mul, .var "b", .operator .add, .bracket .closing,
        .var "c"], t.symbol.isTerminal = true ∧ t.symbol.isEnd = false) ∧
    (reportOn .resync (spanless [.var "a", .operator .mul, .var "b", .operator .add,
        .bracket .closing, .var "c"]) none).outcome =
      .recovered (.root (.binary (.binary (.atomic (.var "a")) .mul (.atomic (.var "b"))) .add
        (.atomic (.var "c")))) ∧
    (reportOn .resync (survivors (reportOn .resync (spanless [.var "a", .operator .mul, .var "b",
        .operator .add, .bracket .closing, .var "c"]) none).verdicts) none).outcome =
      .accepted (.root (.binary (.binary (.atomic (.var "a")) .mul (.atomic (.var "b"))) .add
        (.atomic (.var "c")))) := by
  have hts : ∀ t ∈ spanless [.var "a", .operator .mul, .var "b", .operator .add,
      .bracket .closing, .var "c"], t.symbol.isTerminal = true ∧ t.symbol.isEnd = false := by
    decide
  have hrecovered : (reportOn .resync (spanless [.var "a", .operator .mul, .var "b",
      .operator .add, .bracket .closing, .var "c"]) none).outcome =
      .recovered (.root (.binary (.binary (.atomic (.var "a")) .mul (.atomic (.var "b"))) .add
        (.atomic (.var "c")))) := by
    rfl
  rcases recovered_eq_reread_iff _ none none _ hts hrecovered with
    ⟨_, e, e', hroot, haccepted, _, hiff⟩
  have hverdicts : (reportOn .resync (spanless [.var "a", .operator .mul, .var "b",
      .operator .add, .bracket .closing, .var "c"]) none).verdicts =
      [(⟨.var "a", none⟩, true), (⟨.operator .mul, none⟩, true), (⟨.var "b", none⟩, true),
        (⟨.operator .add, none⟩, true), (⟨.bracket .closing, none⟩, false),
        (⟨.var "c", none⟩, true)] := by
    rfl
  have hwhole : ¬Torn (reportOn .resync (spanless [.var "a", .operator .mul, .var "b",
      .operator .add, .bracket .closing, .var "c"]) none).verdicts := by
    -- Only the bracket is thrown away, and no sign follows it.
    rw [hverdicts]
    rintro ⟨before, t, u, behind, heq, hsign, _⟩
    rcases before with _ | ⟨_, _ | ⟨_, _ | ⟨_, _ | ⟨_, _ | ⟨_, _ | ⟨_, before⟩⟩⟩⟩⟩⟩ <;>
      simp at heq
    rcases heq with ⟨_, _, _, _, _, ⟨rfl, _⟩⟩
    rcases hsign with h | h <;> cases h
  refine ⟨hts, hrecovered, haccepted.trans ?_⟩
  rw [hiff.2 hwhole, ← hroot]

/-- `a + b c * d` is recovered as `(a + b) * d`, and `a + b * d` alone is another tree. -/
theorem recovery_tears_sum :
    (reportOn .resync (spanless [.var "a", .operator .add, .var "b", .var "c", .operator .mul,
        .var "d"]) none).outcome =
      .recovered (.root (.binary (.binary (.atomic (.var "a")) .add (.atomic (.var "b"))) .mul
        (.atomic (.var "d")))) ∧
    survivors (reportOn .resync (spanless [.var "a", .operator .add, .var "b", .var "c",
        .operator .mul, .var "d"]) none).verdicts =
      spanless [.var "a", .operator .add, .var "b", .operator .mul, .var "d"] ∧
    (reportOn .resync (spanless [.var "a", .operator .add, .var "b", .operator .mul, .var "d"])
        none).outcome =
      .accepted (.root (.binary (.atomic (.var "a")) .add
        (.binary (.atomic (.var "b")) .mul (.atomic (.var "d"))))) := by
  refine ⟨rfl, rfl, rfl⟩

end Arithmetic
end ShiftReduce
