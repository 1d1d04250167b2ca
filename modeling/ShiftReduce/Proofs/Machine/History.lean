import ShiftReduce.Grammar.Rows
import ShiftReduce.Proofs.Machine.Effect

/-!
# History — analyses one after another on the same machine

An analysis empties its machine before it runs.  Of what the analyses before it left there, only the
rest of the source and the context of the reductions reach it; a new machine over these two would
report the same and leave the same.  The counters of the last analysis do stay, and do no harm.

* `Machine.History`: analyses on one machine; `Machine.Relay`: the same on a new machine each time.
* `Machine.analyzeWithin_congr`: what an analysis depends on.
* `Machine.analyses_do_not_leak`: every history is a relay, and goes on like one.
-/

namespace ShiftReduce

variable {State Production Symbol Kind Context Source : Type}

namespace Machine

variable [TokenSource Source Symbol] [GrammarSymbol Symbol Kind] [ToString State] [ToString Kind]

/-- Analyses of a machine one after another, each with its mode and its report, and the machine that
they leave.  Reading a tree is an analysis of which only `Analysis.result?` is looked at. -/
inductive History (G : Grammar State Production Symbol Kind Context) :
    Machine State Production Symbol Kind Context Source →
      List (ErrorMode × Analysis State Production Symbol Kind) →
        Machine State Production Symbol Kind Context Source → Prop
  | nil (M : Machine State Production Symbol Kind Context Source) : History G M [] M
  | cons {mode : ErrorMode} {fuel : Nat} {M N K : Machine State Production Symbol Kind Context Source}
      {A : Analysis State Production Symbol Kind}
      {calls : List (ErrorMode × Analysis State Production Symbol Kind)}
      (first : analyzeWithin G mode fuel M = some (A, N)) (rest : History G N calls K) :
      History G M ((mode, A) :: calls) K

/-- Analyses one after another, each of a new machine that takes over source and context from the one
before it. -/
inductive Relay (G : Grammar State Production Symbol Kind Context) :
    Source → Context → List (ErrorMode × Analysis State Production Symbol Kind) →
      Source → Context → Prop
  | nil (source : Source) (context : Context) : Relay G source context [] source context
  | cons {mode : ErrorMode} {fuel : Nat} {source source' : Source} {context context' : Context}
      {N : Machine State Production Symbol Kind Context Source}
      {A : Analysis State Production Symbol Kind}
      {calls : List (ErrorMode × Analysis State Production Symbol Kind)}
      (first : analyzeWithin G mode fuel (ofSource source context) = some (A, N))
      (rest : Relay G N.source N.context calls source' context') :
      Relay G source context ((mode, A) :: calls) source' context'

variable {G : Grammar State Production Symbol Kind Context} {mode : ErrorMode}
  {M N K : Machine State Production Symbol Kind Context Source}
  {calls : List (ErrorMode × Analysis State Production Symbol Kind)}

/-- Machines that agree on source and context are analyzed alike, whatever else they hold. -/
theorem analyzeWithin_congr (hsource : M.source = N.source) (hcontext : M.context = N.context)
    (mode : ErrorMode) (fuel : Nat) :
    analyzeWithin G mode fuel M = analyzeWithin G mode fuel N := by
  have hreset : M.reset G.start = N.reset G.start := by
    rw [reset, hsource, hcontext, reset]
  rw [analyzeWithin, analyzeWithin, hreset]

theorem History.relay (h : History G M calls K) :
    Relay G M.source M.context calls K.source K.context := by
  induction h with
  | nil M => exact .nil _ _
  | @cons mode fuel M N K A calls first _ ih =>
      have hfresh : analyzeWithin G mode fuel (ofSource M.source M.context) = some (A, N) :=
        (analyzeWithin_congr rfl rfl mode fuel).trans first
      exact .cons hfresh ih

/-- Between two analyses a machine holds nothing but its source, its context and the counters of the
last one. -/
theorem eq_of_analyzeWithin {fuel : Nat} {A : Analysis State Production Symbol Kind}
    (h : analyzeWithin G mode fuel M = some (A, N)) :
    N = { ofSource N.source N.context with stats := A.stats } := by
  obtain ⟨⟨_ | _, K⟩, _, rfl, rfl⟩ := exists_run_of_analyzeWithin h
  · rfl
  · rfl

theorem History.eq_of_getLast (h : History G M calls K)
    {A : Analysis State Production Symbol Kind} (hlast : calls.getLast? = some (mode, A)) :
    K = { ofSource K.source K.context with stats := A.stats } := by
  induction h with
  | nil M => cases hlast
  | cons first rest ih =>
      cases rest with
      | nil =>
          cases hlast
          exact eq_of_analyzeWithin first
      | cons => exact ih (List.getLast?_cons_cons.symm.trans hlast)

/-- An analysis reports and leaves what it would on a new machine with the same source and context;
nothing else is carried over but the counters. -/
theorem analyses_do_not_leak (h : History G M calls K) :
    (∀ mode fuel,
      analyzeWithin G mode fuel K = analyzeWithin G mode fuel (ofSource K.source K.context)) ∧
    Relay G M.source M.context calls K.source K.context ∧
    ∀ mode A, calls.getLast? = some (mode, A) →
      K = { ofSource K.source K.context with stats := A.stats } := by
  refine ⟨?_, h.relay, ?_⟩
  · intro mode fuel
    exact analyzeWithin_congr rfl rfl mode fuel
  · intro mode A hlast
    exact h.eq_of_getLast hlast

/-- A table that reduces an `n` in front of another one by a production that cannot be built. -/
def unbuildable : Rows where
  start := "S"
  rules := [⟨"S", .kind "n", .shift "N"⟩, ⟨"S", .kind "E", .shift "E"⟩, ⟨"E", .kind "$", .accept⟩,
    ⟨"N", .kind "n", .reduce ⟨"E -> n", 1, .failure "cannot be built"⟩⟩,
    ⟨"N", .kind "$", .reduce ⟨"E -> n", 1, .symbol "E" false⟩⟩]

def unbuildableInput : Queue NamedSymbol :=
  .ofList [⟨⟨"n", "n", true, false⟩, none⟩, ⟨⟨"n", "n", true, false⟩, none⟩,
    ⟨⟨"x", "x", true, false⟩, none⟩, ⟨⟨"n", "n", true, false⟩, none⟩,
    ⟨⟨"$", "$", true, true⟩, none⟩]

/-- The witness reads `n n x n`: the first analysis fails within a reduction, the second on the `x`,
and the third reads the `n` behind it. -/
theorem no_leak_after_failed_reduction : ∃ K first second third K',
    History unbuildable.grammar (ofSource unbuildableInput ())
      [(.abort, first), (.abort, second)] K ∧
    first.outcome = .failed (.internal "cannot be built") ∧
    second.outcome = .failed (.unexpected "x" none) ∧
    K = { ofSource K.source K.context with stats := second.stats } ∧ second.stats.tokens = 2 ∧
    analyzeWithin unbuildable.grammar .resync 9 K = some (third, K') ∧
    analyzeWithin unbuildable.grammar .resync 9 (ofSource K.source K.context) = some (third, K') ∧
    third.recovered? = some ⟨"E", "E(n)", false, false⟩ := by
  have hfirst : analyzeWithin unbuildable.grammar .abort 9 (ofSource unbuildableInput ()) =
      some (_, _) := rfl
  have hcalls : History unbuildable.grammar (ofSource unbuildableInput ())
      [(.abort, _), (.abort, _)] _ :=
    .cons hfirst (.cons (show analyzeWithin unbuildable.grammar .abort 9 _ = some (_, _) from rfl)
      (.nil _))
  have h := analyses_do_not_leak hcalls
  refine ⟨_, _, _, _, _, hcalls, rfl, rfl, h.2.2 _ _ rfl, rfl, rfl, ?_, ?_⟩
  · exact (h.1 .resync 9).symm.trans rfl
  · rfl

end Machine
end ShiftReduce
