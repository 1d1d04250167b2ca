import ShiftReduce.Proofs.Arithmetic.Consistency
import ShiftReduce.Proofs.Machine.Costs

/-!
# Work — how much a run has to do

Every terminal on the stack was shifted, and every node of a tree on it was built by one reduction.  A tree
has no more nodes than terminals, so there are no more reductions than shifts, but for the one that builds
the root.  Since the source holds so many tokens only, the work of a run is bounded by its size.

* `Expr.atoms`, `Expr.binaries`, `Expr.brackets`: the nodes of a tree by kind.
* `terminalCosting`, `nodeCosting`: symbols by what was shifted and by what was reduced.
* `Stacked.nodes_le`: a stack holds no more nodes than terminals, but for the root.
* `reductions_le_of_leads`: so a run reduces no more often than it shifts, but for the root.
* `Automaton.Bounded`, `work_is_bounded`: what an analysis of a queue or of a text takes at most.
-/

namespace ShiftReduce
namespace Arithmetic

/-! ## Terminals and nodes -/

namespace Expr

def atoms : Expr → Nat
  | .atomic _ => 1
  | .binary left _ right => left.atoms + right.atoms
  | .bracketed inner => inner.atoms

def binaries : Expr → Nat
  | .atomic _ => 0
  | .binary left _ right => left.binaries + right.binaries + 1
  | .bracketed inner => inner.binaries

def brackets : Expr → Nat
  | .atomic _ => 0
  | .binary left _ right => left.brackets + right.brackets
  | .bracketed inner => inner.brackets + 1

theorem size_eq_nodes (e : Expr) : e.size = e.atoms + e.binaries + e.brackets := by
  induction e with
  | atomic a => rfl
  | binary left op right ihl ihr =>
      simp only [size, atoms, binaries, brackets, ihl, ihr]
      omega
  | bracketed inner ih =>
      simp only [size, atoms, binaries, brackets, ih]
      omega

/-- A pair of brackets is two terminals, every other node one. -/
theorem length_symbols_eq_nodes (e : Expr) :
    e.symbols.length = e.atoms + e.binaries + 2 * e.brackets := by
  induction e with
  | atomic a => rfl
  | binary left op right ihl ihr =>
      simp only [symbols, List.length_append, List.length_cons, atoms, binaries, brackets, ihl, ihr]
      omega
  | bracketed inner ih =>
      simp only [symbols, List.length_cons, List.length_append, List.length_nil, atoms, binaries,
        brackets, ih]
      omega

/-- A tree has no more nodes than terminals. -/
theorem size_le_length_symbols (e : Expr) : e.size ≤ e.symbols.length := by
  rw [e.size_eq_nodes, e.length_symbols_eq_nodes]
  omega

end Expr

namespace Symbol

/-- The number of terminals that a symbol was read from. -/
def terminals : Symbol → Nat
  | .expression e | .root e => e.symbols.length
  | _ => 1

/-- The number of reductions that a symbol was built by. -/
def nodes : Symbol → Nat
  | .expression e => e.size
  | .root e => e.size + 1
  | _ => 0

theorem terminals_of_build? {p : Production} {rhs : List Symbol} {s : Symbol}
    (h : p.build? rhs = some s) : s.terminals = load terminals rhs := by
  unfold Production.build? at h
  split at h <;> cases h <;> simp [terminals, Expr.symbols] <;> omega

theorem nodes_of_build? {p : Production} {rhs : List Symbol} {s : Symbol}
    (h : p.build? rhs = some s) : s.nodes = load nodes rhs + 1 := by
  unfold Production.build? at h
  split at h <;> cases h <;> simp [nodes, Expr.size]

theorem nodes_le_terminals {s : Symbol} (h : s.root? = none) : s.nodes ≤ s.terminals := by
  cases s with
  | expression e => exact e.size_le_length_symbols
  | root e => cases h
  | _ => exact Nat.zero_le _

end Symbol

/-- A reduction that succeeds yields what its production builds. -/
theorem build?_of_product {p : Production} {rhs : List Symbol} {c : Unit} {s : Symbol}
    (h : (grammar.reduce p rhs c).product = .ok s) : p.build? rhs = some s := by
  simp only [grammar, Production.reduce] at h
  split at h
  · rename_i lhs hbuild
    cases h
    exact hbuild
  · cases h

def terminalCosting : grammar.Costing where
  cost := Symbol.terminals
  shift := 1
  reduction := 0
  cost_shifted state s target hterminal _ := by
    cases s with
    | expression e | root e => cases hterminal
    | _ => rfl
  cost_product p rhs c s h := Symbol.terminals_of_build? (build?_of_product h)

def nodeCosting : grammar.Costing where
  cost := Symbol.nodes
  shift := 0
  reduction := 1
  cost_shifted state s target hterminal _ := by
    cases s with
    | expression e | root e => cases hterminal
    | _ => rfl
  cost_product p rhs c s h := Symbol.nodes_of_build? (build?_of_product h)

/-! ## Stacks -/

theorem Spine.root?_of_mem_stacked {S : Spine} {s : Symbol} (h : s ∈ S.stacked) : s.root? = none := by
  induction S with
  | start => cases h
  | opened S ih =>
      rcases List.mem_cons.1 h with rfl | h
      · rfl
      · exact ih h
  | after S left op ih =>
      rcases List.mem_cons.1 h with rfl | h
      · rfl
      · rcases List.mem_cons.1 h with rfl | h
        · rfl
        · exact ih h

/-- Drafts have no root in them. -/
theorem Draft.Shows.root?_of_mem {D : Draft} {states : List State} {symbols : List Symbol}
    (h : D.Shows states symbols) {s : Symbol} (hs : s ∈ symbols) : s.root? = none := by
  cases h with
  | due S => exact S.root?_of_mem_stacked hs
  | whole S | number S | var S =>
      rcases List.mem_cons.1 hs with rfl | hs
      · rfl
      · exact S.root?_of_mem_stacked hs
  | closed S inner =>
      simp only [List.mem_cons] at hs
      rcases hs with rfl | rfl | rfl | hs
      · rfl
      · rfl
      · rfl
      · exact S.root?_of_mem_stacked hs

theorem Stacked.nodes_le {states : List State} {symbols : List Symbol} (h : Stacked states symbols) :
    load Symbol.nodes symbols ≤ load Symbol.terminals symbols + 1 := by
  cases h with
  | draft D h =>
      have hle := load_le_load fun s hs => Symbol.nodes_le_terminals (h.root?_of_mem hs)
      exact Nat.le_succ_of_le hle
  | root e =>
      -- The root takes one reduction more than its tree and reads no terminal more.
      have hsize := e.size_le_length_symbols
      simp only [load_cons, load_nil, Symbol.nodes, Symbol.terminals]
      omega

/-! ## Runs -/

section Runs

variable {Source : Type} [TokenSource Source Symbol] {mode : ErrorMode} {M N : Automaton Source}

theorem Typed.not_stranded (h : Typed N) : ¬N.Stranded grammar := by
  rintro ⟨hmeets, haction, _, hbase, hproduct, hstray⟩
  obtain ⟨lhs, base, target, hreducible⟩ := h.reducible hmeets haction
  cases hproduct.symm.trans (product_reduction hreducible.build)
  obtain ⟨below, hbelow⟩ := hreducible.base_eq
  cases hbase.symm.trans hbelow
  rcases hstray with hterminal | hnowhere
  · cases hterminal.symm.trans hreducible.nonterminal
  · exact hnowhere target hreducible.goto

variable [FaithfulSource Source]

theorem shifts_of_leads (h : Machine.Leads grammar mode (M.reset grammar.start) N) :
    load Symbol.terminals N.symbols = N.stats.shifts := by
  have hpaid := h.paid terminalCosting
  rw [Machine.Paid] at hpaid
  simpa [Automaton.symbols, load_map, terminalCosting] using hpaid

theorem reductions_of_leads (h : Machine.Leads grammar mode (M.reset grammar.start) N) :
    load Symbol.nodes N.symbols = N.stats.reductions := by
  have hpaid := h.paid nodeCosting
  rw [Machine.Paid] at hpaid
  simpa [Automaton.symbols, load_map, nodeCosting] using hpaid

/-- In every round of a run there have been no more reductions than shifts, but for the root. -/
theorem reductions_le_of_leads (h : Machine.Leads grammar mode (M.reset grammar.start) N) :
    N.stats.reductions ≤ N.stats.shifts + 1 := by
  rw [← shifts_of_leads h, ← reductions_of_leads h]
  exact (typed_of_leads h).stacked.nodes_le

end Runs

/-! ## Analyses -/

/-- What an analysis takes at most if `n` tokens, or characters, are to come.  It ends within so many
steps.  Every step that goes on takes a token or makes the stack lighter, so no two machines of the run
are the same. -/
structure Automaton.Bounded {Source : Type} [TokenSource Source Symbol] [FiniteSource Source]
    (mode : ErrorMode) (M : Automaton Source) (n : Nat) : Prop where
  ends : ∃ r, Machine.runWithin grammar mode (2 * n + 2) (M.reset grammar.start) = some r ∧
    M.analyze mode = Machine.conclude r
  consumed_le : (M.analyze mode).1.stats.shifts + (M.analyze mode).1.stats.discarded ≤ n
  reductions_le : (M.analyze mode).1.stats.reductions ≤ (M.analyze mode).1.stats.shifts + 1
  tokens_le : (M.analyze mode).1.stats.tokens ≤
    2 * (M.analyze mode).1.stats.shifts + (M.analyze mode).1.stats.discarded + 2
  ahead : ∀ N K, Machine.Leads grammar mode (M.reset grammar.start) N →
    Relation.TransGen (fun L L' => L.step grammar mode = .next L') N K → N.Ahead shrinking K

theorem bounded_by_size {Source : Type} [TokenSource Source Symbol] [FiniteSource Source]
    [FaithfulSource Source] (mode : ErrorMode) (M : Automaton Source) :
    M.Bounded mode (FiniteSource.size M.source) := by
  obtain ⟨_, N, r, _, hleads, hhalt, _, hanalyze⟩ := exists_ends_of_analyze mode M
  have hstats : (M.analyze mode).1.stats = r.2.stats := by
    rw [hanalyze, Machine.stats_conclude]
  obtain ⟨-, hshifts, hdiscarded, htokens⟩ := Machine.idle_of_halt hhalt
  have hreductions := Machine.reductions_of_halt (typed_of_leads hleads).not_stranded hhalt
  have hle := reductions_le_of_leads hleads
  have hexamined := hleads.balanced.tokens
  have hconsumed := Machine.size_add_consumed_le shrinking hleads
  rw [Machine.consumed] at hconsumed
  refine ⟨?_, ?_, ?_, ?_, ?_⟩
  · -- There are as many steps as lookaheads, and these are counted by what was done about them.
    obtain ⟨n, hn, hrun⟩ := Machine.exists_runWithin_tokens hleads
    have hzero : (M.reset grammar.start).stats.tokens = 0 := rfl
    have hfuel : n + 1 ≤ 2 * FiniteSource.size M.source + 2 := by omega
    exact ⟨_, Machine.runWithin_mono hfuel (hrun r.1 r.2 hhalt), hanalyze⟩
  · rw [hstats]
    omega
  · rw [hstats]
    omega
  · rw [hstats]
    omega
  · intro N K _ hsteps
    exact Machine.ahead_of_transGen shrinking hsteps

/-- Every analysis ends, in a number of steps that is bounded by the tokens or characters that are
left, and no step leads back. -/
theorem work_is_bounded (mode : ErrorMode) :
    (∀ Q : Automaton (Queue Symbol), Q.Bounded mode Q.source.length) ∧
    ∀ S : Automaton Scanner, S.Bounded mode S.source.size :=
  ⟨bounded_by_size mode, bounded_by_size mode⟩

/-- One operand reaches the bounds: one shift, two reductions and four lookaheads. -/
example : (report "a" .resync).stats = ⟨4, 1, 2, 2, 0⟩ := by
  decide +kernel

end Arithmetic
end ShiftReduce
