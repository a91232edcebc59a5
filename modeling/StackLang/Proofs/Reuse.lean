import StackLang.Proofs.Agreement
import StackLang.Proofs.Machine.Height
import StackLang.Proofs.Tree.Faults

/-!
# Machines that are used again

A fault can leave operands behind, values as well as variables that wait to be assigned.
The program of a text never comes to them in a later run: it takes no more operands than
it has pushed itself, so it runs above any stack as it runs above the empty one, and at
each index the stack is equally high above the old operands every time. Consecutive runs
can therefore keep the stack or empty it, and nobody sees the difference.
-/

namespace StackLang

open StackLang.Tree

namespace Machine

/-- What can be seen of a machine at the end of a run. -/
def visible (m : Machine) : Sink × Option (Located RunError) × Store := (m.sink, m.fault, m.store)

/-- The run from `m` is the same with the stack `s` below. -/
structure RunsAbove (p : Program) (m : Machine) (s : Stack) : Prop where
  /-- At every time, `s` lies below what the run has without it, and that is all. -/
  framed : ∀ n, (m.above s).run p n = (m.run p n).above s
  /-- The operands that an instruction takes lie above `s`. -/
  taken : ∀ n i, ((m.above s).run p n).current? p = some i →
    i.op.taken + s.length ≤ ((m.above s).run p n).stack.length
  /-- A run that ends without a fault leaves just `s`. -/
  finished : ∀ n, ((m.above s).run p n).current? p = none →
    ((m.above s).run p n).fault = none → ((m.above s).run p n).stack = s
  /-- How high the stack is above `s` depends on the index alone. -/
  height : ∀ n, ((m.above s).run p n).fault = none →
    ((m.above s).run p n).stack.length = p.height ((m.above s).run p n).counter + s.length

end Machine

namespace Program

/-- Runs of a program do not depend on what earlier runs left on the stack. -/
structure Reusable (p : Program) : Prop where
  runsAbove : ∀ ρ limit s, Machine.RunsAbove p (Machine.start (p.store.holding ρ) limit) s
  /-- Consecutive runs show the same whether the stack is kept or emptied between them. -/
  consecutive : ∀ ρ limit steps k,
    (Machine.runs p steps true k (Machine.start (p.store.holding ρ) limit)).map Machine.visible =
      (Machine.runs p steps false k (Machine.start (p.store.holding ρ) limit)).map Machine.visible

theorem Renders.level {p : Program} {ss : List Statement} (h : p.Renders ss) : p.Level := by
  have hrises := rises_nestsAll ss 0 (le_refl _) h.placed
  have hlt (c : Nat) (i : Instruction) (hi : p.code.get? c = some i) :
      c < 0 + Nest.sizeAll (Statement.nestsAll ss) := by
    rw [Nat.zero_add, ← h.size]
    exact Chain.lt_size_of_get? p.code c i hi
  exact ⟨fun c i t hi => hrises.jumps c i t (Nat.zero_le c) (hlt c i hi) hi,
    fun c i hi => hrises.taken c i (Nat.zero_le c) (hlt c i hi) hi⟩

theorem runsAbove_of_agrees {p : Program} (hlevel : p.Level) {ss : List Statement}
    (ρ : String → Value) (limit : Option Nat)
    (hagrees : Agrees p ss (Machine.start (p.store.holding ρ) limit) ⟨ρ, { limit := limit }⟩)
    (s : Stack) : Machine.RunsAbove p (Machine.start (p.store.holding ρ) limit) s := by
  have hframed (n : Nat) : ((Machine.start (p.store.holding ρ) limit).above s).run p n =
      ((Machine.start (p.store.holding ρ) limit).run p n).above s := by
    refine Machine.run_above _ s (fun k f hfault hunderflow => ?_) n
    obtain ⟨s', c, stack, hfaults, -⟩ := hagrees.faulted k f hfault
    exact Statement.not_internal_of_faults ss _ f s' hfaults (by rw [hunderflow]; trivial)
  have hheight := Machine.height_of_run (m := (Machine.start (p.store.holding ρ) limit).above s)
    hlevel s.length (by simp [Machine.above, Machine.start])
  refine ⟨hframed, ?_, ?_, hheight⟩
  · intro n i hcurrent
    have htaken := hlevel.taken _ i (Machine.get?_of_current? hcurrent)
    have hstack := hheight n (Machine.fault_of_current? hcurrent)
    omega
  · intro n hcurrent hfault
    rw [hframed] at hcurrent hfault ⊢
    obtain ⟨s', -, hrun⟩ := hagrees.finished n hcurrent hfault
    rw [hrun]
    rfl

/-- Two machines that differ in the operands below go on to differ in these only, run after
run. -/
theorem visible_runs {p : Program} (hdistinct : p.store.Distinct)
    (hruns : ∀ ρ limit s, Machine.RunsAbove p (Machine.start (p.store.holding ρ) limit) s)
    (steps k : Nat) : ∀ ρ limit s,
      (Machine.runs p steps true k ((Machine.start (p.store.holding ρ) limit).above s)).map
          Machine.visible =
        (Machine.runs p steps false k (Machine.start (p.store.holding ρ) limit)).map
          Machine.visible := by
  induction k with
  | zero => exact fun _ _ _ => rfl
  | succ k ih =>
      intro ρ limit s
      -- The variables behind the run are again values for the variables of the program.
      obtain ⟨ρ', hstore, -⟩ :=
        (Machine.revises_run p (Machine.start (p.store.holding ρ) limit) steps).exists_holding
          hdistinct
      rw [Machine.runs, Machine.runs, (hruns ρ limit s).framed]
      generalize (Machine.start (p.store.holding ρ) limit).run p steps = ended at hstore
      have hkept : (ended.above s).restart true =
          (Machine.start (p.store.holding ρ') ended.sink.limit).above (ended.stack ++ s) := by
        rw [← hstore]
        rfl
      have hemptied : ended.restart false =
          Machine.start (p.store.holding ρ') ended.sink.limit := by
        rw [← hstore]
        rfl
      simp only [List.map_cons, hkept, hemptied, ih]
      rfl

/-- A program that comes from a text can be run on a machine that was used before. -/
theorem reusable_of_ofSource (source : String) (p : Program) (h : ofSource source = .ok p) :
    p.Reusable := by
  obtain ⟨ss, hss, -⟩ := Grammar.exists_tree_of_readSource source (Reading.outcome_of_compile h)
  have hrenders := renders_of_ofSource source p h ss hss
  have hruns (ρ : String → Value) (limit : Option Nat) (s : Stack) :
      Machine.RunsAbove p (Machine.start (p.store.holding ρ) limit) s :=
    runsAbove_of_agrees hrenders.level ρ limit (agrees_of_derivesAll source p h ss hss ρ limit) s
  refine ⟨hruns, ?_⟩
  intro ρ limit steps k
  simpa [Machine.above] using visible_runs hrenders.distinct hruns steps k ρ limit []

/-- A fault in the middle of an assignment: the variable is left on the stack. -/
def abandoned : String := "integer x; x := 1 / x;"

theorem reusable_of_ofSource_abandoned : ∃ p, ofSource abandoned = .ok p ∧ p.Reusable := by
  have hok : (ofSource abandoned).isOk = true := by decide +kernel
  cases hp : ofSource abandoned with
  | error e => simp [hp, Except.isOk, Except.toBool] at hok
  | ok p => exact ⟨p, rfl, reusable_of_ofSource abandoned p hp⟩

example : (ofSource abandoned).toOption.map (fun p => ((Machine.start p.store none).run p 9).stack) =
    some [.target 0] := by decide +kernel

end Program

end StackLang
