import StackLang.Machine.Step

/-!
# Runs

A run repeats the step of the machine, at most a given number of times. Runs can follow
one another: each starts at the first instruction with the variables as the run before
left them, an empty sink, and the operand stack either emptied or kept.
-/

namespace StackLang

namespace Machine

/-- At most `n` steps. -/
def run (p : Program) : Nat → Machine → Machine
  | 0, m => m
  | n + 1, m =>
    match m.current? p with
    | none => m
    | some _ => run p n (m.step p)

/-- A machine at the start of a program. -/
def start (store : Store) (limit : Option Nat) : Machine :=
  { store := store, sink := { limit := limit } }

/-- The machine for the next run. -/
def restart (keepStack : Bool) (m : Machine) : Machine :=
  { store := m.store, sink := m.sink.renew, stack := if keepStack then m.stack else [] }

/-- Consecutive runs of at most `steps` steps each: the machine at the end of every run.
-/
def runs (p : Program) (steps : Nat) (keepStack : Bool) : Nat → Machine → List Machine
  | 0, _ => []
  | n + 1, m =>
    let ended := m.run p steps
    ended :: runs p steps keepStack n (ended.restart keepStack)

@[simp] theorem run_zero (p : Program) (m : Machine) : m.run p 0 = m := rfl

theorem run_succ (p : Program) (n : Nat) (m : Machine) : m.run p (n + 1) = (m.step p).run p n := by
  rw [run]
  split
  · next h =>
    rw [step_of_current?_eq_none p m h]
    cases n with
    | zero => rfl
    | succ n => rw [run, h]
  · rfl

theorem run_add (p : Program) (a b : Nat) (m : Machine) :
    m.run p (a + b) = (m.run p a).run p b := by
  induction a generalizing m with
  | zero => simp
  | succ a ih => rw [Nat.succ_add, run_succ, run_succ, ih]

/-- Once a run has come to an end, more steps change nothing. -/
theorem run_of_ended {p : Program} {m : Machine} {n k : Nat}
    (h : (m.run p n).current? p = none) (hnk : n ≤ k) : m.run p k = m.run p n := by
  obtain ⟨j, rfl⟩ := Nat.le.dest hnk
  rw [run_add]
  cases j with
  | zero => rfl
  | succ j => rw [run, h]

end Machine

end StackLang
