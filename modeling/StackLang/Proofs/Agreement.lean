import StackLang.Proofs.Acceptance
import StackLang.Proofs.Machine.Simulation

/-!
# Programs do what their trees mean

A program that comes from a text behaves like any tree of the tokens of that text, from
any values of the variables: it finishes in the same state, stops with the same fault, or
runs forever. A run of the machine has only one end, and one of the three holds of every
tree, so each of them is carried over in both directions.
-/

namespace StackLang

open StackLang.Tree

namespace Machine

variable {p : Program} {m : Machine} {n k : Nat}

/-- A run has one end. -/
theorem run_eq_of_ended (hn : (m.run p n).current? p = none) (hk : (m.run p k).current? p = none) :
    m.run p n = m.run p k :=
  (run_of_ended hn (Nat.le_max_left n k)).symm.trans (run_of_ended hk (Nat.le_max_right n k))

theorem current?_poised_of_lt (c : Nat) (stack : Stack) (s : State) (hc : c < p.size) :
    (poised p c stack s).current? p ≠ none := by
  intro h
  exact absurd ((Chain.get?_eq_none_iff p.code c).mp h) (Nat.not_le.mpr hc)

theorem current?_poised_size (stack : Stack) (s : State) :
    (poised p p.size stack s).current? p = none :=
  (Chain.get?_eq_none_iff p.code p.code.size).mpr (Nat.le_refl _)

theorem current?_stopped (c : Nat) (stack : Stack) (s : State) (f : Located RunError) :
    (stopped p c stack s f).current? p = none := rfl

end Machine

namespace Tree.Statement

/-- Every program finishes, faults or runs forever. -/
theorem finishes_or_faults_or_runsForever (ss : List Statement) (s : State) :
    (∃ s', Finishes ss s s') ∨ (∃ f s', Faults ss s f s') ∨ RunsForever ss s := by
  by_cases hfinishes : ∃ s', Finishes ss s s'
  · exact .inl hfinishes
  by_cases hfaults : ∃ f s', Faults ss s f s'
  · exact .inr (.inl hfaults)
  refine .inr (.inr ?_)
  intro fuel
  cases houtcome : outcome ss fuel s with
  | done s' => exact absurd ⟨s', fuel, houtcome⟩ hfinishes
  | fault f s' => exact absurd ⟨f, s', fuel, houtcome⟩ hfaults
  | unfinished s' => exact ⟨s', rfl⟩

end Tree.Statement

/-- The runs of a program from the machine `m` agree with what statements mean from the
state `s`. -/
structure Agrees (p : Program) (ss : List Statement) (m : Machine) (s : State) : Prop where
  finishes : ∀ s', Statement.Finishes ss s s' → ∃ n, m.run p n = .poised p p.size m.stack s'
  faults : ∀ f s', Statement.Faults ss s f s' → ∃ n c stack, m.run p n = .stopped p c stack s' f
  /-- The run keeps up with every loop that is still going on. -/
  unfinished : ∀ fuel s', Statement.outcome ss fuel s = .unfinished s' →
    ∃ n c stack, fuel ≤ n ∧ c < p.size ∧ m.run p n = .poised p c stack s'
  runsForever_iff : Statement.RunsForever ss s ↔ ∀ n, (m.run p n).current? p ≠ none
  finished : ∀ n, (m.run p n).current? p = none → (m.run p n).fault = none →
    ∃ s', Statement.Finishes ss s s' ∧ m.run p n = .poised p p.size m.stack s'
  faulted : ∀ n f, (m.run p n).fault = some f →
    ∃ s' c stack, Statement.Faults ss s f s' ∧ m.run p n = .stopped p c stack s' f

namespace Machine

section Following

variable {p : Program} {ss : List Statement} {m : Machine} {s : State}
  (h : ∀ fuel, Follows p fuel m p.size m.stack (Statement.outcome ss fuel s))
include h

theorem reaches_of_finishes (s' : State) (hs : Statement.Finishes ss s s') :
    ∃ n, m.run p n = poised p p.size m.stack s' := by
  obtain ⟨fuel, houtcome⟩ := hs
  have hfollows := h fuel
  rwa [houtcome] at hfollows

theorem stops_of_faults (f : Located RunError) (s' : State) (hs : Statement.Faults ss s f s') :
    ∃ n c stack, m.run p n = stopped p c stack s' f := by
  obtain ⟨fuel, houtcome⟩ := hs
  have hfollows := h fuel
  rwa [houtcome] at hfollows

theorem busy_of_unfinished (fuel : Nat) (s' : State)
    (houtcome : Statement.outcome ss fuel s = .unfinished s') :
    ∃ n c stack, fuel ≤ n ∧ c < p.size ∧ m.run p n = poised p c stack s' := by
  have hfollows := h fuel
  rw [houtcome] at hfollows
  obtain ⟨n, c, stack, hn, hrun, hc⟩ := hfollows
  exact ⟨n, c, stack, hn, hc, hrun⟩

theorem running_of_runsForever (hs : Statement.RunsForever ss s) (n : Nat) :
    (m.run p n).current? p ≠ none := by
  intro hended
  obtain ⟨s', houtcome⟩ := hs n
  obtain ⟨k, c, stack, hnk, hc, hrun⟩ := busy_of_unfinished h n s' houtcome
  rw [← run_of_ended hended hnk, hrun] at hended
  exact current?_poised_of_lt c stack s' hc hended

/-- The end of a run, if it has one, is the end that the statements come to. -/
theorem end_of_follows (n : Nat) (hended : (m.run p n).current? p = none) :
    (∃ s', Statement.Finishes ss s s' ∧ m.run p n = poised p p.size m.stack s') ∨
      ∃ f s' c stack, Statement.Faults ss s f s' ∧ m.run p n = stopped p c stack s' f := by
  rcases Statement.finishes_or_faults_or_runsForever ss s with ⟨s', hs⟩ | ⟨f, s', hs⟩ | hs
  · obtain ⟨k, hrun⟩ := reaches_of_finishes h s' hs
    have hk : (m.run p k).current? p = none := by rw [hrun, current?_poised_size]
    exact .inl ⟨s', hs, (run_eq_of_ended hended hk).trans hrun⟩
  · obtain ⟨k, c, stack, hrun⟩ := stops_of_faults h f s' hs
    have hk : (m.run p k).current? p = none := by rw [hrun, current?_stopped]
    exact .inr ⟨f, s', c, stack, hs, (run_eq_of_ended hended hk).trans hrun⟩
  · exact absurd hended (running_of_runsForever h hs n)

theorem runsForever_of_running (hrunning : ∀ n, (m.run p n).current? p ≠ none) :
    Statement.RunsForever ss s := by
  rcases Statement.finishes_or_faults_or_runsForever ss s with ⟨s', hs⟩ | ⟨f, s', hs⟩ | hs
  · obtain ⟨k, hrun⟩ := reaches_of_finishes h s' hs
    exact absurd (by rw [hrun, current?_poised_size]) (hrunning k)
  · obtain ⟨k, c, stack, hrun⟩ := stops_of_faults h f s' hs
    exact absurd (by rw [hrun, current?_stopped]) (hrunning k)
  · exact hs

theorem agrees_of_follows : Agrees p ss m s where
  finishes := reaches_of_finishes h
  faults := stops_of_faults h
  unfinished := busy_of_unfinished h
  runsForever_iff := ⟨running_of_runsForever h, runsForever_of_running h⟩
  finished n hended hfault := by
    rcases end_of_follows h n hended with hend | ⟨f, s', c, stack, -, hrun⟩
    · exact hend
    · rw [hrun] at hfault
      cases hfault
  faulted n f hfault := by
    have hended : (m.run p n).current? p = none := by rw [current?, hfault]
    rcases end_of_follows h n hended with ⟨s', -, hrun⟩ | ⟨f', s', c, stack, hs, hrun⟩
    · rw [hrun] at hfault
      cases hfault
    · rw [hrun] at hfault
      obtain rfl : f' = f := Option.some.inj hfault
      exact ⟨s', c, stack, hs, hrun⟩

end Following

end Machine

namespace Program

/-- The program is the code of the statements, with everything that they mention in its
store. -/
structure Renders (p : Program) (ss : List Statement) : Prop where
  placed : p.code.Placed 0 (Nest.codeAll p.store 0 (Statement.nestsAll ss))
  size : p.size = Nest.sizeAll (Statement.nestsAll ss)
  distinct : p.store.Distinct
  serves : p.store.Serves (Statement.mentionsAll ss)
  kinds : ∀ name, p.store.find? name ≠ none → Statement.kindOf ss name = p.store.kindOf name

/-- The program of a text renders every tree of its tokens. -/
theorem renders_of_ofSource (source : String) (p : Program) (h : ofSource source = .ok p)
    (ss : List Statement)
    (hss : Statement.DerivesAll (TokenStream.ofSource source).significant.tokens ss) :
    p.Renders ss := by
  obtain ⟨τ, hτ, rfl⟩ := ofSource_of_derivesAll source p h ss hss
  obtain ⟨huses, hnumerals⟩ := Store.resolved_of_foldlM _ τ _ hτ
  refine ⟨?_, ?_, ?_, ⟨huses, ?_⟩, Statement.kindOf_eq ss τ hτ⟩
  · exact Chain.placed_of_toList _ [] _ [] (by simp)
  · rw [size, Chain.size_append, Nest.length_codeAll]
    exact Nat.zero_add _
  · rw [← Statement.afterAll?_plains] at hτ
    exact Store.distinct_of_afterAll? _ τ _ Store.distinct_empty hτ
  · intro text htext
    have hrange := (readable_iff source ss hss text htext).mp (hnumerals text htext)
    rw [Decimal.readInt64?_of_isNumeral (isNumeral_of_derivesAll source ss hss text htext),
      if_pos hrange]

/-- The program of a text follows every tree of its tokens, whatever lies on the stack. -/
theorem follows_outcome (source : String) (p : Program) (h : ofSource source = .ok p)
    (ss : List Statement)
    (hss : Statement.DerivesAll (TokenStream.ofSource source).significant.tokens ss)
    (stack : Stack) (s : State) (fuel : Nat) :
    Machine.Follows p fuel (.poised p 0 stack s) p.size stack (Statement.outcome ss fuel s) := by
  have hrenders := renders_of_ofSource source p h ss hss
  have hfollows := Machine.follows_execAll hrenders.distinct (Statement.kindOf ss) hrenders.kinds
    fuel ss 0 stack s hrenders.placed hrenders.serves
  rwa [Nat.zero_add, ← hrenders.size] at hfollows

theorem agrees_of_derivesAll (source : String) (p : Program) (h : ofSource source = .ok p)
    (ss : List Statement)
    (hss : Statement.DerivesAll (TokenStream.ofSource source).significant.tokens ss)
    (ρ : String → Value) (limit : Option Nat) :
    Agrees p ss (Machine.start (p.store.holding ρ) limit) ⟨ρ, { limit := limit }⟩ :=
  Machine.agrees_of_follows fun fuel =>
    follows_outcome source p h ss hss [] ⟨ρ, { limit := limit }⟩ fuel

/-- A program that comes from a text does what any tree of its tokens means, from any
values of the variables and with any sink: it finishes in the same state, stops with the
same fault at the same place, or runs forever. -/
theorem agrees_with_tree (source : String) (p : Program) (h : ofSource source = .ok p) :
    (∃ ss, DerivesProgram (TokenStream.ofSource source).significant.toList ss) ∧
      ∀ ss, DerivesProgram (TokenStream.ofSource source).significant.toList ss →
        p.store.declarations = Statement.declarations ss ∧
          ∀ (ρ : String → Value) (limit : Option Nat),
            Agrees p ss (Machine.start (p.store.holding ρ) limit) ⟨ρ, { limit := limit }⟩ := by
  refine ⟨?_, ?_⟩
  · obtain ⟨ss, hss, -⟩ :=
      Grammar.exists_tree_of_readSource source (Reading.outcome_of_compile h)
    exact ⟨ss, (derivesProgram_toList_iff _ ss).mpr hss⟩
  · intro ss hderives
    have hss := (derivesProgram_toList_iff _ ss).mp hderives
    refine ⟨?_, ?_⟩
    · obtain ⟨τ, hτ, rfl⟩ := ofSource_of_derivesAll source p h ss hss
      exact Store.declarations_of_foldlM Store.empty τ _ hτ
    · exact agrees_of_derivesAll source p h ss hss

/-- A loop around a conditional, with a declaration inside of the loop. -/
def countdown : String :=
  "integer x; x := 3; while x > 0 string s; if x == 2 s := s + x; else print -x; end; x := x - 1; end;"

theorem agrees_with_tree_countdown :
    ∃ p, ofSource countdown = .ok p ∧
      (∃ ss, DerivesProgram (TokenStream.ofSource countdown).significant.toList ss) ∧
      ∀ ss, DerivesProgram (TokenStream.ofSource countdown).significant.toList ss →
        p.store.declarations = Statement.declarations ss ∧
          ∀ (ρ : String → Value) (limit : Option Nat),
            Agrees p ss (Machine.start (p.store.holding ρ) limit) ⟨ρ, { limit := limit }⟩ := by
  have hok : (ofSource countdown).isOk = true := by decide +kernel
  cases hp : ofSource countdown with
  | error e => simp [hp, Except.isOk, Except.toBool] at hok
  | ok p => exact ⟨p, rfl, agrees_with_tree countdown p hp⟩

end Program

end StackLang
