import StackLang.Proofs.Acceptance
import StackLang.Proofs.Draft.Jumps
import StackLang.Proofs.Machine.Height

/-!
# Only loops go back

A step that succeeds leads ahead in the program or out of it, unless it jumps back to the
head of a loop. That follows from where the jumps of a program lead, and these were given
their targets by events in any order. Where no loop was begun there is no head to go back
to: the counter rises with every step, so the run is over after as many steps as there are
instructions, and no instruction is executed twice.
-/

namespace StackLang

open StackLang.Tree

namespace Operation

theorem exists_loop_of_resolve {op : Operation} {t : Nat} {u : Option Nat}
    (h : op.resolve t = .loop u) : ∃ u', op = .loop u' := by
  cases op with
  | loop u' => exact ⟨u', rfl⟩
  | declare | target | read | assign | print | branch | otherwise | jump | close | constant
  | operator => cases h

/-- The target of an operation lies ahead, or the operation jumps back to the head of a loop.
-/
theorem Routed.target_cases {code : Chain Instruction} {c t : Nat} {op : Operation}
    (h : op.Routed code c) (ht : op.target? = some t) :
    (c < t ∧ t < code.size) ∨ (op = .jump (some t) ∧ t < c ∧ ∃ u, code.op? t = some (.loop u)) := by
  cases op with
  | branch target =>
      obtain rfl : target = some t := ht
      exact .inl ⟨h.1, h.2.elim Chain.lt_size_of_op? Chain.lt_size_of_op?⟩
  | loop target =>
      obtain rfl : target = some t := ht
      exact .inl ⟨h.1, Chain.lt_size_of_op? h.2⟩
  | jump target =>
      obtain rfl : target = some t := ht
      rcases h with ⟨hahead, hclose⟩ | ⟨hback, hloop, -⟩
      · exact .inl ⟨hahead, Chain.lt_size_of_op? hclose⟩
      · exact .inr ⟨rfl, hback, hloop⟩
  | declare | target | read | assign | print | otherwise | close | constant | operator => cases ht

end Operation

namespace Chain

/-- No operation is the head of a loop. -/
def Loopless (code : Chain Instruction) : Prop := ∀ c u, code.op? c ≠ some (.loop u)

variable {code : Chain Instruction}

theorem Loopless.push (h : code.Loopless) {i : Instruction} (hi : ∀ u, i.op ≠ .loop u) :
    (code.push i).Loopless := by
  intro c u hc
  rw [op?, get?_push] at hc
  by_cases hlast : c = code.size
  · rw [if_pos hlast] at hc
    exact hi u (Option.some.inj hc)
  · rw [if_neg hlast] at hc
    exact h c u hc

theorem Loopless.resolve (h : code.Loopless) (index target : Nat) :
    (code.modify index (Instruction.resolve target)).Loopless := by
  intro c u hc
  rw [op?, get?_modify] at hc
  by_cases hindex : index = c
  · rw [if_pos hindex, Option.map_map] at hc
    obtain ⟨i, hi, hop⟩ := Option.map_eq_some_iff.mp hc
    obtain ⟨u', hloop⟩ := Operation.exists_loop_of_resolve hop
    exact h c u' (by rw [op?_of_get? hi, hloop])
  · rw [if_neg hindex] at hc
    exact h c u hc

end Chain

namespace Draft

/-- Only the event that begins a loop brings in the head of one. -/
theorem loopless_of_changes {d d' : Draft} {e : Located Event} (h : d.code.Loopless)
    (hd : d.Changes e d') (he : e.item ≠ .loop) : d'.code.Loopless := by
  cases hd with
  | plain e σ hσ =>
      refine h.push fun u hop => ?_
      rw [Plain.instruction] at hop
      cases hevent : e.event <;> simp [hevent, Event.operation] at hop
  | branch pos => exact h.push (by simp)
  | loop pos => exact absurd rfl he
  | otherwise pos headPos head outer hopenings =>
      exact ((h.push (by simp)).push (by simp)).resolve head _
  | close pos o outer hopenings => exact (h.push (by simp)).resolve o.index _
  | closeLoop pos headPos o head outer hopenings =>
      exact ((h.push (by simp)).push (by simp)).resolve o.index _

theorem loopless_foldl_absorb (es : List (Located Event)) (hes : ∀ e ∈ es, e.item ≠ .loop)
    (d : Draft) (hd : d.code.Loopless) : (es.foldl absorb d).code.Loopless := by
  induction es generalizing d with
  | nil => exact hd
  | cons e es ih =>
      refine ih (fun e' he' => hes e' (List.mem_cons_of_mem e he')) (d.absorb e) ?_
      rcases d.absorb_cases e with hsame | hchanges
      · rwa [hsame]
      · exact loopless_of_changes hd hchanges (hes e List.mem_cons_self)

end Draft

namespace Machine

/-- Where a step that succeeds leads from `m`. -/
inductive Advances (p : Program) (m m' : Machine) : Prop where
  /-- Behind the last instruction, and the run is over. -/
  | out (hcounter : m'.counter = p.size) (hended : m'.current? p = none)
  | ahead (hlt : m.counter < m'.counter) (hrange : m'.counter < p.size)
  /-- By a jump, back to the head of a loop. -/
  | back (pos : Position) (t : Nat) (u : Option Nat)
      (hjump : m.current? p = some ⟨pos, .jump (some t)⟩) (hlt : t < m.counter)
      (hcounter : m'.counter = t) (hloop : p.code.op? t = some (.loop u))

variable {p : Program} {m : Machine}

theorem advances_step (hp : p.Routed) {i : Instruction} (hcurrent : m.current? p = some i)
    (hfault : (m.step p).fault = none) : Advances p m (m.step p) := by
  obtain ⟨hended, -⟩ | ⟨i', hi', ⟨next, m', hexecute, hstep⟩ | ⟨e, m', -, hstep⟩⟩ := step_cases p m
  · rw [hcurrent] at hended
    cases hended
  · obtain rfl : i' = i := Option.some.inj (hi'.symm.trans hcurrent)
    have hcode := get?_of_current? hcurrent
    have hframed := framed_execute p i'.op m
    rw [hexecute] at hframed
    have hcounter : (m.step p).counter = next := by rw [hstep]
    rcases hframed.2.1 with rfl | htarget
    · have hlt : m.counter < p.size := p.code.lt_size_of_get? _ _ hcode
      rcases Nat.lt_or_ge (m.counter + 1) p.size with hinside | houtside
      · exact .ahead (by rw [hcounter]; exact Nat.lt_succ_self _) (by rwa [hcounter])
      · have hsize : (m.step p).counter = p.size := by omega
        refine .out hsize ?_
        rw [current?, hfault]
        exact (p.code.get?_eq_none_iff _).mpr (Nat.le_of_eq hsize.symm)
    · rcases (hp.routed _ _ (Chain.op?_of_get? hcode)).target_cases htarget with
        ⟨hahead, hrange⟩ | ⟨hop, hback, u, hloop⟩
      · exact .ahead (by rwa [hcounter]) (by rwa [hcounter])
      · refine .back i'.pos next u ?_ hback hcounter hloop
        rw [hcurrent, ← hop]
  · rw [hstep] at hfault
    cases hfault

/-- A run that goes on has not stopped before. -/
theorem running_of_succ {n : Nat} (h : (m.run p (n + 1)).current? p ≠ none) :
    (m.run p n).current? p ≠ none := by
  intro hended
  rw [run_of_ended hended (Nat.le_succ n)] at h
  exact h hended

theorem advances_run (hp : p.Routed) (n : Nat) {i : Instruction}
    (hcurrent : (m.run p n).current? p = some i) (hfault : (m.run p (n + 1)).fault = none) :
    Advances p (m.run p n) (m.run p (n + 1)) := by
  rw [run_succ_last] at hfault ⊢
  exact advances_step hp hcurrent hfault

theorem counter_le_size (hp : p.Routed) (hm : m.counter ≤ p.size) (n : Nat)
    (hfault : (m.run p n).fault = none) : (m.run p n).counter ≤ p.size := by
  induction n with
  | zero => exact hm
  | succ n ih =>
      cases hcurrent : (m.run p n).current? p with
      | none =>
          rw [run_of_ended hcurrent (Nat.le_succ n)] at hfault ⊢
          exact ih hfault
      | some i =>
          cases advances_run hp n hcurrent hfault with
          | out hcounter => exact Nat.le_of_eq hcounter
          | ahead hlt hrange => exact Nat.le_of_lt hrange
          | back pos t u hjump hlt hcounter hloop =>
              rw [hcounter]
              exact Nat.le_of_lt (Chain.lt_size_of_op? hloop)

section Loopless

variable (hp : p.Routed) (hloopless : p.code.Loopless)
include hp hloopless

theorem counter_lt_succ {n : Nat} (h : (m.run p (n + 1)).current? p ≠ none) :
    (m.run p n).counter < (m.run p (n + 1)).counter := by
  obtain ⟨i, hcurrent⟩ := Option.ne_none_iff_exists'.mp (running_of_succ h)
  obtain ⟨i', hcurrent'⟩ := Option.ne_none_iff_exists'.mp h
  cases advances_run hp n hcurrent (fault_of_current? hcurrent') with
  | out hcounter hended => exact absurd hended h
  | ahead hlt hrange => exact hlt
  | back pos t u hjump hlt hcounter hloop => exact absurd hloop (hloopless t u)

/-- Without loops the counter rises as long as the run goes on. -/
theorem counter_lt_of_lt {j k : Nat} (hjk : j < k) (h : (m.run p k).current? p ≠ none) :
    (m.run p j).counter < (m.run p k).counter := by
  induction hjk with
  | refl => exact counter_lt_succ hp hloopless h
  | step _ ih =>
      exact Nat.lt_trans (ih (running_of_succ h)) (counter_lt_succ hp hloopless h)

theorem le_counter {n : Nat} (h : (m.run p n).current? p ≠ none) : n ≤ (m.run p n).counter := by
  induction n with
  | zero => exact Nat.zero_le _
  | succ n ih =>
      exact Nat.lt_of_le_of_lt (ih (running_of_succ h)) (counter_lt_succ hp hloopless h)

/-- Without loops there are not more steps than instructions. -/
theorem current?_run_size : (m.run p p.size).current? p = none := by
  by_contra hrunning
  have hle := le_counter hp hloopless hrunning
  obtain ⟨i, hcurrent⟩ := Option.ne_none_iff_exists'.mp hrunning
  have hlt : (m.run p p.size).counter < p.size :=
    p.code.lt_size_of_get? _ _ (get?_of_current? hcurrent)
  exact absurd hle (Nat.not_le.mpr hlt)

end Loopless

end Machine

/-- No event begins a loop. -/
def Event.Unlooped (es : List (Located Event)) : Prop := ∀ e ∈ es, e.item ≠ .loop

namespace Event.Unlooped

variable {es fs : List (Located Event)}

theorem append (h : Unlooped es) (h' : Unlooped fs) : Unlooped (es ++ fs) :=
  List.forall_mem_append.mpr ⟨h, h'⟩

theorem cons (h : Unlooped es) (pos : Position) {e : Event} (he : e ≠ .loop) :
    Unlooped (⟨pos, e⟩ :: es) :=
  List.forall_mem_cons.mpr ⟨he, h⟩

theorem concat (h : Unlooped es) (pos : Position) {e : Event} (he : e ≠ .loop) :
    Unlooped (es ++ [⟨pos, e⟩]) :=
  h.append (List.forall_mem_singleton.mpr he)

theorem plains (ps : List Plain) : Unlooped (Nest.eventsAll (ps.map Nest.plain)) := by
  intro x hx hloop
  rw [Nest.eventsAll_map_plain] at hx
  obtain ⟨y, -, rfl⟩ := List.mem_map.mp hx
  have hplain := y.isControl_located
  rw [hloop] at hplain
  cases hplain

end Event.Unlooped

namespace Tree.Statement

open Event (Unlooped)

mutual

/-- Where no token is the keyword of a loop, no loop begins. -/
theorem Derives.unlooped {ts : List Token} {s : Statement} :
    Derives ts s → (∀ t ∈ ts, t.kind ≠ .keyword .loop) → Unlooped (Nest.eventsAll s.nests)
  | .declare .., _ => Unlooped.plains [_]
  | .declareLong .., _ => Unlooped.plains [_]
  | @Derives.assign _ value name t semi _ _ _ _, _ => by
      have hplains := Unlooped.plains (⟨name.pos, .target name.text, rfl⟩ ::
        (value.plains ++ [⟨t.pos, .assign, isControl_assign⟩]))
      rwa [List.map_cons, List.map_append] at hplains
  | @Derives.print _ value t semi _ _ _, _ => by
      have hplains := Unlooped.plains (value.plains ++ [⟨t.pos, .print, isControl_print⟩])
      rwa [List.map_append] at hplains
  | .branch t close semi ht hclose hsemi hcondition hbody, h => by
      have hinside := hbody.unlooped fun t' ht' => h t' (by simp [ht'])
      rw [nests, Nest.eventsAll_append, Nest.eventsAll, Nest.events, Nest.eventsAll,
        List.append_nil]
      exact (Unlooped.plains _).append
        ((hinside.concat close.pos (by simp)).cons t.pos (by simp))
  | .choice t middle close semi ht hmiddle hclose hsemi hcondition hbody hother, h => by
      have hfirst := hbody.unlooped fun t' ht' => h t' (by simp [ht'])
      have hsecond := hother.unlooped fun t' ht' => h t' (by simp [ht'])
      rw [nests, Nest.eventsAll_append, Nest.eventsAll, Nest.events, Nest.eventsAll,
        List.append_nil]
      exact (Unlooped.plains _).append ((hfirst.append
        ((hsecond.concat close.pos (by simp)).cons middle.pos (by simp))).cons t.pos (by simp))
  | .loop t close semi ht hclose hsemi hcondition hbody, h => absurd ht (h t List.mem_cons_self)

theorem DerivesAll.unlooped {ts : List Token} {ss : List Statement} :
    DerivesAll ts ss → (∀ t ∈ ts, t.kind ≠ .keyword .loop) → Unlooped (events ss)
  | .nil, _ => List.forall_mem_nil _
  | .cons first rest, h => by
      rw [List.forall_mem_append] at h
      rw [events, nestsAll, Nest.eventsAll_append]
      exact (first.unlooped h.1).append (rest.unlooped h.2)

end

end Tree.Statement

namespace Program

/-- The run of a program from `m` is over soon. -/
structure Brief (p : Program) (m : Machine) : Prop where
  /-- After at most as many steps as there are instructions it has come to its end: behind the
  last instruction, or with a fault. -/
  ended : ∃ n, n ≤ p.size ∧ (m.run p n).current? p = none ∧
    ((m.run p n).fault = none ∧ (m.run p n).counter = p.size ∨ ∃ f, (m.run p n).fault = some f)
  /-- As long as it goes on, it comes to later and later instructions, so to none twice. -/
  rising : ∀ j k, j < k → (m.run p k).current? p ≠ none →
    (m.run p j).counter < (m.run p k).counter

theorem brief_of_loopless {p : Program} (hp : p.Routed) (hloopless : p.code.Loopless)
    {m : Machine} (hm : m.counter ≤ p.size) : p.Brief m where
  ended := by
    have hended := Machine.current?_run_size (m := m) hp hloopless
    refine ⟨p.size, Nat.le_refl _, hended, ?_⟩
    cases hfault : (m.run p p.size).fault with
    | some f => exact .inr ⟨f, rfl⟩
    | none =>
        have hle := Machine.counter_le_size hp hm p.size hfault
        rw [Machine.current?, hfault] at hended
        exact .inl ⟨rfl, Nat.le_antisymm hle ((p.code.get?_eq_none_iff _).mp hended)⟩
  rising _ _ hjk hrunning := Machine.counter_lt_of_lt hp hloopless hjk hrunning

theorem brief_of_finish (es : List (Located Event)) (p : Program)
    (h : (es.foldl Draft.absorb Draft.empty).finish = .ok p) (hes : Event.Unlooped es) (σ : Store)
    (limit : Option Nat) : p.Brief (Machine.start σ limit) := by
  have hp : p.Routed := (Draft.wired_foldl_absorb es).routed_of_finish p h
  have hloopless := Draft.loopless_foldl_absorb es hes Draft.empty fun _ _ hc => nomatch hc
  obtain ⟨-, rfl⟩ := (Draft.finish_eq_ok_iff _ p).mp h
  exact brief_of_loopless hp hloopless (Nat.zero_le _)

/-- Whatever events a program is made from, a step that succeeds leads ahead or out of the
program, or back to the head of a loop. So a program that was made without beginning a loop
is over soon, in particular that of a text without the keyword. -/
theorem back_only_to_loops :
    (∀ (es : List (Located Event)) (p : Program),
      (es.foldl Draft.absorb Draft.empty).finish = .ok p →
      ∀ (σ : Store) (limit : Option Nat),
        (∀ n i, ((Machine.start σ limit).run p n).current? p = some i →
          ((Machine.start σ limit).run p (n + 1)).fault = none →
          Machine.Advances p ((Machine.start σ limit).run p n)
            ((Machine.start σ limit).run p (n + 1))) ∧
        ((∀ e ∈ es, e.item ≠ .loop) → p.Brief (Machine.start σ limit))) ∧
      ∀ (source : String) (p : Program), ofSource source = .ok p →
        (∀ t ∈ (TokenStream.ofSource source).tokens, t.kind ≠ .keyword .loop) →
        ∀ (σ : Store) (limit : Option Nat), p.Brief (Machine.start σ limit) := by
  refine ⟨?_, ?_⟩
  · intro es p h σ limit
    have hp : p.Routed := (Draft.wired_foldl_absorb es).routed_of_finish p h
    exact ⟨fun n _ => Machine.advances_run hp n, fun hes => brief_of_finish es p h hes σ limit⟩
  · intro source p h htokens σ limit
    obtain ⟨ss, hss, -, hread⟩ :=
      Grammar.exists_tree_of_readSource source (Reading.outcome_of_compile h)
    refine brief_of_finish _ p (Reading.finish_of_compile h) ?_ σ limit
    rw [hread]
    exact hss.unlooped fun t ht =>
      htokens t (TokenStream.mem_tokens_of_mem_significant _ t ht)

/-- A loop that goes on for ever: the jump behind its condition leads back to its head. -/
def circling : List (Located Event) :=
  [⟨⟨1, 1⟩, .loop⟩, ⟨⟨1, 2⟩, .integer "1"⟩, ⟨⟨1, 3⟩, .integer "1"⟩, ⟨⟨1, 4⟩, .operator "=="⟩,
    ⟨⟨1, 5⟩, .branch⟩, ⟨⟨1, 6⟩, .close⟩]

/-- Events that no text is read as: an end without a beginning, which is refused, then a
choice whose condition is a number. -/
def forked : List (Located Event) :=
  [⟨⟨1, 1⟩, .close⟩, ⟨⟨1, 2⟩, .integer "1"⟩, ⟨⟨1, 3⟩, .branch⟩, ⟨⟨1, 4⟩, .otherwise⟩,
    ⟨⟨1, 5⟩, .close⟩]

def guarded : String := "integer x; if x == 0 print 1; else print 2 / x; end;"

theorem back_only_to_loops_guarded :
    (∃ p i, (circling.foldl Draft.absorb Draft.empty).finish = .ok p ∧
      ((Machine.start p.store none).run p 5).current? p = some i ∧
      ((Machine.start p.store none).run p 6).fault = none ∧
      Machine.Advances p ((Machine.start p.store none).run p 5)
        ((Machine.start p.store none).run p 6)) ∧
    (∃ p, (forked.foldl Draft.absorb Draft.empty).finish = .ok p ∧
      (∀ e ∈ forked, e.item ≠ .loop) ∧ p.Brief (Machine.start p.store none)) ∧
    ∃ p, ofSource guarded = .ok p ∧
      (∀ t ∈ (TokenStream.ofSource guarded).tokens, t.kind ≠ .keyword .loop) ∧
      p.Brief (Machine.start p.store none) := by
  refine ⟨?_, ?_, ?_⟩
  · have hfinish := (Draft.finish_eq_ok_iff (circling.foldl Draft.absorb Draft.empty) _).mpr
      ⟨by decide +kernel, rfl⟩
    refine ⟨_, ⟨⟨1, 6⟩, .jump (some 0)⟩, hfinish, by decide +kernel, by decide +kernel, ?_⟩
    exact (back_only_to_loops.1 circling _ hfinish _ none).1 5 ⟨⟨1, 6⟩, .jump (some 0)⟩
      (by decide +kernel) (by decide +kernel)
  · have hfinish := (Draft.finish_eq_ok_iff (forked.foldl Draft.absorb Draft.empty) _).mpr
      ⟨by decide +kernel, rfl⟩
    have hunlooped : ∀ e ∈ forked, e.item ≠ .loop := by decide
    exact ⟨_, hfinish, hunlooped, (back_only_to_loops.1 forked _ hfinish _ none).2 hunlooped⟩
  · have hok : (ofSource guarded).isOk = true := by decide +kernel
    have htokens : ∀ t ∈ (TokenStream.ofSource guarded).tokens, t.kind ≠ .keyword .loop := by
      decide +kernel
    cases hp : ofSource guarded with
    | error e => simp [hp, Except.isOk, Except.toBool] at hok
    | ok p => exact ⟨p, rfl, htokens, back_only_to_loops.2 guarded p hp htokens p.store none⟩

end Program

end StackLang
