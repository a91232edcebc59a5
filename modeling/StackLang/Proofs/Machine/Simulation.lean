import StackLang.Proofs.Machine.Step
import StackLang.Proofs.Tree.Placement
import StackLang.Proofs.Tree.Scope

/-!
# The machine follows the tree

Wherever the code of a tree lies in a program, a run from its first instruction does what
the tree means. For an expression it ends behind the code with the value on top of the
stack, whatever lay on the stack before; for statements it ends behind the code with the
stack as it was, stops with the same fault, or is still going on. The last case is counted:
a tree that is unfinished with some fuel keeps the machine busy for at least as many steps,
so that a tree that never finishes makes a machine that never ends.
-/

namespace StackLang

open StackLang.Tree

/-- All variables and numerals that are mentioned can be looked up. -/
structure Store.Serves (τ : Store) (ms : List Mention) : Prop where
  uses : ∀ name, .uses name ∈ ms → τ.find? name ≠ none
  numerals : ∀ text, .numeral text ∈ ms →
    Decimal.readInt64? text.toList = some (Int64.ofInt (Decimal.value text.toList))

namespace Store.Serves

variable {τ : Store} {ms ms' : List Mention}

theorem left (h : τ.Serves (ms ++ ms')) : τ.Serves ms where
  uses name hname := h.uses name (List.mem_append_left _ hname)
  numerals text htext := h.numerals text (List.mem_append_left _ htext)

theorem right (h : τ.Serves (ms ++ ms')) : τ.Serves ms' where
  uses name hname := h.uses name (List.mem_append_right _ hname)
  numerals text htext := h.numerals text (List.mem_append_right _ htext)

theorem tail {m : Mention} (h : τ.Serves (m :: ms)) : τ.Serves ms where
  uses name hname := h.uses name (List.mem_cons_of_mem _ hname)
  numerals text htext := h.numerals text (List.mem_cons_of_mem _ htext)

/-- The index of a served name has a variable of that name, of the kind that the name is
known by. -/
theorem variable_of_uses (h : τ.Serves ms) (name : String) (hname : .uses name ∈ ms) :
    ∃ x, τ.get? (τ.indexOf name) = some x ∧ x.name = name ∧ x.kind = τ.kindOf name :=
  τ.exists_variable_of_find? name (h.uses name hname)

end Store.Serves

namespace Machine

section Expressions

variable {p : Program}

/-- The code of an expression pushes its value, with one step for every instruction. -/
theorem yields_eval (e : Expression) : ∀ (base : Nat) (stack : Stack) (s : State),
    p.code.Placed base (e.plains.map (Plain.instruction p.store)) → p.store.Serves e.mentions →
    Yields p e.plains.length (poised p base stack s) s (e.eval s.values) fun v =>
      poised p (base + e.plains.length) (.value v :: stack) s := by
  induction e with
  | read name =>
      intro base stack s hcode hserves
      obtain ⟨x, hx, hname, -⟩ := hserves.variable_of_uses name.item (by simp [Expression.mentions])
      have hstep := step_read stack s _ _ x hcode.head hx
      rw [hname] at hstep
      exact Yields.of_step hstep
  | integer numeral =>
      intro base stack s hcode hserves
      have hnumeral := hserves.numerals numeral.item (by simp [Expression.mentions])
      have hstep := step_constant stack s _ hcode.head
      simp only [hnumeral] at hstep
      exact Yields.of_step hstep
  | string text =>
      intro base stack s hcode _
      exact Yields.of_step (step_constant stack s _ hcode.head)
  | group inner ih => exact ih
  | unary op operand ih =>
      intro base stack s hcode hserves
      obtain ⟨hoperand, hop⟩ := Expression.placed_unary hcode
      rw [Expression.plains, List.length_append, ← Nat.add_assoc]
      exact (ih base stack s hoperand hserves).bind fun v =>
        yields_operator hop (Stack.gives_unary op.item v stack)
  | binary op left right ihl ihr =>
      intro base stack s hcode hserves
      obtain ⟨hleft, hright, hop⟩ := Expression.placed_binary hcode
      rw [Expression.plains, List.length_append, List.length_append]
      refine (ihl base stack s hleft hserves.left).bind fun v => ?_
      refine (ihr _ (.value v :: stack) s hright hserves.right).bind fun w => ?_
      simp only [← Nat.add_assoc]
      exact yields_operator hop (Stack.gives_binary op.item v w stack)

/-- The code of a condition and the conditional jump behind it. -/
theorem yields_test (pos : Position) (e : Expression) (base target : Nat) (stack : Stack)
    (s : State) (hcode : p.code.Placed base (e.plains.map (Plain.instruction p.store)))
    (hserves : p.store.Serves e.mentions)
    (hbranch : p.code.get? (base + e.plains.length) = some ⟨pos, .branch (some target)⟩)
    (htarget : target < p.size) :
    Yields p (e.plains.length + 1) (poised p base stack s) s (e.test pos s.values) fun b =>
      poised p (if b then base + e.plains.length + 1 else target) stack s :=
  (yields_eval e base stack s hcode hserves).bind fun v => yields_branch stack v hbranch htarget

end Expressions

/-- A run from `m` ends like the outcome says: at the index `next` with the given stack, with
a fault, or not within `k` steps. -/
def Follows (p : Program) (k : Nat) (m : Machine) (next : Nat) (stack : Stack) : Outcome → Prop
  | .done s => ∃ n, m.run p n = poised p next stack s
  | .fault f s => ∃ n c t, m.run p n = stopped p c t s f
  | .unfinished s => ∃ n c t, k ≤ n ∧ m.run p n = poised p c t s ∧ c < p.size

section Statements

variable {p : Program} {j k : Nat} {m m' : Machine} {next : Nat} {stack : Stack}

theorem Follows.mono {o : Outcome} (h : Follows p k m next stack o) (hjk : j ≤ k) :
    Follows p j m next stack o := by
  cases o with
  | done s => exact h
  | fault f s => exact h
  | unfinished s =>
      obtain ⟨n, c, t, hn, hrun, hc⟩ := h
      exact ⟨n, c, t, by omega, hrun, hc⟩

theorem Follows.after {o : Outcome} (n : Nat) (hrun : m.run p n = m')
    (h : Follows p k m' next stack o) : Follows p (n + k) m next stack o := by
  cases o with
  | done s =>
      obtain ⟨n', hn'⟩ := h
      exact ⟨n + n', by rw [run_add, hrun, hn']⟩
  | fault f s =>
      obtain ⟨n', c, t, hn'⟩ := h
      exact ⟨n + n', c, t, by rw [run_add, hrun, hn']⟩
  | unfinished s =>
      obtain ⟨n', c, t, hk, hn', hc⟩ := h
      exact ⟨n + n', c, t, by omega, by rw [run_add, hrun, hn'], hc⟩

theorem Follows.of_step {o : Outcome} (hstep : m.step p = m')
    (h : Follows p k m' next stack o) : Follows p (k + 1) m next stack o := by
  have hafter := h.after 1 (by rw [run_succ, run_zero, hstep])
  rwa [Nat.add_comm] at hafter

theorem Follows.ofResult {α : Type} {n : Nat} {s : State} {r : Except (Located RunError) α}
    {mid : α → Machine} {f : α → Outcome} (h : Yields p n m s r mid)
    (hf : ∀ a, Follows p k (mid a) next stack (f a)) :
    Follows p k m next stack (.ofResult r s f) := by
  cases r with
  | error e => exact ⟨n, h⟩
  | ok a => exact ((hf a).after n h).mono (by omega)

theorem Follows.andThen {o : Outcome} {f : State → Outcome} {mid : Nat} {stack' : Stack}
    (h : Follows p k m mid stack' o)
    (hf : ∀ s, Follows p k (poised p mid stack' s) next stack (f s)) :
    Follows p k m next stack (o.andThen f) := by
  cases o with
  | done s =>
      obtain ⟨n, hn⟩ := h
      exact ((hf s).after n hn).mono (by omega)
  | fault e s => exact h
  | unfinished s => exact h

/-- The last instruction of an assignment. -/
theorem follows_assign (c : Nat) (pos : Position) (stack : Stack) (s : State) (v : Value)
    (i : Nat) (x : Variable) (hdistinct : p.store.Distinct)
    (hcode : p.code.get? c = some ⟨pos, .assign⟩) (hx : p.store.get? i = some x) :
    Follows p k (poised p c (.value v :: .target i :: stack) s) (c + 1) stack
      (s.assign x.name x.kind pos v) := by
  by_cases hkind : v.kind = x.kind.toKind
  · rw [State.assign, if_pos hkind]
    refine ⟨1, ?_⟩
    rw [run_succ, run_zero, step_assign s i v x hdistinct hcode hx hkind]
  · rw [State.assign, if_neg hkind]
    refine ⟨1, c, stack, ?_⟩
    rw [run_succ, run_zero, step_assign_mismatch s i v x hcode hx hkind]

/-- The last instruction of an output. -/
theorem follows_print (c : Nat) (pos : Position) (stack : Stack) (s : State) (v : Value)
    (hcode : p.code.get? c = some ⟨pos, .print⟩) :
    Follows p k (poised p c (.value v :: stack) s) (c + 1) stack (s.print pos v.text) := by
  by_cases hfits : s.sink.fits (v.text ++ "\n").toUTF8 = true
  · rw [State.print, if_pos hfits]
    refine ⟨1, ?_⟩
    rw [run_succ, run_zero, step_print s v hcode hfits]
  · rw [State.print, if_neg hfits]
    refine ⟨1, c, stack, ?_⟩
    rw [run_succ, run_zero, step_print_full s v hcode hfits]

/-- A marker at the end of a construct. -/
theorem follows_close {c : Nat} {pos : Position} (s : State)
    (hcode : p.code.get? c = some ⟨pos, .close⟩) :
    Follows p k (poised p c stack s) (c + 1) stack (.done s) :=
  ⟨1, by rw [run_succ, run_zero, step_marker stack s hcode rfl]⟩

theorem Follows.then_close {o : Outcome} {c : Nat} {pos : Position}
    (h : Follows p k m c stack o) (hcode : p.code.get? c = some ⟨pos, .close⟩) :
    Follows p k m (c + 1) stack o := by
  cases o with
  | done s => exact Follows.andThen (f := .done) h fun s' => follows_close s' hcode
  | fault e s => exact h
  | unfinished s => exact h

theorem Follows.then_jump {o : Outcome} {c t : Nat} {pos : Position}
    (h : Follows p k m c stack o) (hcode : p.code.get? c = some ⟨pos, .jump (some t)⟩)
    (ht : t < p.size) : Follows p k m t stack o := by
  cases o with
  | done s =>
      obtain ⟨n, hn⟩ := h
      exact ⟨n + 1, by rw [run_add, hn, run_succ, run_zero, step_jump stack s t hcode ht]⟩
  | fault e s => exact h
  | unfinished s => exact h

/-- A conditional with the body at the index `inner`, whose code has length `n`. -/
theorem follows_branch {base inner n : Nat} {pos close : Position} {condition : Expression}
    {body : State → Outcome}
    (hcondition : p.code.Placed base (condition.plains.map (Plain.instruction p.store)))
    (hserves : p.store.Serves condition.mentions)
    (hinner : inner = base + condition.plains.length + 1)
    (hexit : p.code.get? (base + condition.plains.length) =
      some ⟨pos, .branch (some (inner + n))⟩)
    (hclose : p.code.get? (inner + n) = some ⟨close, .close⟩)
    (hbody : ∀ s, Follows p k (poised p inner stack s) (inner + n) stack (body s)) (s : State) :
    Follows p k (poised p base stack s) (inner + n + 1) stack
      (.ofResult (condition.test pos s.values) s fun b => if b then body s else .done s) := by
  have htest := yields_test pos condition base (inner + n) stack s hcondition hserves hexit
    (Chain.lt_size_of_get? _ _ _ hclose)
  refine Follows.ofResult htest ?_
  intro b
  cases b with
  | false => exact follows_close s hclose
  | true =>
      rw [if_pos rfl, if_pos rfl, ← hinner]
      exact (hbody s).then_close hclose

/-- A conditional with two branches, at the indices `inner` and `inner + n + 2`. -/
theorem follows_choice {base inner n n' : Nat} {pos middle close : Position}
    {condition : Expression} {body other : State → Outcome}
    (hcondition : p.code.Placed base (condition.plains.map (Plain.instruction p.store)))
    (hserves : p.store.Serves condition.mentions)
    (hinner : inner = base + condition.plains.length + 1)
    (hexit : p.code.get? (base + condition.plains.length) =
      some ⟨pos, .branch (some (inner + n + 1))⟩)
    (hskip : p.code.get? (inner + n) = some ⟨middle, .jump (some (inner + n + 2 + n'))⟩)
    (hmarker : p.code.get? (inner + n + 1) = some ⟨middle, .otherwise⟩)
    (hclose : p.code.get? (inner + n + 2 + n') = some ⟨close, .close⟩)
    (hbody : ∀ s, Follows p k (poised p inner stack s) (inner + n) stack (body s))
    (hother : ∀ s, Follows p k (poised p (inner + n + 2) stack s) (inner + n + 2 + n') stack
      (other s)) (s : State) :
    Follows p k (poised p base stack s) (inner + n + 2 + n' + 1) stack
      (.ofResult (condition.test pos s.values) s fun b => if b then body s else other s) := by
  have htest := yields_test pos condition base (inner + n + 1) stack s hcondition hserves hexit
    (Chain.lt_size_of_get? _ _ _ hmarker)
  refine Follows.ofResult htest ?_
  intro b
  cases b with
  | false =>
      have hmark := step_marker stack s hmarker rfl
      exact (Follows.of_step hmark ((hother s).then_close hclose)).mono (by omega)
  | true =>
      rw [if_pos rfl, if_pos rfl, ← hinner]
      have hend := (hbody s).then_jump hskip (Chain.lt_size_of_get? _ _ _ hclose)
      exact hend.then_close hclose

/-- A loop with the body at the index `inner`, whose code has length `n`. The number of
rounds that are left goes down with every jump back, and each round takes a step. -/
theorem follows_loop {base inner n : Nat} {pos close : Position} {condition : Expression}
    {body : State → Outcome} (hhead : p.code.get? base = some ⟨pos, .loop none⟩)
    (hcondition : p.code.Placed (base + 1) (condition.plains.map (Plain.instruction p.store)))
    (hserves : p.store.Serves condition.mentions)
    (hinner : inner = base + 1 + condition.plains.length + 1)
    (hexit : p.code.get? (base + 1 + condition.plains.length) =
      some ⟨pos, .branch (some (inner + n + 1))⟩)
    (hjump : p.code.get? (inner + n) = some ⟨close, .jump (some base)⟩)
    (hclose : p.code.get? (inner + n + 1) = some ⟨close, .close⟩)
    (hbody : ∀ s, Follows p k (poised p inner stack s) (inner + n) stack (body s)) :
    ∀ (rounds : Nat), rounds ≤ k → ∀ s, Follows p rounds (poised p base stack s) (inner + n + 2)
      stack (iterate (fun s => condition.test pos s.values) body rounds s) := by
  intro rounds
  induction rounds with
  | zero =>
      intro _ s
      exact ⟨0, base, stack, Nat.le_refl 0, rfl, Chain.lt_size_of_get? _ _ _ hhead⟩
  | succ rounds ih =>
      intro hrounds s
      have htest := yields_test pos condition (base + 1) (inner + n + 1) stack s hcondition hserves
        hexit (Chain.lt_size_of_get? _ _ _ hclose)
      refine Follows.of_step (step_marker stack s hhead rfl) (Follows.ofResult htest ?_)
      intro again
      cases again with
      | false => exact follows_close s hclose
      | true =>
          rw [if_pos rfl, ← hinner]
          have hback := (hbody s).then_jump hjump (Chain.lt_size_of_get? _ _ _ hhead)
          exact (hback.mono (by omega)).andThen fun s' => ih (by omega) s'

mutual

/-- The code of a statement does what the statement means. -/
theorem follows_exec (hdistinct : p.store.Distinct) (kinds : String → VariableKind)
    (hkinds : ∀ name, p.store.find? name ≠ none → kinds name = p.store.kindOf name) (fuel : Nat) :
    ∀ (t : Statement) (base : Nat) (stack : Stack) (s : State),
      t.PlacedAt p.code p.store base → p.store.Serves t.mentions →
      Follows p fuel (poised p base stack s) (base + Nest.sizeAll t.nests) stack
        (t.exec kinds fuel s)
  | .declare kind name, base, stack, s, hcode, _ =>
      ⟨1, by rw [run_succ, run_zero, step_marker stack s hcode.head rfl]; rfl⟩
  | .assign name pos value, base, stack, s, hcode, hserves => by
      obtain ⟨x, hx, hname, hkind⟩ :=
        hserves.variable_of_uses name.item (by simp [Statement.mentions])
      obtain ⟨htarget, hvalue, hassign⟩ := Statement.placed_assign hcode
      rw [Statement.add_sizeAll_assign, Statement.exec,
        hkinds name.item (hserves.uses name.item (by simp [Statement.mentions])), ← hkind, ← hname]
      refine (Follows.of_step (step_target stack s _ htarget) ?_).mono (Nat.le_succ _)
      exact Follows.ofResult (yields_eval value _ _ s hvalue hserves.tail) fun v =>
        follows_assign _ pos stack s v _ x hdistinct hassign hx
  | .print pos value, base, stack, s, hcode, hserves => by
      obtain ⟨hvalue, hprint⟩ := Statement.placed_print hcode
      rw [Statement.add_sizeAll_print]
      exact Follows.ofResult (yields_eval value _ _ s hvalue hserves) fun v =>
        follows_print _ pos stack s v hprint
  | .branch pos condition body close, base, stack, s, hcode, hserves => by
      obtain ⟨hcondition, hexit, hbody, hclose⟩ := Statement.placed_branch hcode
      rw [Statement.add_sizeAll_branch, Statement.exec]
      exact follows_branch hcondition hserves.left rfl hexit hclose
        (fun s' => follows_execAll hdistinct kinds hkinds fuel body _ stack s' hbody hserves.right) s
  | .choice pos condition body middle other close, base, stack, s, hcode, hserves => by
      obtain ⟨hcondition, hexit, hbody, hskip, hmarker, hother, hclose⟩ :=
        Statement.placed_choice hcode
      rw [Statement.add_sizeAll_choice, Statement.exec]
      exact follows_choice hcondition hserves.left rfl hexit hskip hmarker hclose
        (fun s' => follows_execAll hdistinct kinds hkinds fuel body _ stack s' hbody
          hserves.right.left)
        (fun s' => follows_execAll hdistinct kinds hkinds fuel other _ stack s' hother
          hserves.right.right) s
  | .loop pos condition body close, base, stack, s, hcode, hserves => by
      obtain ⟨hhead, hcondition, hexit, hbody, hback, hclose⟩ := Statement.placed_loop hcode
      rw [Statement.add_sizeAll_loop, Statement.exec]
      exact follows_loop hhead hcondition hserves.left rfl hexit hback hclose
        (fun s' => follows_execAll hdistinct kinds hkinds fuel body _ stack s' hbody hserves.right)
        fuel (Nat.le_refl fuel) s

theorem follows_execAll (hdistinct : p.store.Distinct) (kinds : String → VariableKind)
    (hkinds : ∀ name, p.store.find? name ≠ none → kinds name = p.store.kindOf name) (fuel : Nat) :
    ∀ (ts : List Statement) (base : Nat) (stack : Stack) (s : State),
      Statement.PlacedAllAt p.code p.store base ts → p.store.Serves (Statement.mentionsAll ts) →
      Follows p fuel (poised p base stack s) (base + Nest.sizeAll (Statement.nestsAll ts)) stack
        (Statement.execAll kinds fuel ts s)
  | [], base, stack, s, _, _ => ⟨0, rfl⟩
  | t :: ts, base, stack, s, hcode, hserves => by
      obtain ⟨hhead, hrest⟩ := Statement.placed_cons hcode
      rw [Statement.add_sizeAll_cons]
      exact (follows_exec hdistinct kinds hkinds fuel t base stack s hhead hserves.left).andThen
        fun s' => follows_execAll hdistinct kinds hkinds fuel ts _ stack s' hrest hserves.right

end

end Statements

end Machine

end StackLang
