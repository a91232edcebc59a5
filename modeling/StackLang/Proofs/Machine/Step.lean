import StackLang.Machine.Run
import StackLang.Proofs.Store
import StackLang.Proofs.Tree.Meaning

/-!
# Steps of the machine

What an operation of the machine does to operands that are values, against the meaning of
operators. `Gives` compares a computation on the stack with a result: it ends with the
result and the given stack, or fails with the error and any stack. `Yields` is the same
for a whole run up to the point where a result is at hand; neither the variables nor the
sink change on the way.
-/

namespace StackLang

namespace Stack

variable {α β : Type}

/-- From the stack `s`, the computation ends with `r` and the stack `s'`. Where `r` is an
error, the stack can be any. -/
def Gives (x : Take α) (s : Stack) (r : Except RunError α) (s' : Stack) : Prop :=
  match r with
  | .ok a => x s = .ok a s'
  | .error e => ∃ t, x s = .error e t

theorem Gives.bind {x : Take α} {s s' s'' : Stack} {r : Except RunError α} {f : α → Take β}
    {g : α → Except RunError β} (hx : Gives x s r s') (hf : ∀ a, Gives (f a) s' (g a) s'') :
    Gives (x >>= f) s (r >>= g) s'' := by
  cases r with
  | error e =>
      obtain ⟨t, ht⟩ := hx
      refine ⟨t, ?_⟩
      change EStateM.bind x f s = _
      simp [EStateM.bind, ht]
  | ok a =>
      have hbind : (x >>= f) s = f a s' := by
        change EStateM.bind x f s = _
        simp [EStateM.bind, show x s = .ok a s' from hx]
      have ha := hf a
      rw [show (Except.ok a >>= g) = g a from rfl]
      unfold Gives at ha ⊢
      rwa [hbind]

theorem Gives.pure (a : α) (s : Stack) : Gives (Pure.pure a) s (Except.ok a) s := rfl

theorem gives_takeValue (v : Value) (s : Stack) :
    Gives takeValue (.value v :: s) (.ok v) s := rfl

theorem gives_takeInteger (v : Value) (s : Stack) :
    Gives takeInteger (.value v :: s) v.asInteger s := by
  cases v with
  | integer n => rfl
  | string t => exact ⟨s, rfl⟩
  | boolean b => exact ⟨s, rfl⟩

theorem gives_takeBoolean (v : Value) (s : Stack) :
    Gives takeBoolean (.value v :: s) v.asBoolean s := by
  cases v with
  | boolean b => rfl
  | integer n => exact ⟨s, rfl⟩
  | string t => exact ⟨s, rfl⟩

theorem gives_integers (f : Int64 → Int64 → Value) (g : Int → Int → Value)
    (h : ∀ m n, f m n = g m.toInt n.toInt) (v w : Value) (s : Stack) :
    Gives (integers f) (.value w :: .value v :: s) (Tree.integers g v w) s := by
  refine (gives_takeInteger w _).bind fun n => (gives_takeInteger v s).bind fun m => ?_
  rw [← h]
  exact Gives.pure _ s

theorem gives_booleans (f : Bool → Bool → Bool) (v w : Value) (s : Stack) :
    Gives (booleans f) (.value w :: .value v :: s) (Tree.booleans f v w) s :=
  (gives_takeBoolean w _).bind fun _ => (gives_takeBoolean v s).bind fun _ => Gives.pure _ s

theorem sum_eq_plus (v w : Value) : sum v w = Tree.plus v w := by
  cases v <;> cases w <;>
    simp [sum, Tree.plus, Value.kind, Value.text, Value.asInteger, Value.wrapped, Int64.ofInt_add,
      bind, Except.bind, pure, Except.pure]

theorem gives_add (v w : Value) (s : Stack) :
    Gives add (.value w :: .value v :: s) (Tree.plus v w) s := by
  have hplus : Tree.plus v w = (do let right ← .ok w; let left ← .ok v; sum left right) :=
    (sum_eq_plus v w).symm
  rw [hplus]
  refine (gives_takeValue w _).bind fun right => (gives_takeValue v s).bind fun left => ?_
  cases sum left right with
  | ok u => exact Gives.pure u s
  | error e => exact ⟨s, rfl⟩

theorem gives_divide (v w : Value) (s : Stack) :
    Gives divide (.value w :: .value v :: s) (Tree.quotient v w) s := by
  refine (gives_takeInteger w _).bind fun n => (gives_takeInteger v s).bind fun m => ?_
  have hdiv : Int64.ofInt (m.toInt.tdiv n.toInt) = m / n := by
    rw [← Int64.toInt_inj, Int64.toInt_div, Int64.toInt_ofInt]
  have hzero : n.toInt = 0 ↔ n = 0 := by
    rw [← Int64.toInt_inj]
    rfl
  by_cases hn : n = 0
  · rw [if_pos hn, if_pos (hzero.mpr hn)]
    exact ⟨s, rfl⟩
  · rw [if_neg hn, if_neg fun h => hn (hzero.mp h), Value.wrapped, hdiv]
    exact Gives.pure _ s

/-- The operation of a prefix operator on a value. -/
theorem gives_unary (op : Tree.UnaryOperator) (v : Value) (s : Stack) :
    Gives (operate op.toOperator) (.value v :: s) (op.apply v) s := by
  cases op with
  | negate =>
      refine (gives_takeInteger v s).bind fun n => ?_
      rw [Value.wrapped, Int64.ofInt_neg, Int64.ofInt_toInt]
      exact Gives.pure _ s
  | not => exact (gives_takeBoolean v s).bind fun _ => Gives.pure _ s

/-- The operation of a binary operator on two values, the right one on top. -/
theorem gives_binary (op : Tree.BinaryOperator) (v w : Value) (s : Stack) :
    Gives (operate op.toOperator) (.value w :: .value v :: s) (op.apply v w) s := by
  cases op with
  | or | and => exact gives_booleans _ v w s
  | eq | notEq =>
      rw [Tree.BinaryOperator.toOperator, operate, Tree.BinaryOperator.apply]
      refine gives_integers _ _ ?_ v w s
      intro m n
      simp [Int64.toInt_inj]
  | less | greater =>
      rw [Tree.BinaryOperator.toOperator, operate, Tree.BinaryOperator.apply]
      refine gives_integers _ _ ?_ v w s
      intro m n
      simp [Int64.lt_iff_toInt_lt]
  | lessEq | greaterEq =>
      rw [Tree.BinaryOperator.toOperator, operate, Tree.BinaryOperator.apply]
      refine gives_integers _ _ ?_ v w s
      intro m n
      simp [Int64.le_iff_toInt_le]
  | sub =>
      rw [Tree.BinaryOperator.toOperator, operate, Tree.BinaryOperator.apply]
      refine gives_integers _ _ ?_ v w s
      intro m n
      rw [Value.wrapped, Int64.ofInt_sub, Int64.ofInt_toInt, Int64.ofInt_toInt]
  | mul =>
      rw [Tree.BinaryOperator.toOperator, operate, Tree.BinaryOperator.apply]
      refine gives_integers _ _ ?_ v w s
      intro m n
      rw [Value.wrapped, Int64.ofInt_mul, Int64.ofInt_toInt, Int64.ofInt_toInt]
  | add => exact gives_add v w s
  | div => exact gives_divide v w s

end Stack

namespace Machine

/-- The machine at the index `c` of a program, with the variables and the sink as in `s`. -/
def poised (p : Program) (c : Nat) (stack : Stack) (s : Tree.State) : Machine :=
  ⟨c, stack, p.store.holding s.values, s.sink, none⟩

/-- The same machine, stopped by a fault. -/
def stopped (p : Program) (c : Nat) (stack : Stack) (s : Tree.State) (f : Located RunError) :
    Machine :=
  { poised p c stack s with fault := some f }

section

variable {p : Program} {c : Nat} {pos : Position} {op : Operation} (stack : Stack) (s : Tree.State)

theorem step_of_ok (h : p.code.get? c = some ⟨pos, op⟩) (next : Nat) (m : Machine)
    (hop : execute p op (poised p c stack s) = .ok next m) :
    (poised p c stack s).step p = { m with counter := next } := by
  have hcurrent : (poised p c stack s).current? p = some ⟨pos, op⟩ := h
  simp only [step, hcurrent, hop]

theorem step_of_error (h : p.code.get? c = some ⟨pos, op⟩) (e : RunError) (m : Machine)
    (hop : execute p op (poised p c stack s) = .error e m) :
    (poised p c stack s).step p = { m with fault := some ⟨pos, e⟩ } := by
  have hcurrent : (poised p c stack s).current? p = some ⟨pos, op⟩ := h
  simp only [step, hcurrent, hop]

/-- Markers and declarations do nothing. -/
theorem step_marker (h : p.code.get? c = some ⟨pos, op⟩) (hop : execute p op = following) :
    (poised p c stack s).step p = poised p (c + 1) stack s :=
  step_of_ok stack s h _ _ (by rw [hop]; rfl)

theorem step_constant (v : Value) (h : p.code.get? c = some ⟨pos, .constant v⟩) :
    (poised p c stack s).step p = poised p (c + 1) (.value v :: stack) s :=
  step_of_ok stack s h _ _ rfl

theorem step_target (x : Nat) (h : p.code.get? c = some ⟨pos, .target x⟩) :
    (poised p c stack s).step p = poised p (c + 1) (.target x :: stack) s :=
  step_of_ok stack s h _ _ rfl

theorem step_jump (t : Nat) (h : p.code.get? c = some ⟨pos, .jump (some t)⟩) (ht : t < p.size) :
    (poised p c stack s).step p = poised p t stack s := by
  refine step_of_ok stack s h t (poised p c stack s) ?_
  simp only [execute, landing, if_pos ht]
  rfl

/-- Fetching an index at which the store has a variable. -/
theorem fetch_poised (x : Nat) (y : Variable) (hy : p.store.get? x = some y) :
    fetch x (poised p c stack s) =
      .ok { y with value := s.values y.name } (poised p c stack s) := by
  have hget : (p.store.holding s.values).slots.get? x =
      some { y with value := s.values y.name } := by
    have hmap := p.store.get?_holding s.values x
    rwa [hy] at hmap
  simp only [fetch, poised, Store.get, Chain.get, hget]

theorem step_read (x : Nat) (kind : VariableKind) (y : Variable)
    (h : p.code.get? c = some ⟨pos, .read kind x⟩) (hy : p.store.get? x = some y) :
    (poised p c stack s).step p = poised p (c + 1) (.value (s.values y.name) :: stack) s := by
  refine step_of_ok stack s h _ (poised p c (.value (s.values y.name) :: stack) s) ?_
  simp only [execute, bind, EStateM.bind, fetch_poised stack s x y hy]
  rfl

end

section

variable {α : Type} {p : Program} {c : Nat} {pos : Position} {stack stack' : Stack}

theorem onStack_poised_ok (s : Tree.State) {x : Stack.Take α} {a : α}
    (h : x stack = .ok a stack') :
    onStack x (poised p c stack s) = .ok a (poised p c stack' s) := by
  simp only [onStack, poised, h]

theorem onStack_poised_error (s : Tree.State) {x : Stack.Take α} {e : RunError}
    (h : x stack = .error e stack') :
    onStack x (poised p c stack s) = .error e (poised p c stack' s) := by
  simp only [onStack, poised, h]

theorem step_assign (s : Tree.State) (x : Nat) (v : Value) (y : Variable)
    (hdistinct : p.store.Distinct) (h : p.code.get? c = some ⟨pos, .assign⟩)
    (hy : p.store.get? x = some y) (hkind : v.kind = y.kind.toKind) :
    (poised p c (.value v :: .target x :: stack) s).step p =
      poised p (c + 1) stack { s with values := Function.update s.values y.name v } := by
  have hwrite := p.store.write_holding hdistinct s.values x y hy v
  refine step_of_ok _ s h _ { poised p c stack s with
    store := p.store.holding (Function.update s.values y.name v) } ?_
  simp only [execute, assign, bind, EStateM.bind,
    onStack_poised_ok s (Stack.gives_takeValue v (.target x :: stack)),
    onStack_poised_ok s (show Stack.takeTarget (.target x :: stack) = .ok x stack from rfl),
    fetch_poised stack s x y hy, if_pos hkind, ← hwrite]
  rfl

theorem step_assign_mismatch (s : Tree.State) (x : Nat) (v : Value) (y : Variable)
    (h : p.code.get? c = some ⟨pos, .assign⟩) (hy : p.store.get? x = some y)
    (hkind : v.kind ≠ y.kind.toKind) :
    (poised p c (.value v :: .target x :: stack) s).step p =
      stopped p c stack s ⟨pos, .typeMismatch (.kind y.kind.toKind) v.kind⟩ := by
  refine step_of_error _ s h _ (poised p c stack s) ?_
  simp only [execute, assign, bind, EStateM.bind,
    onStack_poised_ok s (Stack.gives_takeValue v (.target x :: stack)),
    onStack_poised_ok s (show Stack.takeTarget (.target x :: stack) = .ok x stack from rfl),
    fetch_poised stack s x y hy, if_neg hkind]
  rfl

theorem step_print (s : Tree.State) (v : Value) (h : p.code.get? c = some ⟨pos, .print⟩)
    (hfits : s.sink.fits (v.text ++ "\n").toUTF8 = true) :
    (poised p c (.value v :: stack) s).step p =
      poised p (c + 1) stack { s with sink := s.sink.write (v.text ++ "\n").toUTF8 } := by
  have hprint : printLine v.text (poised p c stack s) =
      .ok () (poised p c stack { s with sink := s.sink.write (v.text ++ "\n").toUTF8 }) :=
    if_pos hfits
  refine step_of_ok _ s h _ (poised p c stack
    { s with sink := s.sink.write (v.text ++ "\n").toUTF8 }) ?_
  simp only [execute, bind, EStateM.bind, onStack_poised_ok s (Stack.gives_takeValue v stack),
    hprint]
  rfl

theorem step_print_full (s : Tree.State) (v : Value) (h : p.code.get? c = some ⟨pos, .print⟩)
    (hfull : ¬ s.sink.fits (v.text ++ "\n").toUTF8 = true) :
    (poised p c (.value v :: stack) s).step p =
      stopped p c stack { s with sink := s.sink.write (v.text ++ "\n").toUTF8 }
        ⟨pos, .output⟩ := by
  have hprint : printLine v.text (poised p c stack s) =
      .error .output (poised p c stack { s with sink := s.sink.write (v.text ++ "\n").toUTF8 }) :=
    if_neg hfull
  refine step_of_error _ s h _ (poised p c stack
    { s with sink := s.sink.write (v.text ++ "\n").toUTF8 }) ?_
  simp only [execute, bind, EStateM.bind, onStack_poised_ok s (Stack.gives_takeValue v stack),
    hprint]

end

theorem run_stopped (p : Program) (c : Nat) (stack : Stack) (s : Tree.State) (f : Located RunError)
    (n : Nat) : (stopped p c stack s f).run p n = stopped p c stack s f := by
  cases n with
  | zero => rfl
  | succ n => rfl

/-- After `n` steps, a run from `m` is at the machine that `next` makes of the result `r`.
Where `r` is a fault, the machine has stopped with it. -/
def Yields {α : Type} (p : Program) (n : Nat) (m : Machine) (s : Tree.State)
    (r : Except (Located RunError) α) (next : α → Machine) : Prop :=
  match r with
  | .ok a => m.run p n = next a
  | .error f => ∃ c stack, m.run p n = stopped p c stack s f

section

variable {α β : Type} {p : Program} {j k : Nat} {m m' : Machine} {s : Tree.State}
  {next : α → Machine}

theorem Yields.bind {r : Except (Located RunError) α} {g : α → Except (Located RunError) β}
    {last : β → Machine} (h : Yields p j m s r next) (hg : ∀ a, Yields p k (next a) s (g a) last) :
    Yields p (j + k) m s (r >>= g) last := by
  cases r with
  | error f =>
      obtain ⟨c, stack, hj⟩ := h
      exact ⟨c, stack, by rw [run_add, hj, run_stopped]⟩
  | ok a =>
      have hrun : m.run p (j + k) = (next a).run p k := by
        rw [run_add, show m.run p j = next a from h]
      have ha := hg a
      rw [show (Except.ok a >>= g) = g a from rfl]
      unfold Yields at ha ⊢
      rwa [hrun]

theorem Yields.of_step {a : α} (h : m.step p = next a) : Yields p 1 m s (.ok a) next := by
  rw [Yields, run_succ, run_zero, h]

/-- An instruction that takes operands and pushes a value. -/
theorem yields_operator {c : Nat} {pos : Position} {op : Operator} {stack stack' : Stack}
    {r : Except RunError Value} (h : p.code.get? c = some ⟨pos, .operator op⟩)
    (hr : Stack.Gives (Stack.operate op) stack r stack') :
    Yields p 1 (poised p c stack s) s (Tree.blame pos r) fun v =>
      poised p (c + 1) (.value v :: stack') s := by
  cases r with
  | ok v =>
      refine Yields.of_step (step_of_ok stack s h _ (poised p c (.value v :: stack') s) ?_)
      simp only [execute, bind, EStateM.bind, onStack_poised_ok s hr]
      rfl
  | error e =>
      obtain ⟨t, ht⟩ := hr
      refine ⟨c, t, ?_⟩
      rw [run_succ, run_zero, step_of_error stack s h e (poised p c t s)]
      · rfl
      · simp only [execute, bind, EStateM.bind, onStack_poised_error s ht]

/-- A conditional jump goes on behind itself, or to its target. -/
theorem yields_branch {c t : Nat} {pos : Position} (stack : Stack) (v : Value)
    (h : p.code.get? c = some ⟨pos, .branch (some t)⟩) (ht : t < p.size) :
    Yields p 1 (poised p c (.value v :: stack) s) s (Tree.blame pos v.asBoolean) fun b =>
      poised p (if b then c + 1 else t) stack s := by
  have hv := Stack.gives_takeBoolean v stack
  cases hboolean : v.asBoolean with
  | ok b =>
      rw [hboolean] at hv
      refine Yields.of_step (step_of_ok _ s h _ (poised p c stack s) ?_)
      simp only [execute, bind, EStateM.bind, onStack_poised_ok s hv]
      cases b with
      | true => rfl
      | false => simp [landing, ht, pure, EStateM.pure]
  | error e =>
      rw [hboolean] at hv
      obtain ⟨stack', ht'⟩ := hv
      refine ⟨c, stack', ?_⟩
      rw [run_succ, run_zero, step_of_error _ s h e (poised p c stack' s)]
      · rfl
      · simp only [execute, bind, EStateM.bind, onStack_poised_error s ht']

end

end Machine

end StackLang
