import StackLang.Machine.Run
import StackLang.Proofs.Store

/-!
# What lies below on the stack

An operation takes a fixed number of operands and pushes a fixed number of results. As
long as it finds the operands it takes, it does not matter what lies below them: with
more operands at the bottom of the stack it does the same and leaves them there. `Takes`
states this of computations on the stack, `Framed` of computations on a machine, and both
are proved along binds. From steps it goes over to runs: if a run never finds its stack
empty, it can be done above any other stack (`run_above`).

Of variables, a run changes values only, and only to values of the declared kind
(`Store.Revises`).
-/

namespace StackLang

/-- How many operands an operator takes. -/
def Operator.arity : Operator → Nat
  | .negate | .not => 1
  | _ => 2

/-- How many operands an operation takes. -/
def Operation.taken : Operation → Nat
  | .assign => 2
  | .print | .branch _ => 1
  | .operator op => op.arity
  | _ => 0

/-- How many operands an operation leaves for those it takes. -/
def Operation.pushed : Operation → Nat
  | .target _ | .read _ _ | .constant _ | .operator _ => 1
  | _ => 0

namespace Store

/-- The same variables in the same order. Those that differ have a value of their kind in
`τ`. -/
def Revises (σ τ : Store) : Prop :=
  ∀ i, τ.get? i = σ.get? i ∨
    ∃ x v, σ.get? i = some x ∧ τ.get? i = some { x with value := v } ∧ v.kind = x.kind.toKind

namespace Revises

theorem refl (σ : Store) : σ.Revises σ := fun _ => .inl rfl

theorem trans {σ τ υ : Store} (h : σ.Revises τ) (h' : τ.Revises υ) : σ.Revises υ := by
  intro i
  rcases h' i with hsame' | ⟨y, w, hy, hw, hkind'⟩
  · rw [hsame']
    exact h i
  · rcases h i with hsame | ⟨x, v, hx, hv, -⟩
    · exact .inr ⟨y, w, hsame ▸ hy, hw, hkind'⟩
    · obtain rfl := Option.some.inj (hv.symm.trans hy)
      exact .inr ⟨x, w, hx, hw, hkind'⟩

theorem write (σ : Store) (i : Nat) (x : Variable) (hx : σ.get? i = some x) (v : Value)
    (hkind : v.kind = x.kind.toKind) : σ.Revises (σ.write i v) := by
  intro j
  rw [get?_write]
  by_cases hij : i = j
  · subst hij
    exact .inr ⟨x, v, hx, by simp [hx], hkind⟩
  · exact .inl (if_neg hij)

/-- A revised store still gives each name a value, the one it had or one of the kind of its
variable. -/
theorem exists_holding {σ τ : Store} {ρ : String → Value} (hσ : σ.Distinct)
    (h : (σ.holding ρ).Revises τ) :
    ∃ ρ', τ = σ.holding ρ' ∧ ∀ i x, σ.get? i = some x →
      ρ' x.name = ρ x.name ∨ (ρ' x.name).kind = x.kind.toKind := by
  let ρ' : String → Value := fun name =>
    (((σ.find? name).bind τ.get?).map Variable.value).getD (ρ name)
  have hvalue (i : Nat) (x : Variable) (hx : σ.get? i = some x) :
      ∃ v, τ.get? i = some { x with value := v } ∧ ρ' x.name = v ∧
        (v = ρ x.name ∨ v.kind = x.kind.toKind) := by
    have hi := h i
    rw [get?_holding, hx, Option.map_some] at hi
    rcases hi with hsame | ⟨y, v, hy, hv, hkind⟩
    · exact ⟨ρ x.name, hsame, by simp [ρ', hσ.find?_name hx, hsame], .inl rfl⟩
    · obtain rfl := Option.some.inj hy
      exact ⟨v, hv, by simp [ρ', hσ.find?_name hx, hv], .inr hkind⟩
  refine ⟨ρ', ?_, ?_⟩
  · apply ext_get?
    intro i
    rw [get?_holding]
    cases hx : σ.get? i with
    | none =>
        have hi := h i
        rw [get?_holding, hx] at hi
        rcases hi with hnone | ⟨y, v, hy, -⟩
        · exact hnone
        · cases hy
    | some x =>
        obtain ⟨v, hv, hρ, -⟩ := hvalue i x hx
        rw [hv, Option.map_some, hρ]
  · intro i x hx
    obtain ⟨v, -, rfl, hv⟩ := hvalue i x hx
    exact hv

end Revises

end Store

namespace Stack

variable {α β : Type} {k l : Nat}

/-- The computation takes `k` operands. Where it does not find the stack empty, it does the
same above other operands. -/
def Takes (k : Nat) (x : Take α) : Prop :=
  ∀ s, match x s with
    | .ok a s' => s'.length + k = s.length ∧ ∀ below, x (s ++ below) = .ok a (s' ++ below)
    | .error e s' => e = .stackUnderflow ∨ ∀ below, x (s ++ below) = .error e (s' ++ below)

theorem takes_pure (a : α) : Takes 0 (pure a) := fun _ => ⟨rfl, fun _ => rfl⟩

theorem takes_throw (e : RunError) : Takes k (throw e : Take α) := fun _ => .inr fun _ => rfl

theorem Takes.bind {x : Take α} {f : α → Take β} (hx : Takes k x) (hf : ∀ a, Takes l (f a)) :
    Takes (k + l) (x >>= f) := by
  intro s
  have hxs := hx s
  change match EStateM.bind x f s with
    | .ok a s' => _
    | .error e s' => _
  cases hresult : x s with
  | error e s' =>
      rw [hresult] at hxs
      simp only [EStateM.bind, hresult]
      refine hxs.imp id fun hbelow below => ?_
      change EStateM.bind x f (s ++ below) = _
      simp only [EStateM.bind, hbelow]
  | ok a s' =>
      rw [hresult] at hxs
      obtain ⟨hlength, hbelow⟩ := hxs
      have hrest := hf a s'
      have hbind (below : Stack) : (x >>= f) (s ++ below) = f a (s' ++ below) := by
        change EStateM.bind x f (s ++ below) = _
        simp only [EStateM.bind, hbelow]
      simp only [EStateM.bind, hresult]
      cases hlast : f a s' with
      | error e s'' =>
          rw [hlast] at hrest
          exact hrest.imp id fun hbelow' below => (hbind below).trans (hbelow' below)
      | ok b s'' =>
          rw [hlast] at hrest
          refine ⟨?_, fun below => (hbind below).trans (hrest.2 below)⟩
          rw [← hlength, ← hrest.1, Nat.add_assoc, Nat.add_comm l k]

theorem takes_take : Takes 1 take := by
  intro s
  cases s with
  | nil => exact .inl rfl
  | cons x s => exact ⟨rfl, fun _ => rfl⟩

theorem takes_takeValue : Takes 1 takeValue := by
  refine takes_take.bind (l := 0) fun x => ?_
  cases x with
  | value v => exact takes_pure v
  | target i => exact takes_throw _

theorem takes_takeInteger : Takes 1 takeInteger := by
  refine takes_take.bind (l := 0) fun x => ?_
  rcases x with (n | s | b) | i
  · exact takes_pure n
  · exact takes_throw _
  · exact takes_throw _
  · exact takes_throw _

theorem takes_takeBoolean : Takes 1 takeBoolean := by
  refine takes_take.bind (l := 0) fun x => ?_
  rcases x with (n | s | b) | i
  · exact takes_throw _
  · exact takes_throw _
  · exact takes_pure b
  · exact takes_throw _

theorem takes_takeTarget : Takes 1 takeTarget := by
  refine takes_take.bind (l := 0) fun x => ?_
  cases x with
  | value v => exact takes_throw _
  | target i => exact takes_pure i

theorem takes_integers (f : Int64 → Int64 → Value) : Takes 2 (integers f) :=
  takes_takeInteger.bind fun _ => takes_takeInteger.bind fun _ => takes_pure _

theorem takes_booleans (f : Bool → Bool → Bool) : Takes 2 (booleans f) :=
  takes_takeBoolean.bind fun _ => takes_takeBoolean.bind fun _ => takes_pure _

theorem takes_add : Takes 2 add := by
  refine takes_takeValue.bind fun right => takes_takeValue.bind (l := 0) fun left => ?_
  cases sum left right with
  | ok v => exact takes_pure v
  | error e => exact takes_throw e

theorem takes_divide : Takes 2 divide := by
  refine takes_takeInteger.bind fun right => takes_takeInteger.bind (l := 0) fun left => ?_
  by_cases hright : right = 0
  · rw [if_pos hright]
    exact takes_throw _
  · rw [if_neg hright]
    exact takes_pure _

/-- An operator takes its operands and nothing else. -/
theorem takes_operate (op : Operator) : Takes op.arity (operate op) := by
  cases op with
  | add => exact takes_add
  | div => exact takes_divide
  | negate => exact takes_takeInteger.bind fun _ => takes_pure _
  | not => exact takes_takeBoolean.bind fun _ => takes_pure _
  | or | and => exact takes_booleans _
  | sub | mul | eq | notEq | less | lessEq | greater | greaterEq => exact takes_integers _

end Stack

namespace Machine

variable {α β : Type}

/-- The same machine with more operands at the bottom of its stack. -/
def above (m : Machine) (below : Stack) : Machine := { m with stack := m.stack ++ below }

/-- What a computation that succeeds may do to a machine, if it takes `k` operands and
pushes `l`. -/
structure Moves (k l : Nat) (m m' : Machine) : Prop where
  counter : m'.counter = m.counter
  fault : m'.fault = m.fault
  store : m.store.Revises m'.store
  height : m'.stack.length + k = m.stack.length + l

theorem Moves.trans {k l k' l' : Nat} {m m' m'' : Machine} (h : Moves k l m m')
    (h' : Moves k' l' m' m'') : Moves (k + k') (l + l') m m'' where
  counter := h'.counter.trans h.counter
  fault := h'.fault.trans h.fault
  store := h.store.trans h'.store
  height := by
    have := h.height
    have := h'.height
    omega

/-- The computation takes `k` operands and pushes `l`, and the result satisfies `P` with the
counter. Where it does not find the stack empty, it does the same above other operands. -/
def Framed (k l : Nat) (P : Nat → α → Prop) (x : Action α) : Prop :=
  ∀ m, match x m with
    | .ok a m' =>
      Moves k l m m' ∧ P m.counter a ∧ ∀ below, x (m.above below) = .ok a (m'.above below)
    | .error e m' =>
      m.store.Revises m'.store ∧
        (e = .stackUnderflow ∨ ∀ below, x (m.above below) = .error e (m'.above below))

section Framed

variable {k l k' l' : Nat} {P : Nat → α → Prop}

theorem Framed.bind {x : Action α} {f : α → Action β} {Q : Nat → β → Prop}
    (hx : Framed k l P x) (hf : ∀ a, Framed k' l' Q (f a)) :
    Framed (k + k') (l + l') Q (x >>= f) := by
  intro m
  have hxm := hx m
  change match EStateM.bind x f m with
    | .ok a m' => _
    | .error e m' => _
  cases hresult : x m with
  | error e m' =>
      rw [hresult] at hxm
      simp only [EStateM.bind, hresult]
      refine ⟨hxm.1, hxm.2.imp id fun hbelow below => ?_⟩
      change EStateM.bind x f (m.above below) = _
      simp only [EStateM.bind, hbelow]
  | ok a m' =>
      rw [hresult] at hxm
      obtain ⟨hmoves, -, hbelow⟩ := hxm
      have hrest := hf a m'
      have hbind (below : Stack) : (x >>= f) (m.above below) = f a (m'.above below) := by
        change EStateM.bind x f (m.above below) = _
        simp only [EStateM.bind, hbelow]
      simp only [EStateM.bind, hresult]
      cases hlast : f a m' with
      | error e m'' =>
          rw [hlast] at hrest
          refine ⟨hmoves.store.trans hrest.1, hrest.2.imp id fun hbelow' below => ?_⟩
          exact (hbind below).trans (hbelow' below)
      | ok b m'' =>
          rw [hlast, hmoves.counter] at hrest
          exact ⟨hmoves.trans hrest.1, hrest.2.1, fun below => (hbind below).trans (hrest.2.2 below)⟩

theorem framed_throw (e : RunError) : Framed k l P (throw e : Action α) :=
  fun m => ⟨Store.Revises.refl m.store, .inr fun _ => rfl⟩

theorem framed_onStack {x : Stack.Take α} (hx : Stack.Takes k x) :
    Framed k 0 (fun _ _ => True) (onStack x) := by
  intro m
  have hxs := hx m.stack
  simp only [onStack]
  cases hresult : x m.stack with
  | error e s =>
      rw [hresult] at hxs
      refine ⟨Store.Revises.refl m.store, hxs.imp id fun hbelow below => ?_⟩
      simp only [above, hbelow]
  | ok a s =>
      rw [hresult] at hxs
      refine ⟨⟨rfl, rfl, Store.Revises.refl m.store, hxs.1⟩, trivial, fun below => ?_⟩
      simp only [above, hxs.2]

theorem framed_push (x : Operand) : Framed 0 1 (fun _ _ => True) (push x) :=
  fun m => ⟨⟨rfl, rfl, Store.Revises.refl m.store, rfl⟩, trivial, fun _ => rfl⟩

theorem framed_following : Framed 0 0 (fun c next => next = c + 1) following :=
  fun m => ⟨⟨rfl, rfl, Store.Revises.refl m.store, rfl⟩, rfl, fun _ => rfl⟩

theorem framed_fetch (x : Nat) : Framed 0 0 (fun _ _ => True) (fetch x) := by
  intro m
  simp only [fetch]
  cases hx : m.store.get x with
  | error e =>
      refine ⟨Store.Revises.refl m.store, .inr fun below => ?_⟩
      simp only [above, hx]
  | ok y =>
      refine ⟨⟨rfl, rfl, Store.Revises.refl m.store, rfl⟩, trivial, fun below => ?_⟩
      simp only [above, hx]

theorem framed_landing (p : Program) (t : Option Nat) :
    Framed 0 0 (fun _ next => t = some next) (landing p t) := by
  cases t with
  | none => exact framed_throw _
  | some t =>
      rw [landing]
      by_cases ht : t < p.size
      · rw [if_pos ht]
        exact fun m => ⟨⟨rfl, rfl, Store.Revises.refl m.store, rfl⟩, rfl, fun _ => rfl⟩
      · rw [if_neg ht]
        exact framed_throw _

theorem framed_printLine (text : String) : Framed 0 0 (fun _ _ => True) (printLine text) := by
  intro m
  simp only [printLine]
  by_cases hfits : m.sink.fits (text ++ "\n").toUTF8 = true
  · rw [if_pos hfits]
    exact ⟨⟨rfl, rfl, Store.Revises.refl m.store, rfl⟩, trivial, fun below => if_pos hfits⟩
  · rw [if_neg hfits]
    exact ⟨Store.Revises.refl m.store, .inr fun below => if_neg hfits⟩

theorem framed_assign (x : Nat) (v : Value) : Framed 0 0 (fun _ _ => True) (assign x v) := by
  -- The kind that is checked is that of the variable in the same store, so this is no bind
  -- of two computations that are framed on their own.
  intro m
  simp only [assign, bind, EStateM.bind, fetch, Store.get, Chain.get]
  cases hx : m.store.slots.get? x with
  | none =>
      refine ⟨Store.Revises.refl m.store, .inr fun below => ?_⟩
      simp only [above, hx]
  | some y =>
      by_cases hkind : v.kind = y.kind.toKind
      · simp only [if_pos hkind]
        refine ⟨⟨rfl, rfl, Store.Revises.write m.store x y hx v hkind, rfl⟩, trivial, ?_⟩
        intro below
        simp only [above, hx, if_pos hkind]
        rfl
      · simp only [if_neg hkind]
        refine ⟨Store.Revises.refl m.store, .inr fun below => ?_⟩
        simp only [above, hx, if_neg hkind]
        rfl

/-- The index `next` comes behind an operation at the index `c`, or is its target. -/
def Leads (op : Operation) (c next : Nat) : Prop := next = c + 1 ∨ op.target? = some next

theorem Framed.mono {x : Action α} {Q : Nat → α → Prop} (hx : Framed k l P x)
    (hPQ : ∀ c a, P c a → Q c a) : Framed k l Q x := by
  intro m
  have hxm := hx m
  cases hresult : x m with
  | error e m' =>
      rw [hresult] at hxm
      exact hxm
  | ok a m' =>
      rw [hresult] at hxm
      exact ⟨hxm.1, hPQ _ _ hxm.2.1, hxm.2.2⟩

/-- An operation takes its operands, pushes its results and goes on behind itself or at its
target. -/
theorem framed_execute (p : Program) (op : Operation) :
    Framed op.taken op.pushed (Leads op) (execute p op) := by
  have hnext : Framed 0 0 (Leads op) following := framed_following.mono fun _ _ => .inl
  cases op with
  | declare | otherwise | loop | close => exact hnext
  | assign =>
      exact (framed_onStack Stack.takes_takeValue).bind fun v =>
        (framed_onStack Stack.takes_takeTarget).bind fun x => (framed_assign x v).bind fun _ => hnext
  | print =>
      exact (framed_onStack Stack.takes_takeValue).bind fun v =>
        (framed_printLine v.text).bind fun _ => hnext
  | branch t =>
      have hlanding (b : Bool) :
          Framed 0 0 (Leads (.branch t)) (if b then following else landing p t) := by
        cases b with
        | true => exact hnext
        | false => exact (framed_landing p t).mono fun _ _ => .inr
      exact (framed_onStack Stack.takes_takeBoolean).bind hlanding
  | jump t => exact (framed_landing p t).mono fun _ _ => .inr
  | target x => exact (framed_push _).bind fun _ => hnext
  | read kind x => exact (framed_fetch x).bind fun y => (framed_push _).bind fun _ => hnext
  | constant v => exact (framed_push _).bind fun _ => hnext
  | operator op =>
      exact (framed_onStack (Stack.takes_operate op)).bind fun v => (framed_push _).bind fun _ => hnext

end Framed

section Steps

variable {p : Program} {m : Machine} {n : Nat}

@[simp] theorem current?_above (m : Machine) (below : Stack) :
    (m.above below).current? p = m.current? p := rfl

theorem get?_of_current? {i : Instruction} (h : m.current? p = some i) :
    p.code.get? m.counter = some i := by
  rw [current?] at h
  split at h
  · exact h
  · cases h

theorem fault_of_current? {i : Instruction} (h : m.current? p = some i) : m.fault = none := by
  rw [current?] at h
  split at h
  · assumption
  · cases h

/-- What one step can do. -/
theorem step_cases (p : Program) (m : Machine) :
    m.current? p = none ∧ m.step p = m ∨
      ∃ i, m.current? p = some i ∧
        ((∃ next m', execute p i.op m = .ok next m' ∧ m.step p = { m' with counter := next }) ∨
          ∃ e m', execute p i.op m = .error e m' ∧
            m.step p = { m' with fault := some ⟨i.pos, e⟩ }) := by
  cases hcurrent : m.current? p with
  | none => exact .inl ⟨rfl, step_of_current?_eq_none p m hcurrent⟩
  | some i =>
      refine .inr ⟨i, rfl, ?_⟩
      cases hexecute : execute p i.op m with
      | ok next m' => exact .inl ⟨next, m', rfl, by simp only [step, hcurrent, hexecute]⟩
      | error e m' => exact .inr ⟨e, m', rfl, by simp only [step, hcurrent, hexecute]⟩

theorem revises_step (p : Program) (m : Machine) : m.store.Revises (m.step p).store := by
  obtain ⟨-, hstep⟩ | ⟨i, -, ⟨next, m', hexecute, hstep⟩ | ⟨e, m', hexecute, hstep⟩⟩ :=
    step_cases p m
  · rw [hstep]
    exact Store.Revises.refl m.store
  · have hframed := framed_execute p i.op m
    rw [hexecute] at hframed
    rw [hstep]
    exact hframed.1.store
  · have hframed := framed_execute p i.op m
    rw [hexecute] at hframed
    rw [hstep]
    exact hframed.1

/-- A step that does not find the stack empty is the same above other operands. -/
theorem step_above (m : Machine) (below : Stack)
    (h : ∀ f, (m.step p).fault = some f → f.item ≠ .stackUnderflow) :
    (m.above below).step p = (m.step p).above below := by
  obtain ⟨hcurrent, hstep⟩ | ⟨i, hcurrent, ⟨next, m', hexecute, hstep⟩ | ⟨e, m', hexecute, hstep⟩⟩ :=
    step_cases p m
  · rw [hstep]
    exact step_of_current?_eq_none p (m.above below) hcurrent
  · have hframed := framed_execute p i.op m
    rw [hexecute] at hframed
    rw [hstep, step, current?_above, hcurrent]
    simp only [hframed.2.2 below]
    rfl
  · have hframed := framed_execute p i.op m
    rw [hexecute] at hframed
    rcases hframed.2 with rfl | hbelow
    · exact absurd rfl (h ⟨i.pos, .stackUnderflow⟩ (by rw [hstep]))
    · rw [hstep, step, current?_above, hcurrent]
      simp only [hbelow below]
      rfl

theorem run_succ_last (p : Program) (n : Nat) (m : Machine) :
    m.run p (n + 1) = (m.run p n).step p := by
  rw [run_add, run_succ, run_zero]

theorem revises_run (p : Program) (m : Machine) (n : Nat) :
    m.store.Revises (m.run p n).store := by
  induction n with
  | zero => exact Store.Revises.refl m.store
  | succ n ih =>
      rw [run_succ_last]
      exact ih.trans (revises_step p _)

/-- A run that never finds the stack empty is the same above other operands. -/
theorem run_above (m : Machine) (below : Stack)
    (h : ∀ n f, (m.run p n).fault = some f → f.item ≠ .stackUnderflow) (n : Nat) :
    (m.above below).run p n = (m.run p n).above below := by
  induction n with
  | zero => rfl
  | succ n ih =>
      rw [run_succ_last, run_succ_last, ih]
      apply step_above
      rw [← run_succ_last]
      exact h (n + 1)

end Steps

end Machine

end StackLang
