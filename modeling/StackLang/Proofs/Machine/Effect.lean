import StackLang.Proofs.Machine.Frame

/-!
# What an operation can change

Variables change by assignments only, and only printing has to do with the sink. `Still`
and `Blind` state this of computations on a machine: a computation that is still leaves the
variables as they are, also where it fails, and a blind one neither writes to the sink nor
looks at it, so it does the same with any other sink. Both are kept by binds. What is left
are the two operations themselves, and for these all that a step can do is listed.
-/

namespace StackLang

variable {α β : Type}

/-- `R` relates the state before the computation to the one behind it, whether it succeeds or
not. -/
def Respects {ε σ : Type} (R : σ → σ → Prop) (x : EStateM ε σ α) : Prop :=
  ∀ s, match x s with
    | .ok _ s' => R s s'
    | .error _ s' => R s s'

theorem Respects.bind {ε σ : Type} {R : σ → σ → Prop} {x : EStateM ε σ α}
    {f : α → EStateM ε σ β} (hR : ∀ {s s' s''}, R s s' → R s' s'' → R s s'') (hx : Respects R x)
    (hf : ∀ a, Respects R (f a)) : Respects R (x >>= f) := by
  intro s
  have hxs := hx s
  change match EStateM.bind x f s with
    | .ok _ s' => _
    | .error _ s' => _
  cases hresult : x s with
  | error e s' =>
      rw [hresult] at hxs
      simpa only [EStateM.bind, hresult] using hxs
  | ok a s' =>
      rw [hresult] at hxs
      have hrest := hf a s'
      simp only [EStateM.bind, hresult]
      cases hlast : f a s' with
      | error e s'' =>
          rw [hlast] at hrest
          exact hR hxs hrest
      | ok b s'' =>
          rw [hlast] at hrest
          exact hR hxs hrest

namespace Machine

/-- The same machine with another sink. -/
def into (m : Machine) (s : Sink) : Machine := { m with sink := s }

/-- The computation leaves the variables as they are, whether it succeeds or not. -/
def Still (x : Action α) : Prop :=
  ∀ m, match x m with
    | .ok _ m' => m'.store = m.store
    | .error _ m' => m'.store = m.store

/-- The computation leaves the sink as it is, and does the same with any other sink. -/
def Blind (x : Action α) : Prop :=
  ∀ m, match x m with
    | .ok a m' => m'.sink = m.sink ∧ ∀ s, x (m.into s) = .ok a (m'.into s)
    | .error e m' => m'.sink = m.sink ∧ ∀ s, x (m.into s) = .error e (m'.into s)

section Still

theorem still_iff_respects (x : Action α) :
    Still x ↔ Respects (fun m m' : Machine => m'.store = m.store) x := by
  refine forall_congr' fun m => ?_
  cases x m with
  | ok a m' => rfl
  | error e m' => rfl

theorem Still.bind {x : Action α} {f : α → Action β} (hx : Still x) (hf : ∀ a, Still (f a)) :
    Still (x >>= f) := by
  simp only [still_iff_respects] at hx hf ⊢
  exact hx.bind (fun h h' => h'.trans h) hf

theorem still_throw (e : RunError) : Still (throw e : Action α) := fun _ => rfl

theorem still_onStack (x : Stack.Take α) : Still (onStack x) := by
  intro m
  simp only [onStack]
  cases x m.stack with
  | ok a s => rfl
  | error e s => rfl

theorem still_push (x : Operand) : Still (push x) := fun _ => rfl

theorem still_following : Still following := fun _ => rfl

theorem still_fetch (x : Nat) : Still (fetch x) := by
  intro m
  simp only [fetch]
  cases m.store.get x with
  | ok y => rfl
  | error e => rfl

theorem still_landing (p : Program) (t : Option Nat) : Still (landing p t) := by
  cases t with
  | none => exact still_throw _
  | some t =>
      rw [landing]
      by_cases ht : t < p.size
      · rw [if_pos ht]
        exact fun _ => rfl
      · rw [if_neg ht]
        exact still_throw _

theorem still_printLine (text : String) : Still (printLine text) := by
  intro m
  simp only [printLine]
  by_cases hfits : m.sink.fits (text ++ "\n").toUTF8 = true
  · rw [if_pos hfits]
  · rw [if_neg hfits]

/-- An operation that does not assign leaves the variables as they are. -/
theorem still_execute (p : Program) (op : Operation) (hop : op ≠ .assign) :
    Still (execute p op) := by
  cases op with
  | assign => exact absurd rfl hop
  | declare | otherwise | loop | close => exact still_following
  | print =>
      exact (still_onStack _).bind fun v => (still_printLine v.text).bind fun _ => still_following
  | branch t =>
      refine (still_onStack _).bind fun b => ?_
      cases b with
      | true => exact still_following
      | false => exact still_landing p t
  | jump t => exact still_landing p t
  | target x => exact (still_push _).bind fun _ => still_following
  | read kind x =>
      exact (still_fetch x).bind fun y => (still_push _).bind fun _ => still_following
  | constant v => exact (still_push _).bind fun _ => still_following
  | operator op =>
      exact (still_onStack _).bind fun v => (still_push _).bind fun _ => still_following

end Still

section Blind

theorem Blind.bind {x : Action α} {f : α → Action β} (hx : Blind x) (hf : ∀ a, Blind (f a)) :
    Blind (x >>= f) := by
  intro m
  have hxm := hx m
  change match EStateM.bind x f m with
    | .ok a m' => _
    | .error e m' => _
  cases hresult : x m with
  | error e m' =>
      rw [hresult] at hxm
      simp only [EStateM.bind, hresult]
      refine ⟨hxm.1, fun s => ?_⟩
      change EStateM.bind x f (m.into s) = _
      simp only [EStateM.bind, hxm.2]
  | ok a m' =>
      rw [hresult] at hxm
      obtain ⟨hsink, hinto⟩ := hxm
      have hrest := hf a m'
      have hbind (s : Sink) : (x >>= f) (m.into s) = f a (m'.into s) := by
        change EStateM.bind x f (m.into s) = _
        simp only [EStateM.bind, hinto]
      simp only [EStateM.bind, hresult]
      cases hlast : f a m' with
      | error e m'' =>
          rw [hlast] at hrest
          exact ⟨hrest.1.trans hsink, fun s => (hbind s).trans (hrest.2 s)⟩
      | ok b m'' =>
          rw [hlast] at hrest
          exact ⟨hrest.1.trans hsink, fun s => (hbind s).trans (hrest.2 s)⟩

theorem blind_throw (e : RunError) : Blind (throw e : Action α) := fun _ => ⟨rfl, fun _ => rfl⟩

theorem blind_onStack (x : Stack.Take α) : Blind (onStack x) := by
  intro m
  simp only [onStack]
  cases hresult : x m.stack with
  | ok a s => exact ⟨rfl, fun t => by simp only [into, hresult]⟩
  | error e s => exact ⟨rfl, fun t => by simp only [into, hresult]⟩

theorem blind_push (x : Operand) : Blind (push x) := fun _ => ⟨rfl, fun _ => rfl⟩

theorem blind_following : Blind following := fun _ => ⟨rfl, fun _ => rfl⟩

theorem blind_fetch (x : Nat) : Blind (fetch x) := by
  intro m
  simp only [fetch]
  cases hx : m.store.get x with
  | ok y => exact ⟨rfl, fun s => by simp only [into, hx]⟩
  | error e => exact ⟨rfl, fun s => by simp only [into, hx]⟩

theorem blind_landing (p : Program) (t : Option Nat) : Blind (landing p t) := by
  cases t with
  | none => exact blind_throw _
  | some t =>
      rw [landing]
      by_cases ht : t < p.size
      · rw [if_pos ht]
        exact fun _ => ⟨rfl, fun _ => rfl⟩
      · rw [if_neg ht]
        exact blind_throw _

theorem blind_assign (x : Nat) (v : Value) : Blind (assign x v) := by
  refine (blind_fetch x).bind fun y => ?_
  by_cases hkind : v.kind = y.kind.toKind
  · rw [if_pos hkind]
    exact fun _ => ⟨rfl, fun _ => rfl⟩
  · rw [if_neg hkind]
    exact blind_throw _

/-- An operation that does not print does the same with any sink. -/
theorem blind_execute (p : Program) (op : Operation) (hop : op ≠ .print) :
    Blind (execute p op) := by
  cases op with
  | print => exact absurd rfl hop
  | declare | otherwise | loop | close => exact blind_following
  | assign =>
      exact (blind_onStack _).bind fun v => (blind_onStack _).bind fun x =>
        (blind_assign x v).bind fun _ => blind_following
  | branch t =>
      refine (blind_onStack _).bind fun b => ?_
      cases b with
      | true => exact blind_following
      | false => exact blind_landing p t
  | jump t => exact blind_landing p t
  | target x => exact (blind_push _).bind fun _ => blind_following
  | read kind x =>
      exact (blind_fetch x).bind fun y => (blind_push _).bind fun _ => blind_following
  | constant v => exact (blind_push _).bind fun _ => blind_following
  | operator op =>
      exact (blind_onStack _).bind fun v => (blind_push _).bind fun _ => blind_following

end Blind

section Steps

variable {p : Program} {m : Machine} {i : Instruction}

@[simp] theorem current?_into (m : Machine) (s : Sink) : (m.into s).current? p = m.current? p := rfl

/-- A step that does not assign leaves the variables as they are. -/
theorem store_step_of_ne_assign (hcurrent : m.current? p = some i) (hop : i.op ≠ .assign) :
    (m.step p).store = m.store := by
  have hstill := still_execute p i.op hop m
  simp only [step, hcurrent]
  cases hexecute : execute p i.op m with
  | ok next m' =>
      rw [hexecute] at hstill
      exact hstill
  | error e m' =>
      rw [hexecute] at hstill
      exact hstill

/-- A step that does not print does the same with any sink. -/
theorem step_into_of_ne_print (hcurrent : m.current? p = some i) (hop : i.op ≠ .print) :
    (m.step p).sink = m.sink ∧ ∀ s, (m.into s).step p = (m.step p).into s := by
  have hblind := blind_execute p i.op hop m
  simp only [step, current?_into, hcurrent]
  cases hexecute : execute p i.op m with
  | ok next m' =>
      rw [hexecute] at hblind
      exact ⟨hblind.1, fun s => by simp only [hblind.2 s]; rfl⟩
  | error e m' =>
      rw [hexecute] at hblind
      exact ⟨hblind.1, fun s => by simp only [hblind.2 s]; rfl⟩

variable {pos : Position}

theorem step_of_execute_ok {next : Nat} (m' : Machine) (hcurrent : m.current? p = some i)
    (h : execute p i.op m = .ok next m') : m.step p = { m' with counter := next } := by
  simp only [step, hcurrent, h]

theorem step_of_execute_error {e : RunError} (m' : Machine) (hcurrent : m.current? p = some i)
    (h : execute p i.op m = .error e m') : m.step p = { m' with fault := some ⟨i.pos, e⟩ } := by
  simp only [step, hcurrent, h]

/-- An assignment fails and changes no variable, or it finds a value above a variable of its
kind and gives the variable that value. -/
theorem step_assign_cases (hcurrent : m.current? p = some ⟨pos, .assign⟩) :
    (∃ e stack, m.step p = { m with stack := stack, fault := some ⟨pos, e⟩ }) ∨
      ∃ v x y rest, m.stack = .value v :: .target x :: rest ∧ m.store.get? x = some y ∧
        v.kind = y.kind.toKind ∧
        m.step p =
          { m with counter := m.counter + 1, stack := rest, store := m.store.write x v } := by
  rcases m with ⟨counter, stack, store, sink, fault⟩
  have hfailed (e : RunError) (stack' : Stack) (h : execute p .assign ⟨counter, stack, store, sink,
      fault⟩ = .error e ⟨counter, stack', store, sink, fault⟩) :=
    step_of_execute_error _ hcurrent h
  rcases stack with - | ⟨v | x, - | ⟨w | x, rest⟩⟩
  · exact .inl ⟨_, [], hfailed _ _ rfl⟩
  · exact .inl ⟨_, [], hfailed _ _ rfl⟩
  · exact .inl ⟨_, rest, hfailed _ _ rfl⟩
  · have hassign : execute p .assign ⟨counter, .value v :: .target x :: rest, store, sink, fault⟩ =
        (do assign x v; following) ⟨counter, rest, store, sink, fault⟩ := rfl
    simp only [assign, bind, EStateM.bind, fetch, Store.get, Chain.get] at hassign
    cases hx : store.slots.get? x with
    | none =>
        simp only [hx] at hassign
        exact .inl ⟨_, rest, hfailed _ _ hassign⟩
    | some y =>
        simp only [hx] at hassign
        by_cases hkind : v.kind = y.kind.toKind
        · rw [if_pos hkind] at hassign
          exact .inr ⟨v, x, y, rest, rfl, hx, hkind, step_of_execute_ok
            ⟨counter, rest, store.write x v, sink, fault⟩ hcurrent hassign⟩
        · rw [if_neg hkind] at hassign
          exact .inl ⟨_, rest, hfailed _ _ hassign⟩
  · exact .inl ⟨_, [], hfailed _ _ rfl⟩
  · exact .inl ⟨_, .value w :: rest, hfailed _ _ rfl⟩
  · exact .inl ⟨_, .target x :: rest, hfailed _ _ rfl⟩

/-- The machine behind the print of the value `v`, with the operands `rest` below it. -/
def printed (m : Machine) (pos : Position) (v : Value) (rest : Stack) : Machine :=
  if m.sink.fits (v.text ++ "\n").toUTF8 then
    { m with
      counter := m.counter + 1
      stack := rest
      sink := m.sink.write (v.text ++ "\n").toUTF8 }
  else
    { m with
      stack := rest
      sink := m.sink.write (v.text ++ "\n").toUTF8
      fault := some ⟨pos, .output⟩ }

theorem step_print_of_value {v : Value} {rest : Stack}
    (hcurrent : m.current? p = some ⟨pos, .print⟩) (hstack : m.stack = .value v :: rest) :
    m.step p = m.printed pos v rest := by
  rcases m with ⟨counter, stack, store, sink, fault⟩
  obtain rfl : stack = .value v :: rest := hstack
  have hprint : execute p .print ⟨counter, .value v :: rest, store, sink, fault⟩ =
      (do printLine v.text; following) ⟨counter, rest, store, sink, fault⟩ := rfl
  simp only [printLine, bind, EStateM.bind] at hprint
  rw [printed]
  by_cases hfits : sink.fits (v.text ++ "\n").toUTF8 = true
  · rw [if_pos hfits] at hprint ⊢
    exact step_of_execute_ok _ hcurrent hprint
  · rw [if_neg hfits] at hprint ⊢
    exact step_of_execute_error _ hcurrent hprint

/-- A print fails before it writes, or it finds a value and writes its line. -/
theorem step_print_cases (hcurrent : m.current? p = some ⟨pos, .print⟩) :
    (∃ e stack, ∀ s, (m.into s).step p =
      { m with stack := stack, sink := s, fault := some ⟨pos, e⟩ }) ∨
      ∃ v rest, ∀ s, (m.into s).step p = (m.into s).printed pos v rest := by
  have hinto (s : Sink) : (m.into s).current? p = some ⟨pos, .print⟩ := hcurrent
  rcases m with ⟨counter, stack, store, sink, fault⟩
  have hfailed (e : RunError) (stack' : Stack) (s : Sink) (h : execute p .print ⟨counter, stack,
      store, s, fault⟩ = .error e ⟨counter, stack', store, s, fault⟩) :=
    step_of_execute_error _ (hinto s) h
  rcases stack with - | ⟨v | x, rest⟩
  · exact .inl ⟨_, [], fun s => hfailed _ _ s rfl⟩
  · exact .inr ⟨v, rest, fun s => step_print_of_value (hinto s) rfl⟩
  · exact .inl ⟨_, rest, fun s => hfailed _ _ s rfl⟩

/-- A step does the same with any sink, or it prints a value. -/
theorem sink_step_cases (p : Program) (m : Machine) :
    ((m.step p).sink = m.sink ∧ ∀ s, (m.into s).step p = (m.step p).into s) ∨
      ∃ pos v rest, m.current? p = some ⟨pos, .print⟩ ∧
        ∀ s, (m.into s).step p = (m.into s).printed pos v rest := by
  cases hcurrent : m.current? p with
  | none =>
      rw [step_of_current?_eq_none p m hcurrent]
      exact .inl ⟨rfl, fun s => step_of_current?_eq_none p (m.into s) hcurrent⟩
  | some i =>
      by_cases hop : i.op = .print
      · obtain ⟨pos, op⟩ := i
        obtain rfl : op = .print := hop
        rcases step_print_cases hcurrent with ⟨e, stack, hstep⟩ | ⟨v, rest, hstep⟩
        · have hself : m.step p = { m with stack := stack, fault := some ⟨pos, e⟩ } :=
            hstep m.sink
          rw [hself]
          exact .inl ⟨rfl, hstep⟩
        · exact .inr ⟨pos, v, rest, rfl, hstep⟩
      · exact .inl (step_into_of_ne_print hcurrent hop)

end Steps

end Machine

end StackLang
