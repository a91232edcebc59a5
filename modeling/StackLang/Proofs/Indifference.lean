import StackLang.Proofs.Variables

/-!
# Variables that are not read do not matter

The values of variables come into a run by the instructions that read them, and by no other
way: an assignment finds the variable it writes on the stack and looks at its kind, never at
its value. So two runs from stores that agree on all variables that the program reads go
side by side for ever. Where the stores agree at the start they agree at all times, and what
is assigned is the same on both sides from then on.

`Coupled R` states of a computation that it does the same on two machines that `R` relates,
and leaves them related. `Beside A` is the relation that is kept here: the machines differ
in the values of variables at most, and in none of those in `A`.

The other half is about one run. A variable waits on the stack only if an instruction of the
program has put it there, so a variable that no instruction names as a target is never
written.
-/

namespace StackLang

namespace Operation

/-- The variable whose value the operation takes. -/
def read? : Operation → Option Nat
  | .read _ x => some x
  | _ => none

/-- The variable that the operation puts forward for an assignment. -/
def aim? : Operation → Option Nat
  | .target x => some x
  | _ => none

end Operation

namespace Program

/-- The variables that a program reads. -/
def reads (p : Program) : List Nat := p.code.toList.filterMap fun i => i.op.read?

/-- The variables that a program names for assignments. -/
def targets (p : Program) : List Nat := p.code.toList.filterMap fun i => i.op.aim?

variable {p : Program} {c x : Nat} {i : Instruction}

theorem mem_reads {kind : VariableKind} (h : p.code.get? c = some i) (hop : i.op = .read kind x) :
    x ∈ p.reads := by
  rw [Chain.get?_eq_getElem?] at h
  exact List.mem_filterMap.mpr ⟨i, List.mem_of_getElem? h, by rw [hop]; rfl⟩

theorem mem_targets (h : p.code.get? c = some i) (hop : i.op = .target x) : x ∈ p.targets := by
  rw [Chain.get?_eq_getElem?] at h
  exact List.mem_filterMap.mpr ⟨i, List.mem_of_getElem? h, by rw [hop]; rfl⟩

end Program

namespace Store

variable {A : Nat → Prop} {σ τ : Store}

/-- The value of the variable at an index. -/
def value? (σ : Store) (x : Nat) : Option Value := (σ.get? x).map Variable.value

/-- The same variables, with the same values wherever `A` holds. -/
structure Matches (A : Nat → Prop) (σ τ : Store) : Prop where
  declarations : σ.declarations = τ.declarations
  values : ∀ x, A x → σ.value? x = τ.value? x

theorem Matches.get?_eq (h : σ.Matches A τ) {x : Nat} (hx : A x) : σ.get? x = τ.get? x := by
  have hvalue := h.values x hx
  cases hτ : τ.get? x with
  | none =>
      rw [value?, value?, hτ, Option.map_none, Option.map_eq_none_iff] at hvalue
      exact hvalue
  | some z =>
      obtain ⟨y, hy, hname, hkind⟩ := exists_of_declarations_eq h.declarations hτ
      rw [value?, value?, hy, hτ] at hvalue
      rcases y with ⟨name, kind, v⟩
      rcases z with ⟨name', kind', w⟩
      obtain rfl : name = name' := hname
      obtain rfl : kind = kind' := hkind
      obtain rfl : v = w := Option.some.inj hvalue
      exact hy

theorem Matches.size_eq (h : σ.Matches A τ) : σ.slots.size = τ.slots.size := by
  have hlength := congrArg List.length h.declarations
  simpa [Store.declarations, Chain.size, Chain.toList] using hlength

theorem value?_write_self {x : Nat} {y : Variable} (h : σ.get? x = some y) (v : Value) :
    (σ.write x v).value? x = some v := by
  rw [value?, get?_write, if_pos rfl, h]
  rfl

theorem value?_write_of_ne {x z : Nat} (h : x ≠ z) (v : Value) :
    (σ.write x v).value? z = σ.value? z := by
  rw [value?, get?_write, if_neg h, value?]

theorem declarations_write (σ : Store) (x : Nat) (v : Value) :
    (σ.write x v).declarations = σ.declarations := by
  apply List.ext_getElem?
  intro i
  rw [getElem?_declarations, getElem?_declarations, get?_write]
  by_cases hi : x = i
  · rw [if_pos hi, Option.map_map]
    rfl
  · rw [if_neg hi]

theorem Matches.write (h : σ.Matches A τ) (x : Nat) (v : Value) :
    (σ.write x v).Matches A (τ.write x v) where
  declarations := by rw [declarations_write, declarations_write, h.declarations]
  values z hz := by
    rw [value?, value?, get?_write, get?_write, h.get?_eq hz]

end Store

namespace Stack

variable {α β : Type}

/-- The computation takes operands from the top and puts none there, whether it succeeds or
not. -/
def Sheds (x : Take α) : Prop := Respects (fun s s' => s' <:+ s) x

theorem Sheds.bind {x : Take α} {f : α → Take β} (hx : Sheds x) (hf : ∀ a, Sheds (f a)) :
    Sheds (x >>= f) :=
  Respects.bind (fun h h' => h'.trans h) hx hf

theorem sheds_pure (a : α) : Sheds (pure a) := fun _ => List.suffix_refl _

theorem sheds_throw (e : RunError) : Sheds (throw e : Take α) := fun _ => List.suffix_refl _

theorem sheds_take : Sheds take := by
  intro s
  cases s with
  | nil => exact List.suffix_refl _
  | cons x s => exact List.suffix_cons x s

theorem sheds_takeValue : Sheds takeValue := by
  refine sheds_take.bind fun x => ?_
  cases x with
  | value v => exact sheds_pure v
  | target i => exact sheds_throw _

theorem sheds_takeInteger : Sheds takeInteger := by
  refine sheds_take.bind fun x => ?_
  rcases x with (n | s | b) | i
  · exact sheds_pure n
  · exact sheds_throw _
  · exact sheds_throw _
  · exact sheds_throw _

theorem sheds_takeBoolean : Sheds takeBoolean := by
  refine sheds_take.bind fun x => ?_
  rcases x with (n | s | b) | i
  · exact sheds_throw _
  · exact sheds_throw _
  · exact sheds_pure b
  · exact sheds_throw _

theorem sheds_takeTarget : Sheds takeTarget := by
  refine sheds_take.bind fun x => ?_
  cases x with
  | value v => exact sheds_throw _
  | target i => exact sheds_pure i

theorem sheds_integers (f : Int64 → Int64 → Value) : Sheds (integers f) :=
  sheds_takeInteger.bind fun _ => sheds_takeInteger.bind fun _ => sheds_pure _

theorem sheds_booleans (f : Bool → Bool → Bool) : Sheds (booleans f) :=
  sheds_takeBoolean.bind fun _ => sheds_takeBoolean.bind fun _ => sheds_pure _

theorem sheds_operate (op : Operator) : Sheds (operate op) := by
  cases op with
  | add =>
      refine sheds_takeValue.bind fun right => sheds_takeValue.bind fun left => ?_
      cases sum left right with
      | ok v => exact sheds_pure v
      | error e => exact sheds_throw e
  | div =>
      refine sheds_takeInteger.bind fun right => sheds_takeInteger.bind fun left => ?_
      by_cases hright : right = 0
      · rw [if_pos hright]
        exact sheds_throw _
      · rw [if_neg hright]
        exact sheds_pure _
  | negate => exact sheds_takeInteger.bind fun _ => sheds_pure _
  | not => exact sheds_takeBoolean.bind fun _ => sheds_pure _
  | or | and => exact sheds_booleans _
  | sub | mul | eq | notEq | less | lessEq | greater | greaterEq => exact sheds_integers _

end Stack

namespace Machine

variable {α β : Type}

section Coupled

/-- The same result on two machines that `R` relates. -/
inductive Same (R : Machine → Machine → Prop) :
    EStateM.Result RunError Machine α → EStateM.Result RunError Machine α → Prop
  | ok (a : α) {m m' : Machine} (h : R m m') : Same R (.ok a m) (.ok a m')
  | error (e : RunError) {m m' : Machine} (h : R m m') : Same R (.error e m) (.error e m')

/-- The computation does the same on machines that `R` relates, and leaves them related. -/
def Coupled (R : Machine → Machine → Prop) (x : Action α) : Prop :=
  ∀ m m', R m m' → Same R (x m) (x m')

theorem Coupled.bind {R : Machine → Machine → Prop} {x : Action α} {f : α → Action β}
    (hx : Coupled R x) (hf : ∀ a, Coupled R (f a)) : Coupled R (x >>= f) := by
  intro m m' h
  change Same R (EStateM.bind x f m) (EStateM.bind x f m')
  have hxm := hx m m' h
  simp only [EStateM.bind]
  generalize x m = r at hxm ⊢
  generalize x m' = r' at hxm ⊢
  cases hxm with
  | ok a hn => exact hf a _ _ hn
  | error e hn => exact .error e hn

/-- The two machines differ in the values of variables at most, and in none of those in `A`.
-/
structure Beside (A : Nat → Prop) (m m' : Machine) : Prop where
  counter : m.counter = m'.counter
  stack : m.stack = m'.stack
  sink : m.sink = m'.sink
  fault : m.fault = m'.fault
  store : m.store.Matches A m'.store

variable {A : Nat → Prop}

theorem coupled_throw (e : RunError) : Coupled (Beside A) (throw e : Action α) :=
  fun _ _ h => .error e h

theorem coupled_onStack (x : Stack.Take α) : Coupled (Beside A) (onStack x) := by
  intro m m' h
  simp only [onStack, ← h.stack]
  cases x m.stack with
  | ok a s => exact .ok a ⟨h.counter, rfl, h.sink, h.fault, h.store⟩
  | error e s => exact .error e ⟨h.counter, rfl, h.sink, h.fault, h.store⟩

theorem coupled_push (x : Operand) : Coupled (Beside A) (push x) := by
  intro m m' h
  simp only [push, h.stack]
  exact .ok () ⟨h.counter, rfl, h.sink, h.fault, h.store⟩

theorem coupled_following : Coupled (Beside A) following := by
  intro m m' h
  simp only [following, h.counter]
  exact .ok _ h

theorem coupled_landing (p : Program) (t : Option Nat) : Coupled (Beside A) (landing p t) := by
  cases t with
  | none => exact coupled_throw _
  | some t =>
      rw [landing]
      by_cases ht : t < p.size
      · rw [if_pos ht]
        exact fun _ _ h => .ok t h
      · rw [if_neg ht]
        exact coupled_throw _

theorem coupled_printLine (text : String) : Coupled (Beside A) (printLine text) := by
  intro m m' h
  simp only [printLine, ← h.sink]
  by_cases hfits : m.sink.fits (text ++ "\n").toUTF8 = true
  · rw [if_pos hfits, if_pos hfits]
    exact .ok () ⟨h.counter, h.stack, rfl, h.fault, h.store⟩
  · rw [if_neg hfits, if_neg hfits]
    exact .error _ ⟨h.counter, h.stack, rfl, h.fault, h.store⟩

/-- Fetching a variable on which the machines agree. -/
theorem coupled_fetch {x : Nat} (hx : A x) : Coupled (Beside A) (fetch x) := by
  intro m m' h
  have hget : m.store.slots.get? x = m'.store.slots.get? x := h.store.get?_eq hx
  simp only [fetch, Store.get, Chain.get, hget, h.store.size_eq]
  cases m'.store.slots.get? x with
  | none => exact .error _ h
  | some y => exact .ok y h

theorem coupled_assign (x : Nat) (v : Value) : Coupled (Beside A) (assign x v) := by
  -- The machines may disagree on the value that is fetched here, but not on its kind.
  intro m m' h
  simp only [assign, bind, EStateM.bind, fetch, Store.get, Chain.get]
  cases hx : m.store.slots.get? x with
  | none =>
      have hx' : m'.store.slots.get? x = none := by
        rw [Chain.get?_eq_none_iff, ← h.store.size_eq, ← Chain.get?_eq_none_iff, hx]
      simp only [hx', h.store.size_eq]
      exact .error _ h
  | some y =>
      obtain ⟨z, hz, -, hkind⟩ := Store.exists_of_declarations_eq h.store.declarations.symm hx
      simp only [show m'.store.slots.get? x = some z from hz, hkind]
      by_cases hfits : v.kind = y.kind.toKind
      · simp only [if_pos hfits]
        exact .ok () ⟨h.counter, h.stack, h.sink, h.fault, h.store.write x v⟩
      · simp only [if_neg hfits]
        exact .error _ h

/-- An operation does the same on machines that agree on the variable it reads. -/
theorem coupled_execute (p : Program) (op : Operation) (hop : ∀ kind x, op = .read kind x → A x) :
    Coupled (Beside A) (execute p op) := by
  cases op with
  | declare | otherwise | loop | close => exact coupled_following
  | assign =>
      exact (coupled_onStack _).bind fun v => (coupled_onStack _).bind fun x =>
        (coupled_assign x v).bind fun _ => coupled_following
  | print =>
      exact (coupled_onStack _).bind fun v => (coupled_printLine v.text).bind fun _ =>
        coupled_following
  | branch t =>
      refine (coupled_onStack _).bind fun b => ?_
      cases b with
      | true => exact coupled_following
      | false => exact coupled_landing p t
  | jump t => exact coupled_landing p t
  | target x => exact (coupled_push _).bind fun _ => coupled_following
  | read kind x =>
      exact (coupled_fetch (hop kind x rfl)).bind fun y => (coupled_push _).bind fun _ =>
        coupled_following
  | constant v => exact (coupled_push _).bind fun _ => coupled_following
  | operator op =>
      exact (coupled_onStack _).bind fun v => (coupled_push _).bind fun _ => coupled_following

end Coupled

section Lockstep

variable {A : Nat → Prop} {p : Program} {m m' : Machine}

theorem Beside.current?_eq (h : Beside A m m') : m.current? p = m'.current? p := by
  rw [current?, current?, h.fault, h.counter]

theorem Beside.step (hA : ∀ x ∈ p.reads, A x)
    (h : Beside A m m') : Beside A (m.step p) (m'.step p) := by
  rw [Machine.step, Machine.step, ← h.current?_eq]
  cases hcurrent : m.current? p with
  | none => exact h
  | some i =>
      have hsame := coupled_execute p i.op
        (fun kind x hop => hA x (Program.mem_reads (get?_of_current? hcurrent) hop)) m m' h
      simp only
      generalize execute p i.op m = r at hsame ⊢
      generalize execute p i.op m' = r' at hsame ⊢
      cases hsame with
      | ok next hn => exact ⟨rfl, hn.stack, hn.sink, hn.fault, hn.store⟩
      | error e hn => exact ⟨hn.counter, hn.stack, hn.sink, rfl, hn.store⟩

theorem Beside.run (hA : ∀ x ∈ p.reads, A x)
    (h : Beside A m m') (n : Nat) : Beside A (m.run p n) (m'.run p n) := by
  induction n with
  | zero => exact h
  | succ n ih =>
      rw [run_succ_last, run_succ_last]
      exact ih.step hA

/-- The next step gives the variable at `x` a value. -/
def Assigns (p : Program) (m : Machine) (x : Nat) : Prop :=
  ∃ pos v rest, m.current? p = some ⟨pos, .assign⟩ ∧ m.stack = .value v :: .target x :: rest ∧
    (m.step p).fault = none

theorem value?_step_of_assign {x : Nat} {pos : Position} {v : Value} {rest : Stack}
    (hcurrent : m.current? p = some ⟨pos, .assign⟩)
    (hstack : m.stack = .value v :: .target x :: rest) (hfault : (m.step p).fault = none) :
    (m.step p).store.value? x = some v := by
  rcases step_assign_cases hcurrent with ⟨e, stack, hstep⟩ | ⟨w, z, y, rest', hstack', hy, -, hstep⟩
  · rw [hstep] at hfault
    cases hfault
  · rw [hstack] at hstack'
    cases hstack'
    rw [hstep]
    exact Store.value?_write_self hy v

/-- Machines that are side by side agree on a variable that both assign. -/
theorem Beside.value?_step (hA : ∀ x ∈ p.reads, A x)
    (h : Beside A m m') {x : Nat} (hx : m.Assigns p x) :
    (m.step p).store.value? x = (m'.step p).store.value? x := by
  obtain ⟨pos, v, rest, hcurrent, hstack, hfault⟩ := hx
  rw [value?_step_of_assign hcurrent hstack hfault,
    value?_step_of_assign (h.current?_eq ▸ hcurrent) (h.stack ▸ hstack)
      ((h.step hA).fault ▸ hfault)]

end Lockstep

section Spares

variable {x : Nat}

/-- The computation puts no operand on the stack that names the variable at `x`. -/
def Spares (x : Nat) (a : Action α) : Prop :=
  Respects (fun m m' : Machine => .target x ∈ m'.stack → .target x ∈ m.stack) a

theorem Spares.bind {a : Action α} {f : α → Action β} (ha : Spares x a) (hf : ∀ b, Spares x (f b)) :
    Spares x (a >>= f) :=
  Respects.bind (fun h h' hx => h (h' hx)) ha hf

theorem spares_throw (e : RunError) : Spares x (throw e : Action α) := fun _ => id

theorem spares_onStack {a : Stack.Take α} (ha : Stack.Sheds a) : Spares x (onStack a) := by
  intro m
  have hsheds := ha m.stack
  simp only [onStack]
  cases hresult : a m.stack with
  | ok b s =>
      rw [hresult] at hsheds
      exact fun hx => hsheds.subset hx
  | error e s =>
      rw [hresult] at hsheds
      exact fun hx => hsheds.subset hx

theorem spares_push {y : Operand} (hy : y ≠ .target x) : Spares x (push y) :=
  fun _ hx => (List.mem_cons.mp hx).resolve_left (Ne.symm hy)

theorem spares_following : Spares x following := fun _ => id

theorem spares_fetch (y : Nat) : Spares x (fetch y) := by
  intro m
  simp only [fetch]
  cases m.store.get y with
  | ok z => exact id
  | error e => exact id

theorem spares_landing (p : Program) (t : Option Nat) : Spares x (landing p t) := by
  cases t with
  | none => exact spares_throw _
  | some t =>
      rw [landing]
      by_cases ht : t < p.size
      · rw [if_pos ht]
        exact fun _ => id
      · rw [if_neg ht]
        exact spares_throw _

theorem spares_printLine (text : String) : Spares x (printLine text) := by
  intro m
  simp only [printLine]
  by_cases hfits : m.sink.fits (text ++ "\n").toUTF8 = true
  · rw [if_pos hfits]
    exact id
  · rw [if_neg hfits]
    exact id

theorem spares_assign (y : Nat) (v : Value) : Spares x (assign y v) := by
  refine (spares_fetch y).bind fun z => ?_
  by_cases hkind : v.kind = z.kind.toKind
  · rw [if_pos hkind]
    exact fun _ => id
  · rw [if_neg hkind]
    exact spares_throw _

/-- Only the instruction for it puts a variable on the stack. -/
theorem spares_execute (p : Program) {op : Operation} (hop : op ≠ .target x) :
    Spares x (execute p op) := by
  have hvalue (v : Value) : Spares x (push (.value v)) := spares_push (by simp)
  cases op with
  | declare | otherwise | loop | close => exact spares_following
  | assign =>
      exact (spares_onStack Stack.sheds_takeValue).bind fun v =>
        (spares_onStack Stack.sheds_takeTarget).bind fun y => (spares_assign y v).bind fun _ =>
          spares_following
  | print =>
      exact (spares_onStack Stack.sheds_takeValue).bind fun v =>
        (spares_printLine v.text).bind fun _ => spares_following
  | branch t =>
      refine (spares_onStack Stack.sheds_takeBoolean).bind fun b => ?_
      cases b with
      | true => exact spares_following
      | false => exact spares_landing p t
  | jump t => exact spares_landing p t
  | target y =>
      refine (spares_push ?_).bind fun _ => spares_following
      rintro ⟨⟩
      exact hop rfl
  | read kind y =>
      exact (spares_fetch y).bind fun z => (hvalue z.value).bind fun _ => spares_following
  | constant v => exact (hvalue v).bind fun _ => spares_following
  | operator op =>
      exact (spares_onStack (Stack.sheds_operate op)).bind fun v => (hvalue v).bind fun _ =>
        spares_following

variable {p : Program} {m : Machine}

theorem not_mem_stack_step (hx : x ∉ p.targets)
    (hm : .target x ∉ m.stack) : .target x ∉ (m.step p).stack := by
  rcases step_cases p m with ⟨-, hstep⟩ | ⟨i, hcurrent, hstep⟩
  · rwa [hstep]
  · have hop : i.op ≠ .target x := fun hop =>
      hx (Program.mem_targets (get?_of_current? hcurrent) hop)
    have hspares := spares_execute p hop m
    rcases hstep with ⟨next, m', hexecute, hstep⟩ | ⟨e, m', hexecute, hstep⟩
    · rw [hexecute] at hspares
      rw [hstep]
      exact fun hmem => hm (hspares hmem)
    · rw [hexecute] at hspares
      rw [hstep]
      exact fun hmem => hm (hspares hmem)

/-- A variable that does not wait on the stack keeps its value. -/
theorem value?_step_of_not_mem (hm : .target x ∉ m.stack) :
    (m.step p).store.value? x = m.store.value? x := by
  rcases store_step_cases p m with hsame | ⟨pos, v, y, z, rest, -, hstack, -, hstep⟩
  · rw [hsame]
  · rw [hstep]
    refine Store.value?_write_of_ne ?_ v
    rintro rfl
    exact hm (by simp [hstack])

/-- A variable that no instruction names as a target keeps its value for ever. -/
theorem value?_run_of_no_target (hx : x ∉ p.targets)
    (hm : .target x ∉ m.stack) (n : Nat) :
    .target x ∉ (m.run p n).stack ∧ (m.run p n).store.value? x = m.store.value? x := by
  induction n with
  | zero => exact ⟨hm, rfl⟩
  | succ n ih =>
      rw [run_succ_last]
      exact ⟨not_mem_stack_step hx ih.1, (value?_step_of_not_mem ih.1).trans ih.2⟩

end Spares

end Machine

namespace Program

/-- What two runs of a program have in common, from the stores `σ` and `τ`. -/
structure Indifferent (p : Program) (limit : Option Nat) (σ τ : Store) : Prop where
  /-- They are at the same instruction at all times, with the same operands, the same output
  and the same fault. -/
  abreast : ∀ n,
    ((Machine.start σ limit).run p n).counter = ((Machine.start τ limit).run p n).counter ∧
    ((Machine.start σ limit).run p n).stack = ((Machine.start τ limit).run p n).stack ∧
    ((Machine.start σ limit).run p n).sink = ((Machine.start τ limit).run p n).sink ∧
    ((Machine.start σ limit).run p n).fault = ((Machine.start τ limit).run p n).fault
  /-- Where the variables agreed at the start, they agree for ever. -/
  kept : ∀ n x, σ.value? x = τ.value? x →
    ((Machine.start σ limit).run p n).store.value? x =
      ((Machine.start τ limit).run p n).store.value? x
  /-- Where a variable has been assigned, it agrees from then on. -/
  assigned : ∀ k n x, k < n → ((Machine.start σ limit).run p k).Assigns p x →
    ((Machine.start σ limit).run p n).store.value? x =
      ((Machine.start τ limit).run p n).store.value? x
  /-- A variable that no instruction names as a target keeps its value. -/
  untouched : ∀ x, x ∉ p.targets → ∀ n,
    ((Machine.start σ limit).run p n).store.value? x = σ.value? x ∧
    ((Machine.start τ limit).run p n).store.value? x = τ.value? x

/-- Variables that a program does not read have no influence on its runs. -/
theorem indifferent_of_reads (p : Program) (limit : Option Nat) (σ τ : Store)
    (hsame : σ.declarations = τ.declarations)
    (hread : ∀ x ∈ p.reads, σ.value? x = τ.value? x) : p.Indifferent limit σ τ := by
  have hstart : Machine.Beside (fun x => σ.value? x = τ.value? x) (Machine.start σ limit)
      (Machine.start τ limit) := ⟨rfl, rfl, rfl, rfl, hsame, fun _ hx => hx⟩
  have hbeside (n : Nat) : Machine.Beside (fun x => σ.value? x = τ.value? x)
      ((Machine.start σ limit).run p n) ((Machine.start τ limit).run p n) := hstart.run hread n
  refine ⟨fun n => ⟨(hbeside n).counter, (hbeside n).stack, (hbeside n).sink, (hbeside n).fault⟩,
    fun n x hx => (hbeside n).store.values x hx, ?_, ?_⟩
  · intro k n x hkn hassigns
    -- From the step that assigns on, the variable is one of those that agree at the start.
    obtain ⟨j, rfl⟩ := Nat.exists_eq_add_of_lt hkn
    have hafter : Machine.Beside (fun z => z = x ∨ σ.value? z = τ.value? z)
        ((Machine.start σ limit).run p (k + 1)) ((Machine.start τ limit).run p (k + 1)) := by
      have hnext := hbeside (k + 1)
      refine ⟨hnext.counter, hnext.stack, hnext.sink, hnext.fault, hnext.store.declarations, ?_⟩
      rintro z (rfl | hz)
      · rw [Machine.run_succ_last, Machine.run_succ_last]
        exact (hbeside k).value?_step hread hassigns
      · exact hnext.store.values z hz
    have hlater := hafter.run (fun z hz => .inr (hread z hz)) j
    rw [← Machine.run_add, ← Machine.run_add, Nat.add_right_comm] at hlater
    exact hlater.store.values x (.inl rfl)
  · intro x hx n
    have hempty (υ : Store) : .target x ∉ (Machine.start υ limit).stack := List.not_mem_nil
    exact ⟨(Machine.value?_run_of_no_target hx (hempty σ) n).2,
      (Machine.value?_run_of_no_target hx (hempty τ) n).2⟩

/-- Two variables, of which the second is assigned and never read. -/
def halfRead : List (Located Event) :=
  [⟨⟨1, 9⟩, .declare .integer "seen"⟩, ⟨⟨2, 9⟩, .declare .integer "blind"⟩,
    ⟨⟨3, 1⟩, .target "blind"⟩, ⟨⟨3, 10⟩, .read "seen"⟩, ⟨⟨3, 17⟩, .integer "1"⟩,
    ⟨⟨3, 15⟩, .operator "+"⟩, ⟨⟨3, 7⟩, .assign⟩, ⟨⟨4, 7⟩, .read "seen"⟩, ⟨⟨4, 1⟩, .print⟩]

theorem indifferent_of_reads_halfRead :
    ∃ p, (halfRead.foldl Draft.absorb Draft.empty).finish = .ok p ∧
      (p.store.write 1 (.integer 5)).value? 1 ≠ (p.store.write 1 (.integer 7)).value? 1 ∧
      p.Indifferent (some 3) (p.store.write 1 (.integer 5)) (p.store.write 1 (.integer 7)) := by
  obtain ⟨p, hp⟩ : ∃ p, (halfRead.foldl Draft.absorb Draft.empty).finish = .ok p :=
    ⟨_, (Draft.finish_eq_ok_iff _ _).mpr ⟨by decide +kernel, rfl⟩⟩
  obtain ⟨-, rfl⟩ := (Draft.finish_eq_ok_iff _ _).mp hp
  refine ⟨_, hp, by decide +kernel, indifferent_of_reads _ _ _ _ ?_ (by decide +kernel)⟩
  rw [Store.declarations_write, Store.declarations_write]

end Program

end StackLang
