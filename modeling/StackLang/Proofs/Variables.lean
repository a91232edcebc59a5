import StackLang.Proofs.Draft.Jumps
import StackLang.Proofs.Machine.Effect
import StackLang.Proofs.Tree.Scope

/-!
# Variables stay what they are declared as

A program need not come from a text. Events in any order make programs that find operands
missing, values where a variable should wait, and kinds that do not fit. In all of their
runs the variables keep their names, their order and their kinds, and every value is of the
kind of its variable: what is assigned is checked, and what a program reads is declared with
the kind that the instruction has. A step that fails leaves all variables alone, and any
other step changes one at most.
-/

namespace StackLang

namespace Store

/-- Every variable has a value of its kind. -/
def Fitting (σ : Store) : Prop := ∀ i x, σ.get? i = some x → x.value.kind = x.kind.toKind

theorem fitting_empty : empty.Fitting := by
  intro i x hx
  cases hx

theorem Fitting.add {σ : Store} (h : σ.Fitting) (name : String) (kind : VariableKind) :
    (σ.add name kind).Fitting := by
  intro i x hx
  rw [get?_add] at hx
  split at hx
  · obtain rfl := Option.some.inj hx
    exact Value.kind_default kind
  · exact h i x hx

theorem getElem?_declarations (σ : Store) (i : Nat) :
    σ.declarations[i]? = (σ.get? i).map fun x => (x.name, x.kind) := by
  rw [declarations, List.getElem?_map, get?_eq_getElem?]

/-- Stores with the same declarations have variables of the same kinds. -/
theorem exists_of_declarations_eq {σ τ : Store} (h : σ.declarations = τ.declarations) {i : Nat}
    {x : Variable} (hx : τ.get? i = some x) :
    ∃ y, σ.get? i = some y ∧ y.name = x.name ∧ y.kind = x.kind := by
  have hi := σ.getElem?_declarations i
  rw [h, getElem?_declarations, hx, Option.map_some] at hi
  obtain ⟨y, hy, hsame⟩ := Option.map_eq_some_iff.mp hi.symm
  exact ⟨y, hy, congrArg Prod.fst hsame, congrArg Prod.snd hsame⟩

namespace Revises

variable {σ τ : Store}

theorem declarations_eq (h : σ.Revises τ) : τ.declarations = σ.declarations := by
  apply List.ext_getElem?
  intro i
  rw [getElem?_declarations, getElem?_declarations]
  rcases h i with hsame | ⟨x, v, hx, hv, -⟩
  · rw [hsame]
  · rw [hx, hv]
    rfl

theorem fitting (h : σ.Revises τ) (hσ : σ.Fitting) : τ.Fitting := by
  intro i y hy
  rcases h i with hsame | ⟨x, v, -, hv, hkind⟩
  · exact hσ i y (hsame ▸ hy)
  · obtain rfl := Option.some.inj (hv.symm.trans hy)
    exact hkind

end Revises

end Store

/-- The values that variables are declared with are of their kinds. -/
theorem Draft.fitting_foldl_absorb (es : List (Located Event)) :
    (es.foldl absorb empty).store.Fitting := by
  refine foldl_absorb_induction (P := fun d => d.store.Fitting) ?_ es empty Store.fitting_empty
  intro d d' e hd hchanges
  cases hchanges with
  | plain e σ hσ =>
      obtain rfl | ⟨kind, name, -, -, rfl⟩ := Store.after?_cases _ σ _ hσ
      · exact hd
      · exact hd.add name kind
  | branch | loop | otherwise | close | closeLoop => exact hd

namespace Machine

variable {p : Program} {m : Machine}

/-- A step leaves the variables alone, or it is an assignment and writes the variable that
waits below the value on the stack. -/
theorem store_step_cases (p : Program) (m : Machine) :
    (m.step p).store = m.store ∨
      ∃ pos v x y rest, m.current? p = some ⟨pos, .assign⟩ ∧
        m.stack = .value v :: .target x :: rest ∧ m.store.get? x = some y ∧
        m.step p =
          { m with counter := m.counter + 1, stack := rest, store := m.store.write x v } := by
  cases hcurrent : m.current? p with
  | none =>
      rw [step_of_current?_eq_none p m hcurrent]
      exact .inl rfl
  | some i =>
      by_cases hop : i.op = .assign
      · obtain ⟨pos, op⟩ := i
        obtain rfl : op = .assign := hop
        rcases step_assign_cases hcurrent with ⟨e, stack, hstep⟩ | ⟨v, x, y, rest, hstack, hy, -, hstep⟩
        · rw [hstep]
          exact .inl rfl
        · exact .inr ⟨pos, v, x, y, rest, rfl, hstack, hy, hstep⟩
      · exact .inl (store_step_of_ne_assign hcurrent hop)

/-- A step that fails leaves the variables alone. -/
theorem store_step_of_fault (h : (m.step p).fault ≠ m.fault) : (m.step p).store = m.store := by
  rcases store_step_cases p m with hsame | ⟨pos, v, x, y, rest, -, -, -, hstep⟩
  · exact hsame
  · rw [hstep] at h
    exact absurd rfl h

/-- Reading a variable that is there pushes its value. -/
theorem step_read_of_get? {i : Instruction} {kind : VariableKind} {x : Nat} {y : Variable}
    (hcurrent : m.current? p = some i) (hop : i.op = .read kind x) (hy : m.store.get? x = some y) :
    m.step p = { m with counter := m.counter + 1, stack := .value y.value :: m.stack } := by
  have hget : m.store.get x = .ok y := by
    rw [Store.get, Chain.get, show m.store.slots.get? x = some y from hy]
  have hfetch : fetch x m = .ok y m := by simp only [fetch, hget]
  refine step_of_execute_ok { m with stack := .value y.value :: m.stack } hcurrent ?_
  rw [hop]
  simp only [execute, bind, EStateM.bind, hfetch]
  rfl

end Machine

namespace Program

/-- What the run of a program from `m` does to the variables, at any time. -/
structure KeepsVariables (p : Program) (m : Machine) : Prop where
  /-- They are the variables of the program, in the same order. -/
  declarations : ∀ n, (m.run p n).store.declarations = p.store.declarations
  /-- Each has a value of its kind, and so no boolean. -/
  fitting : ∀ n i x, (m.run p n).store.get? i = some x →
    x.value.kind = x.kind.toKind ∧ ∀ b, x.value ≠ .boolean b
  /-- What is read is of the kind that the instruction has. -/
  read : ∀ n i kind x, (m.run p n).current? p = some i → i.op = .read kind x →
    ∃ y, (m.run p n).store.get? x = some y ∧ y.value.kind = i.kind ∧
      m.run p (n + 1) =
        { m.run p n with
          counter := (m.run p n).counter + 1
          stack := .value y.value :: (m.run p n).stack }
  /-- A step that fails changes no variable. -/
  faulted : ∀ n, (m.run p n).fault = none → (m.run p (n + 1)).fault ≠ none →
    (m.run p (n + 1)).store = (m.run p n).store
  /-- A variable that changes has waited below the value it gets, and no other changes. -/
  assigned : ∀ n x, (m.run p (n + 1)).store.get? x ≠ (m.run p n).store.get? x →
    ∃ pos v y rest, (m.run p n).current? p = some ⟨pos, .assign⟩ ∧
      (m.run p n).stack = .value v :: .target x :: rest ∧
      (m.run p n).store.get? x = some y ∧
      (m.run p (n + 1)).store.get? x = some { y with value := v } ∧
      ∀ z, z ≠ x → (m.run p (n + 1)).store.get? z = (m.run p n).store.get? z

theorem assigned_of_step (p : Program) (m : Machine) (x : Nat)
    (h : (m.step p).store.get? x ≠ m.store.get? x) :
    ∃ pos v y rest, m.current? p = some ⟨pos, .assign⟩ ∧
      m.stack = .value v :: .target x :: rest ∧ m.store.get? x = some y ∧
      (m.step p).store.get? x = some { y with value := v } ∧
      ∀ z, z ≠ x → (m.step p).store.get? z = m.store.get? z := by
  rcases Machine.store_step_cases p m with hsame | ⟨pos, v, x', y, rest, hcurrent, hstack, hy, hstep⟩
  · rw [hsame] at h
    exact absurd rfl h
  · have hstore (z : Nat) : (m.step p).store.get? z =
        if x' = z then (m.store.get? z).map fun y => { y with value := v } else m.store.get? z := by
      rw [hstep]
      exact m.store.get?_write x' v z
    obtain rfl : x' = x := by
      by_contra hne
      exact h (by rw [hstore x, if_neg hne])
    refine ⟨pos, v, y, rest, hcurrent, hstack, hy, ?_, fun z hz => ?_⟩
    · rw [hstore x', if_pos rfl, hy, Option.map_some]
    · rw [hstore z, if_neg (Ne.symm hz)]

/-- Whatever events a program is made from, its runs keep the variables as they are
declared. -/
theorem keepsVariables_of_finish (es : List (Located Event)) (p : Program)
    (h : (es.foldl Draft.absorb Draft.empty).finish = .ok p) (σ : Store)
    (hσ : σ.declarations = p.store.declarations) (hfitting : σ.Fitting) (limit : Option Nat) :
    p.KeepsVariables (Machine.start σ limit) := by
  have hrouted : p.Routed := (Draft.wired_foldl_absorb es).routed_of_finish p h
  have hrevises (n : Nat) : σ.Revises ((Machine.start σ limit).run p n).store :=
    Machine.revises_run p (Machine.start σ limit) n
  have hdeclared (n : Nat) :
      ((Machine.start σ limit).run p n).store.declarations = p.store.declarations :=
    (hrevises n).declarations_eq.trans hσ
  have hkinds (n i : Nat) (x : Variable)
      (hx : ((Machine.start σ limit).run p n).store.get? i = some x) :
      x.value.kind = x.kind.toKind :=
    (hrevises n).fitting hfitting i x hx
  refine ⟨hdeclared, ?_, ?_, ?_, ?_⟩
  · intro n i x hx
    refine ⟨hkinds n i x hx, fun b hb => ?_⟩
    have hkind := hkinds n i x hx
    rw [hb] at hkind
    cases hxkind : x.kind <;> rw [hxkind] at hkind <;> cases hkind
  · intro n i kind x hcurrent hop
    have hcode := Machine.get?_of_current? hcurrent
    obtain ⟨declared, hget, hkind⟩ := hrouted.named _ _ (Chain.op?_of_get? hcode) x (by rw [hop]; rfl)
    obtain ⟨y, hy, -, hsame⟩ := Store.exists_of_declarations_eq (hdeclared n) hget
    refine ⟨y, hy, ?_, ?_⟩
    · rw [hkinds n x y hy, hsame, Instruction.kind]
      refine (hkind.resolve_left ?_).symm
      rw [hop]
      cases kind <;> simp [Operation.kind, VariableKind.toKind]
    · rw [Machine.run_succ_last]
      exact Machine.step_read_of_get? hcurrent hop hy
  · intro n hfault hfailed
    rw [Machine.run_succ_last] at hfailed ⊢
    exact Machine.store_step_of_fault (by rwa [hfault])
  · intro n x hchanged
    rw [Machine.run_succ_last] at hchanged ⊢
    exact assigned_of_step p _ x hchanged

/-- Events that no text is read as: an end without a beginning, which is refused, then an
assignment, a value that nobody takes, and a number for a string. -/
def unkempt : List (Located Event) :=
  [⟨⟨1, 1⟩, .declare .integer "n"⟩, ⟨⟨1, 2⟩, .declare .string "s"⟩, ⟨⟨1, 3⟩, .close⟩,
    ⟨⟨1, 4⟩, .target "n"⟩, ⟨⟨1, 5⟩, .integer "7"⟩, ⟨⟨1, 6⟩, .assign⟩, ⟨⟨1, 7⟩, .read "s"⟩,
    ⟨⟨1, 8⟩, .target "s"⟩, ⟨⟨1, 9⟩, .read "n"⟩, ⟨⟨1, 10⟩, .assign⟩]

theorem keepsVariables_of_finish_unkempt :
    ∃ p, (unkempt.foldl Draft.absorb Draft.empty).finish = .ok p ∧ p.store.Fitting ∧
      p.KeepsVariables (Machine.start p.store none) := by
  obtain ⟨p, hp⟩ : ∃ p, (unkempt.foldl Draft.absorb Draft.empty).finish = .ok p :=
    ⟨_, (Draft.finish_eq_ok_iff _ _).mpr ⟨by decide +kernel, rfl⟩⟩
  have hfitting : p.store.Fitting := by
    obtain ⟨-, rfl⟩ := (Draft.finish_eq_ok_iff _ _).mp hp
    exact Draft.fitting_foldl_absorb unkempt
  exact ⟨p, hp, hfitting, keepsVariables_of_finish unkempt p hp p.store rfl hfitting none⟩

example : (unkempt.foldl Draft.absorb Draft.empty).finish.toOption.map (fun p =>
    let m := (Machine.start p.store none).run p 9
    (m.fault, m.store.slots.toList.map Variable.value)) =
      some (some ⟨⟨1, 10⟩, .typeMismatch (.kind .string) .integer⟩, [.integer 7, .string ""]) := by
  decide +kernel

end Program

end StackLang
