import StackLang.Proofs.Tree.Basic

/-!
# Which variables are assigned

A listing shows a variable that is assigned and one that is read in the same way. Which of the
two it is follows from the operations around it. The code of a statement has its operands in
runs: an expression, or the variable to be assigned and an expression behind it, and then an
operation that is no operand. So a variable is assigned if it comes first in a run that an
assignment ends, and is read otherwise. `restore` goes by that rule, and gives back the code
of every tree.
-/

namespace StackLang

/-- The kind of the variable at an index. -/
def Store.kindAt (σ : Store) (x : Nat) : VariableKind :=
  ((σ.get? x).map Variable.kind).getD .integer

namespace Operation

/-- The operation as far as it does not matter whether a variable is assigned or read. -/
def blur : Operation → Operation
  | .read _ x => .target x
  | op => op

/-- Whether the operation belongs to a run of operands. -/
def isOperand : Operation → Bool
  | .target _ | .read _ _ | .constant _ | .operator _ => true
  | _ => false

@[simp] theorem isOperand_blur (op : Operation) : op.blur.isOperand = op.isOperand := by
  cases op <;> rfl

/-- Whether the run of operands at the front is ended by an assignment. -/
def assigned (ops : List Operation) : Bool := ops.find? (fun op => !op.isOperand) = some .assign

/-- Decides what a variable is there for. -/
def clear (σ : Store) (first : Bool) : Operation → Operation
  | .target x => if first then .target x else .read (σ.kindAt x) x
  | op => op

/-- Decides what the variables are there for; `start` says whether a run can start at the
front. -/
def restore (σ : Store) (start : Bool) : List Operation → List Operation
  | [] => []
  | op :: ops => op.clear σ (start && assigned ops) :: restore σ (!op.isOperand) ops

/-- An operand that assigns nothing, with the kind that its variable has. -/
def Sound (σ : Store) (op : Operation) : Prop :=
  op.isOperand = true ∧ op.blur.clear σ false = op

section Runs

variable {σ : Store} {ops : List Operation}

/-- What is no operand stays and ends the run. -/
theorem restore_cons_of_not_operand {op : Operation} (h : op.isOperand = false) (start : Bool)
    (rest : List Operation) : restore σ start (op.blur :: rest) = op :: restore σ true rest := by
  cases op with
  | target | read | constant | operator => cases h
  | _ => rfl

theorem assigned_cons_of_not_operand {op : Operation} (h : op.isOperand = false)
    (rest : List Operation) : assigned (op.blur :: rest) = decide (op = .assign) := by
  cases op with
  | target | read | constant | operator => cases h
  | _ => simp [assigned, isOperand, blur]

theorem assigned_append (h : ∀ op ∈ ops, op.Sound σ) (rest : List Operation) :
    assigned (ops.map blur ++ rest) = assigned rest := by
  have hnone : (ops.map blur).find? (fun op => !op.isOperand) = none := by
    simpa using fun op hop => (h op hop).1
  rw [assigned, assigned, List.find?_append, hnone, Option.none_or]

/-- Inside of a run everything is read. -/
theorem restore_inside (h : ∀ op ∈ ops, op.Sound σ) (rest : List Operation) :
    restore σ false (ops.map blur ++ rest) = ops ++ restore σ false rest := by
  induction ops with
  | nil => rfl
  | cons op ops ih =>
      obtain ⟨hop, hops⟩ := List.forall_mem_cons.mp h
      rw [List.map_cons, List.cons_append, restore, isOperand_blur, Bool.false_and, hop.1, hop.2,
        Bool.not_true, ih hops, List.cons_append]

/-- Where a run can start, the operations are given back, and a run can start behind them. -/
def Restores (σ : Store) (ops : List Operation) : Prop :=
  ∀ rest, restore σ true (ops.map blur ++ rest) = ops ++ restore σ true rest

theorem Restores.nil : Restores σ [] := fun _ => rfl

theorem Restores.append {more : List Operation} (h : Restores σ ops) (h' : Restores σ more) :
    Restores σ (ops ++ more) := by
  intro rest
  rw [List.map_append, List.append_assoc, h, h', List.append_assoc]

theorem Restores.cons (h : Restores σ ops) (op : Operation) (hop : op.isOperand = false) :
    Restores σ (op :: ops) := by
  intro rest
  rw [List.map_cons, List.cons_append, restore_cons_of_not_operand hop, h, List.cons_append]

/-- A run that no assignment ends. -/
theorem restores_run (op : Operation) (hne : ops ≠ []) (h : ∀ op ∈ ops, op.Sound σ)
    (hop : op.isOperand = false) (hassign : op ≠ .assign) : Restores σ (ops ++ [op]) := by
  intro rest
  -- Only the first operand could be assigned.
  obtain ⟨first, ops, rfl⟩ := List.exists_cons_of_ne_nil hne
  obtain ⟨hfirst, hops⟩ := List.forall_mem_cons.mp h
  have hassigned : assigned (ops.map blur ++ op.blur :: rest) = false := by
    rw [assigned_append hops, assigned_cons_of_not_operand hop, decide_eq_false hassign]
  have hrest := restore_inside hops (op.blur :: rest)
  rw [restore_cons_of_not_operand hop] at hrest
  simp [restore, hassigned, hfirst.1, hfirst.2, hrest]

/-- A run that an assignment ends. -/
theorem restores_assignment (x : Nat) (h : ∀ op ∈ ops, op.Sound σ) :
    Restores σ (.target x :: (ops ++ [.assign])) := by
  intro rest
  have hassigned : assigned (ops.map blur ++ .assign :: rest) = true := assigned_append h _
  have hrest := restore_inside h (.assign :: rest)
  simp only [List.map_cons, List.map_append, List.map_nil, List.cons_append, List.append_assoc,
    List.nil_append, blur, restore, hassigned, clear, isOperand] at hrest ⊢
  simpa using hrest

end Runs

end Operation

namespace Tree

open Operation

/-- The operations of an expression. -/
def Expression.operations (σ : Store) (e : Expression) : List Operation :=
  e.plains.map fun p => p.event.operation σ

theorem Expression.operations_ne_nil (σ : Store) (e : Expression) : e.operations σ ≠ [] := by
  induction e with
  | group inner ih => exact ih
  | _ => simp [operations, plains]

theorem Expression.sound_plains (σ : Store) (e : Expression) :
    ∀ p ∈ e.plains, (p.event.operation σ).Sound σ := by
  have hoperator (op : Operator) : (Event.operation σ (.operator op.symbol)).Sound σ := ⟨rfl, rfl⟩
  induction e with
  | read name | integer numeral | string text => simpa [plains] using ⟨rfl, rfl⟩
  | group inner ih => exact ih
  | unary op operand ih => simpa [plains, or_imp, forall_and, hoperator] using ih
  | binary op left right ihl ihr =>
      simpa [plains, or_imp, forall_and, hoperator] using ⟨ihl, ihr⟩

theorem Expression.sound_operations (σ : Store) (e : Expression) :
    ∀ op ∈ e.operations σ, op.Sound σ :=
  List.forall_mem_map.mpr (e.sound_plains σ)

/-- An expression and an operation behind it that is neither an operand nor an assignment. -/
theorem Expression.restores (σ : Store) (e : Expression) (op : Operation)
    (hop : op.isOperand = false) (hassign : op ≠ .assign) :
    Restores σ (e.operations σ ++ [op]) :=
  restores_run op (e.operations_ne_nil σ) (e.sound_operations σ) hop hassign

@[simp] theorem Expression.map_op_plains (σ : Store) (e : Expression) :
    e.plains.map (Instruction.op ∘ Plain.instruction σ) = e.operations σ := rfl

namespace Statement

variable (σ : Store)

mutual

/-- The code of a statement is given back. -/
theorem restores : ∀ (t : Statement) (base : Nat),
    Restores σ ((Nest.codeAll σ base t.nests).map Instruction.op)
  | .declare kind name, base => Restores.nil.cons _ rfl
  | .assign name pos value, base => by
      have hassignment := restores_assignment (σ.indexOf name.item) (value.sound_operations σ)
      simpa [nests, Nest.codeAll, Nest.code, Nest.codeAll_append, Plain.instruction,
        Event.operation] using hassignment
  | .print pos value, base => by
      have hrun := value.restores σ .print rfl (by simp)
      simpa [nests, Nest.codeAll, Nest.code, Nest.codeAll_append, Plain.instruction,
        Event.operation] using hrun
  | .branch pos condition body tail, base => by
      have hcondition (t : Nat) := condition.restores σ (.branch (some t)) rfl (by simp)
      have hbody (base : Nat) := (restoresAll body base).append (.cons .nil .close rfl)
      have hall (t base : Nat) := (hcondition t).append (hbody base)
      simpa [nests, Nest.codeAll, Nest.code, Nest.codeAll_append] using hall _ _
  | .choice pos condition body middle other tail, base => by
      have hcondition (t : Nat) := condition.restores σ (.branch (some t)) rfl (by simp)
      have hother (base : Nat) := (restoresAll other base).append (.cons .nil .close rfl)
      have hall (t t' base base' : Nat) := (hcondition t).append
        ((restoresAll body base).append
          (((hother base').cons .otherwise rfl).cons (.jump (some t')) rfl))
      simpa [nests, Nest.codeAll, Nest.code, Nest.codeAll_append] using hall _ _ _ _
  | .loop pos condition body tail, base => by
      have hcondition (t : Nat) := condition.restores σ (.branch (some t)) rfl (by simp)
      have hbody (entry : Nat) := (restoresAll body entry).append
        (.cons (.cons .nil .close rfl) (.jump (some base)) rfl)
      have hall (t entry : Nat) := ((hcondition t).append (hbody entry)).cons (.loop none) rfl
      simpa [nests, Nest.codeAll, Nest.code] using hall _ _

theorem restoresAll : ∀ (ts : List Statement) (base : Nat),
    Restores σ ((Nest.codeAll σ base (nestsAll ts)).map Instruction.op)
  | [], _ => .nil
  | t :: ts, base => by
      rw [nestsAll, Nest.codeAll_append, List.map_append]
      exact (restores t base).append (restoresAll ts _)

end

end Statement

end Tree

end StackLang
