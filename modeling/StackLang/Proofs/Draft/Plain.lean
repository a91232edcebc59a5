import StackLang.Draft
import StackLang.Proofs.Store

/-!
# Plain events

A plain event belongs to no control construct. A draft takes it by appending one
instruction, and whether it takes it depends on the store alone. `Store.after?` is that
dependence: the store behind an event, or nothing if the event is refused. `operation τ`
reads the instruction off the event, with names looked up in a store `τ`; since stores
only grow, every later store gives the same.
-/

namespace StackLang

/-- Whether an event is part of a control construct. -/
def Event.isControl : Event → Bool
  | .branch | .otherwise | .loop | .close => true
  | _ => false

/-- Why an event is refused that is part of no control construct. -/
def Event.refusal? : Event → Option DraftError
  | .declare _ name => some (.duplicateDeclaration name)
  | .target name | .read name => some (.undeclaredVariable name)
  | .integer text => some (.invalidInteger text)
  | .operator spelling => some (.unknownOperator spelling)
  | _ => none

/-- An event outside of all control constructs, at a position. -/
structure Plain where
  pos : Position
  event : Event
  isPlain : event.isControl = false

def Plain.located (e : Plain) : Located Event := ⟨e.pos, e.event⟩

@[simp] theorem isControl_branch : Event.branch.isControl = true := rfl

@[simp] theorem isControl_otherwise : Event.otherwise.isControl = true := rfl

@[simp] theorem isControl_loop : Event.loop.isControl = true := rfl

@[simp] theorem isControl_close : Event.close.isControl = true := rfl

@[simp] theorem isControl_assign : Event.assign.isControl = false := rfl

@[simp] theorem isControl_print : Event.print.isControl = false := rfl

@[simp] theorem Plain.isControl_located (e : Plain) : e.located.item.isControl = false := e.isPlain

namespace Store

/-- The index that a name is found at. -/
def indexOf (σ : Store) (name : String) : Nat := (σ.find? name).getD 0

/-- The kind of the variable that a name is found at. -/
def kindOf (σ : Store) (name : String) : VariableKind :=
  ((σ.get? (σ.indexOf name)).map Variable.kind).getD .integer

/-- The store behind an event; `none` if the event is refused. -/
def after? (σ : Store) : Event → Option Store
  | .declare kind name => if σ.find? name = none then some (σ.add name kind) else none
  | .target name => if σ.find? name = none then none else some σ
  | .read name => if σ.find? name = none then none else some σ
  | .integer text => if Decimal.readInt64? text.toList = none then none else some σ
  | .operator spelling => if Operator.ofSymbol? spelling = none then none else some σ
  | _ => some σ

/-- The store behind plain events; `none` if one of them is refused. -/
def afterAll? (σ : Store) : List Plain → Option Store
  | [] => some σ
  | e :: es => (σ.after? e.event).bind fun τ => τ.afterAll? es

@[simp] theorem afterAll?_nil (σ : Store) : σ.afterAll? [] = some σ := rfl

theorem afterAll?_cons (σ : Store) (e : Plain) (es : List Plain) :
    σ.afterAll? (e :: es) = (σ.after? e.event).bind fun τ => τ.afterAll? es := rfl

theorem afterAll?_append (σ : Store) (es fs : List Plain) :
    σ.afterAll? (es ++ fs) = (σ.afterAll? es).bind fun τ => τ.afterAll? fs := by
  induction es generalizing σ with
  | nil => rfl
  | cons e es ih =>
      rw [List.cons_append, afterAll?_cons, afterAll?_cons]
      cases σ.after? e.event with
      | none => rfl
      | some τ => exact ih τ

theorem find?_add_self (σ : Store) (name : String) (kind : VariableKind)
    (h : σ.find? name = none) : (σ.add name kind).find? name = some σ.size := by
  rw [find?_eq_findIdx?] at h ⊢
  rw [toList_add, List.findIdx?_append, h]
  simp [size, Chain.size, Chain.toList]

/-- An event leaves the store as it is, unless it declares a new name. -/
theorem after?_cases (σ τ : Store) (e : Event) (h : σ.after? e = some τ) :
    τ = σ ∨ ∃ kind name, e = .declare kind name ∧ σ.find? name = none ∧ τ = σ.add name kind := by
  cases e with
  | declare kind name =>
      simp only [after?, Option.ite_none_right_eq_some, Option.some.injEq] at h
      exact .inr ⟨kind, name, rfl, h.1, h.2.symm⟩
  | target | read | integer | operator =>
      simp only [after?, Option.ite_none_left_eq_some, Option.some.injEq] at h
      exact .inl h.2.symm
  | string | assign | print | branch | otherwise | loop | close =>
      exact .inl (Option.some.inj h).symm

theorem within_of_after? (σ τ : Store) (e : Event) (h : σ.after? e = some τ) : σ.Within τ := by
  obtain rfl | ⟨kind, name, -, -, rfl⟩ := σ.after?_cases τ e h
  · exact Within.refl _
  · exact Within.add _ _ _

theorem within_of_afterAll? (σ τ : Store) (es : List Plain) (h : σ.afterAll? es = some τ) :
    σ.Within τ := by
  induction es generalizing σ with
  | nil =>
      obtain rfl := Option.some.inj h
      exact Within.refl _
  | cons e es ih =>
      obtain ⟨υ, hυ, hτ⟩ := Option.bind_eq_some_iff.mp h
      exact (within_of_after? σ υ e.event hυ).trans (ih υ hτ)

/-- Where events in a row are taken, there is a store between them. -/
theorem split_of_afterAll?_append (σ τ : Store) (es fs : List Plain)
    (h : σ.afterAll? (es ++ fs) = some τ) :
    ∃ υ, σ.afterAll? es = some υ ∧ υ.afterAll? fs = some τ ∧ υ.Within τ := by
  rw [afterAll?_append] at h
  obtain ⟨υ, hυ, hτ⟩ := Option.bind_eq_some_iff.mp h
  exact ⟨υ, hυ, hτ, within_of_afterAll? υ τ fs hτ⟩

theorem distinct_of_afterAll? (σ τ : Store) (es : List Plain) (hσ : σ.Distinct)
    (h : σ.afterAll? es = some τ) : τ.Distinct := by
  induction es generalizing σ with
  | nil =>
      obtain rfl := Option.some.inj h
      exact hσ
  | cons e es ih =>
      obtain ⟨υ, hυ, hτ⟩ := Option.bind_eq_some_iff.mp h
      obtain rfl | ⟨kind, name, -, hname, rfl⟩ := σ.after?_cases υ e.event hυ
      · exact ih υ hσ hτ
      · exact ih _ (hσ.add name kind hname) hτ

end Store

namespace Plain

/-- Some store refuses the event, for the given reason. -/
def Refused (e : Plain) (cause : DraftError) : Prop :=
  (∃ σ : Store, σ.after? e.event = none) ∧ e.event.refusal? = some cause

theorem Refused.ne_unbalanced {e : Plain} {cause : DraftError} (h : e.Refused cause)
    (i : Imbalance) : cause ≠ .unbalanced i := by
  rintro rfl
  have hrefusal := h.2
  cases hevent : e.event <;> simp [hevent, Event.refusal?] at hrefusal

end Plain

namespace Event

/-- The operation that a plain event stands for, with names looked up in `τ`. Where the
event would be refused, and for control events, the result means nothing. -/
def operation (τ : Store) : Event → Operation
  | .declare kind name => .declare kind (τ.indexOf name)
  | .target name => .target (τ.indexOf name)
  | .read name => .read (τ.kindOf name) (τ.indexOf name)
  | .integer text => .constant (.integer ((Decimal.readInt64? text.toList).getD 0))
  | .string text => .constant (.string text)
  | .operator spelling => .operator ((Operator.ofSymbol? spelling).getD .add)
  | .assign => .assign
  | .print => .print
  | .branch | .otherwise | .loop | .close => .close

end Event

def Plain.instruction (τ : Store) (e : Plain) : Instruction := ⟨e.pos, e.event.operation τ⟩

namespace Store

theorem indexOf_of_within (σ τ : Store) (h : σ.Within τ) (name : String) (i : Nat)
    (hi : σ.find? name = some i) : τ.indexOf name = i := by
  rw [indexOf, h.find? name i hi]
  rfl

theorem kindOf_of_within (σ τ : Store) (h : σ.Within τ) (name : String) (i : Nat) (x : Variable)
    (hi : σ.find? name = some i) (hx : σ.get? i = some x) : τ.kindOf name = x.kind := by
  rw [kindOf, indexOf_of_within σ τ h name i hi, h.get? i x hx]
  rfl

/-- A name that is found has a variable, of the kind that the name is known by. -/
theorem exists_variable_of_find? (σ : Store) (name : String) (h : σ.find? name ≠ none) :
    ∃ x, σ.get? (σ.indexOf name) = some x ∧ x.name = name ∧ x.kind = σ.kindOf name := by
  obtain ⟨i, hi⟩ := Option.ne_none_iff_exists'.mp h
  obtain ⟨x, hx, hname⟩ := σ.get?_of_find?_eq_some name i hi
  refine ⟨x, ?_, hname, ?_⟩
  · rwa [indexOf_of_within σ σ (Within.refl σ) name i hi]
  · rw [kindOf_of_within σ σ (Within.refl σ) name i x hi hx]

end Store

namespace Draft

theorem lookup_of_find?_eq_some (d : Draft) (name : String) (i : Nat) (x : Variable)
    (hi : d.store.find? name = some i) (hx : d.store.get? i = some x) :
    d.lookup name = .ok (i, x) := by
  simp [lookup, hi, hx]

/-- If the store takes a plain event, so does the draft: it appends the instruction of
the event, as any later store gives it. -/
theorem apply_plain_of_after?_eq_some (d : Draft) (e : Plain) (σ τ : Store)
    (h : d.store.after? e.event = some σ) (hτ : σ.Within τ) :
    d.apply e.located = .ok { d with store := σ, code := d.code.push (e.instruction τ) } := by
  rcases e with ⟨pos, event, hplain⟩
  cases event with
  | declare kind name =>
      simp only [Store.after?, Option.ite_none_right_eq_some, Option.some.injEq] at h
      obtain ⟨hname, rfl⟩ := h
      have hindex := Store.indexOf_of_within _ τ hτ name _ (d.store.find?_add_self name kind hname)
      simp [Plain.located, Plain.instruction, apply, take, declare, Store.declare, hname, emit,
        Event.operation, hindex, Except.mapError]
  | target name =>
      simp only [Store.after?, Option.ite_none_left_eq_some, Option.some.injEq] at h
      obtain ⟨hname, rfl⟩ := h
      obtain ⟨i, hi⟩ := Option.ne_none_iff_exists'.mp hname
      obtain ⟨x, hx, -⟩ := d.store.get?_of_find?_eq_some name i hi
      have hindex := Store.indexOf_of_within _ τ hτ name i hi
      simp [Plain.located, Plain.instruction, apply, take, lookup_of_find?_eq_some d name i x hi hx,
        emit, Event.operation, hindex, Except.mapError, Except.map]
  | read name =>
      simp only [Store.after?, Option.ite_none_left_eq_some, Option.some.injEq] at h
      obtain ⟨hname, rfl⟩ := h
      obtain ⟨i, hi⟩ := Option.ne_none_iff_exists'.mp hname
      obtain ⟨x, hx, -⟩ := d.store.get?_of_find?_eq_some name i hi
      have hindex := Store.indexOf_of_within _ τ hτ name i hi
      have hkind := Store.kindOf_of_within _ τ hτ name i x hi hx
      simp [Plain.located, Plain.instruction, apply, take, lookup_of_find?_eq_some d name i x hi hx,
        emit, Event.operation, hindex, hkind, Except.mapError, Except.map]
  | integer text =>
      simp only [Store.after?, Option.ite_none_left_eq_some, Option.some.injEq] at h
      obtain ⟨htext, rfl⟩ := h
      obtain ⟨n, hn⟩ := Option.ne_none_iff_exists'.mp htext
      simp [Plain.located, Plain.instruction, apply, take, integer, hn, emit, Event.operation,
        Except.mapError]
  | operator spelling =>
      simp only [Store.after?, Option.ite_none_left_eq_some, Option.some.injEq] at h
      obtain ⟨hspelling, rfl⟩ := h
      obtain ⟨op, hop⟩ := Option.ne_none_iff_exists'.mp hspelling
      simp [Plain.located, Plain.instruction, apply, take, operator, hop, emit, Event.operation,
        Except.mapError]
  | string | assign | print =>
      obtain rfl := Option.some.inj h
      rfl
  | branch | otherwise | loop | close => exact Bool.noConfusion hplain

/-- If the store refuses a plain event, so does the draft, for the reason that the event
gives. -/
theorem apply_plain_of_after?_eq_none (d : Draft) (e : Plain)
    (h : d.store.after? e.event = none) :
    ∃ cause, d.apply e.located = .error ⟨e.pos, cause⟩ ∧ e.event.refusal? = some cause := by
  rcases e with ⟨pos, event, hplain⟩
  cases event with
  | declare kind name =>
      simp only [Store.after?, ite_eq_right_iff, reduceCtorEq, imp_false] at h
      obtain ⟨i, hi⟩ := Option.ne_none_iff_exists'.mp h
      refine ⟨.duplicateDeclaration name, ?_, rfl⟩
      simp [Plain.located, apply, take, declare, Store.declare, hi, Except.mapError]
  | target name | read name =>
      simp only [Store.after?, ite_eq_left_iff, reduceCtorEq, imp_false, not_not] at h
      refine ⟨.undeclaredVariable name, ?_, rfl⟩
      simp [Plain.located, apply, take, lookup, h, Except.mapError, Except.map]
  | integer text =>
      simp only [Store.after?, ite_eq_left_iff, reduceCtorEq, imp_false, not_not] at h
      refine ⟨.invalidInteger text, ?_, rfl⟩
      simp [Plain.located, apply, take, integer, h, Except.mapError]
  | operator spelling =>
      simp only [Store.after?, ite_eq_left_iff, reduceCtorEq, imp_false, not_not] at h
      refine ⟨.unknownOperator spelling, ?_, rfl⟩
      simp [Plain.located, apply, take, operator, h, Except.mapError]
  | string | assign | print => simp [Store.after?] at h
  | branch | otherwise | loop | close => exact Bool.noConfusion hplain

end Draft

end StackLang
