import StackLang.Proofs.Tree.Meaning

/-!
# Kinds of expressions

The kind of an expression, read off the kinds that its variables are declared with. An
expression has no kind if some operator in it has operands that do not fit.

Kinds foretell values: where every variable has a value of its kind, an expression that has
a value has one of its own kind, and an expression with a kind fails to have a value only
if it divides by zero. Statements keep the variables within their kinds, since assignments
are checked. So a program in which all expressions have the kinds they are used with has no
faults but divisions by zero and full sinks.
-/

namespace StackLang

/-- A fault that kinds cannot rule out. -/
def RunError.Dynamic (e : RunError) : Prop := e = .divisionByZero ∨ e = .output

namespace Tree

/-- The result of an operator that has both operands of one kind. -/
def fromBoth (operand result left right : Kind) : Option Kind :=
  if left = operand ∧ right = operand then some result else none

/-- A string if one of the operands is a string, else the sum of two integers. -/
def fromSum (left right : Kind) : Option Kind :=
  if left = .string ∨ right = .string then some .string
  else fromBoth .integer .integer left right

def UnaryOperator.kind? : UnaryOperator → Kind → Option Kind
  | .negate, .integer => some .integer
  | .not, .boolean => some .boolean
  | _, _ => none

def BinaryOperator.kind? : BinaryOperator → Kind → Kind → Option Kind
  | .or | .and => fromBoth .boolean .boolean
  | .eq | .notEq | .less | .lessEq | .greater | .greaterEq => fromBoth .integer .boolean
  | .sub | .mul | .div => fromBoth .integer .integer
  | .add => fromSum

/-- The kind of an expression whose variables are declared with the given kinds. -/
def Expression.kind? (kinds : String → VariableKind) : Expression → Option Kind
  | .read name => some (kinds name.item).toKind
  | .integer _ => some .integer
  | .string _ => some .string
  | .group inner => inner.kind? kinds
  | .unary op operand => (operand.kind? kinds).bind op.item.kind?
  | .binary op left right =>
    (left.kind? kinds).bind fun k => (right.kind? kinds).bind fun l => op.item.kind? k l

namespace Statement

mutual

/-- All expressions have kinds, conditions are booleans, and what is assigned has the kind of
the variable. -/
def wellKinded (kinds : String → VariableKind) : Statement → Bool
  | .declare _ _ => true
  | .assign name _ value => value.kind? kinds = some (kinds name.item).toKind
  | .print _ value => (value.kind? kinds).isSome
  | .branch _ condition body _ =>
    condition.kind? kinds = some .boolean && wellKindedAll kinds body
  | .choice _ condition body _ other _ =>
    condition.kind? kinds = some .boolean && wellKindedAll kinds body && wellKindedAll kinds other
  | .loop _ condition body _ =>
    condition.kind? kinds = some .boolean && wellKindedAll kinds body

def wellKindedAll (kinds : String → VariableKind) : List Statement → Bool
  | [] => true
  | t :: ts => t.wellKinded kinds && wellKindedAll kinds ts

end

end Statement

section Results

variable {ε : Type} {P : ε → Prop}

/-- A value is of the kind `k`; an error has the property `P`, unless there is no kind. -/
def Foretells (P : ε → Prop) (k : Option Kind) : Except ε Value → Prop
  | .ok v => k = some v.kind
  | .error e => k = none ∨ P e

theorem Foretells.bind {k : Option Kind} {x : Except ε Value} {g : Kind → Option Kind}
    {f : Value → Except ε Value} (hx : Foretells P k x)
    (hf : ∀ v, Foretells P (g v.kind) (f v)) : Foretells P (k.bind g) (x >>= f) := by
  cases x with
  | error e =>
      refine hx.imp ?_ id
      rintro rfl
      rfl
  | ok v =>
      obtain rfl : k = some v.kind := hx
      exact hf v

theorem Foretells.blame {k : Option Kind} {x : Except RunError Value} {Q : RunError → Prop}
    (hx : Foretells Q k x) (pos : Position) :
    Foretells (fun f : Located RunError => Q f.item) k (blame pos x) := by
  cases x with
  | error e => exact hx
  | ok v => exact hx

end Results

section Operators

theorem foretells_integers (f : Int → Int → Value) (k : Kind) (hf : ∀ m n, (f m n).kind = k)
    (v w : Value) :
    Foretells (· = .divisionByZero) (fromBoth .integer k v.kind w.kind) (integers f v w) := by
  cases v with
  | integer m =>
      cases w with
      | integer n => exact congrArg some (hf _ _).symm
      | string | boolean => exact .inl rfl
  | string | boolean => cases w <;> exact .inl rfl

theorem foretells_booleans (f : Bool → Bool → Bool) (v w : Value) :
    Foretells (· = .divisionByZero) (fromBoth .boolean .boolean v.kind w.kind)
      (booleans f v w) := by
  cases v with
  | boolean a =>
      cases w with
      | boolean b => rfl
      | integer | string => exact .inl rfl
  | integer | string => cases w <;> exact .inl rfl

theorem foretells_plus (v w : Value) :
    Foretells (· = .divisionByZero) (fromSum v.kind w.kind) (plus v w) := by
  by_cases hstring : v.kind = .string ∨ w.kind = .string
  · rw [plus, if_pos hstring, fromSum, if_pos hstring]
    rfl
  · rw [plus, if_neg hstring, fromSum, if_neg hstring]
    cases v with
    | integer m =>
        cases w with
        | integer n => rfl
        | string | boolean => exact .inl rfl
    | string | boolean => exact .inl rfl

theorem foretells_quotient (v w : Value) :
    Foretells (· = .divisionByZero) (fromBoth .integer .integer v.kind w.kind)
      (quotient v w) := by
  cases v with
  | integer m =>
      cases w with
      | integer n =>
          change Foretells _ _ (if n.toInt = 0 then _ else _)
          split
          · exact .inr rfl
          · rfl
      | string | boolean => exact .inl rfl
  | string | boolean => cases w <;> exact .inl rfl

theorem UnaryOperator.foretells_apply (op : UnaryOperator) (v : Value) :
    Foretells (· = .divisionByZero) (op.kind? v.kind) (op.apply v) := by
  cases op with
  | negate =>
      cases v with
      | integer n => rfl
      | string | boolean => exact .inl rfl
  | not =>
      cases v with
      | boolean b => rfl
      | integer | string => exact .inl rfl

theorem BinaryOperator.foretells_apply (op : BinaryOperator) (v w : Value) :
    Foretells (· = .divisionByZero) (op.kind? v.kind w.kind) (op.apply v w) := by
  cases op with
  | or | and => exact foretells_booleans _ v w
  | eq | notEq | less | lessEq | greater | greaterEq =>
      rw [BinaryOperator.apply]
      exact foretells_integers _ .boolean (fun _ _ => rfl) v w
  | sub | mul =>
      rw [BinaryOperator.apply]
      exact foretells_integers _ .integer (fun _ _ => rfl) v w
  | div => exact foretells_quotient v w
  | add => exact foretells_plus v w

end Operators

/-- Every variable has a value of its kind. -/
def Kinded (kinds : String → VariableKind) (ρ : String → Value) : Prop :=
  ∀ name, (ρ name).kind = (kinds name).toKind

theorem Kinded.update {kinds : String → VariableKind} {ρ : String → Value} (h : Kinded kinds ρ)
    (name : String) (v : Value) (hv : v.kind = (kinds name).toKind) :
    Kinded kinds (Function.update ρ name v) := by
  intro other
  by_cases hother : other = name
  · subst hother
    rw [Function.update_self, hv]
  · rw [Function.update_of_ne hother, h other]

section Expressions

variable {kinds : String → VariableKind} {ρ : String → Value} (hρ : Kinded kinds ρ)
include hρ

theorem Expression.foretells_eval (e : Expression) :
    Foretells (fun f => f.item = .divisionByZero) (e.kind? kinds) (e.eval ρ) := by
  induction e with
  | read name => exact congrArg some (hρ name.item).symm
  | integer numeral => rfl
  | string text => rfl
  | group inner ih => exact ih
  | unary op operand ih => exact ih.bind fun v => (op.item.foretells_apply v).blame op.pos
  | binary op left right ihl ihr =>
      exact ihl.bind fun v => ihr.bind fun w => (op.item.foretells_apply v w).blame op.pos

/-- An expression of a kind has a value of that kind, or divides by zero. -/
theorem Expression.eval_cases (e : Expression) (k : Kind) (hk : e.kind? kinds = some k) :
    (∃ v, e.eval ρ = .ok v ∧ v.kind = k) ∨
      ∃ f, e.eval ρ = .error f ∧ f.item = .divisionByZero := by
  have heval := e.foretells_eval hρ
  rw [hk] at heval
  cases hresult : e.eval ρ with
  | ok v =>
      rw [hresult] at heval
      exact .inl ⟨v, rfl, (Option.some.inj heval).symm⟩
  | error f =>
      rw [hresult] at heval
      exact .inr ⟨f, rfl, heval.resolve_left (by simp)⟩

/-- A boolean condition is true or false, or divides by zero. -/
theorem Expression.test_cases (pos : Position) (e : Expression)
    (hk : e.kind? kinds = some .boolean) :
    (∃ b, e.test pos ρ = .ok b) ∨ ∃ f, e.test pos ρ = .error f ∧ f.item = .divisionByZero := by
  rcases e.eval_cases hρ .boolean hk with ⟨v, hv, hkind⟩ | ⟨f, hf, hzero⟩
  · cases v with
    | boolean b => exact .inl ⟨b, by rw [test, hv]; rfl⟩
    | integer | string => cases hkind
  · exact .inr ⟨f, by rw [test, hf]; rfl, hzero⟩

end Expressions

/-- The variables are within their kinds at the end; a fault is one that kinds cannot rule
out. -/
def Outcome.Kinded (kinds : String → VariableKind) : Outcome → Prop
  | .done s => Tree.Kinded kinds s.values
  | .fault f _ => f.item.Dynamic
  | .unfinished _ => True

theorem Outcome.Kinded.andThen {kinds : String → VariableKind} {x : Outcome}
    {f : State → Outcome} (hx : x.Kinded kinds)
    (hf : ∀ s, Tree.Kinded kinds s.values → (f s).Kinded kinds) : (x.andThen f).Kinded kinds := by
  cases x with
  | done s => exact hf s hx
  | fault e s => exact hx
  | unfinished s => trivial

/-- A boolean condition, and what is done once it is decided. -/
theorem kinded_test {kinds : String → VariableKind} {s : State} (hs : Kinded kinds s.values)
    (pos : Position) (condition : Expression) (hk : condition.kind? kinds = some .boolean)
    {f : Bool → Outcome} (hf : ∀ b, (f b).Kinded kinds) :
    (Outcome.ofResult (condition.test pos s.values) s f).Kinded kinds := by
  rcases condition.test_cases hs pos hk with ⟨b, hb⟩ | ⟨e, he, hzero⟩
  · rw [hb]
    exact hf b
  · rw [he]
    exact .inl hzero

theorem kinded_iterate {kinds : String → VariableKind} (pos : Position) (condition : Expression)
    (hk : condition.kind? kinds = some .boolean) {body : State → Outcome}
    (hbody : ∀ s, Kinded kinds s.values → (body s).Kinded kinds) (n : Nat) :
    ∀ s, Kinded kinds s.values →
      (iterate (fun s => condition.test pos s.values) body n s).Kinded kinds := by
  induction n with
  | zero => exact fun _ _ => trivial
  | succ n ih =>
      intro s hs
      refine kinded_test hs pos condition hk fun again => ?_
      cases again with
      | false => exact hs
      | true => exact (hbody s hs).andThen ih

theorem State.kinded_assign {kinds : String → VariableKind} {s : State}
    (hs : Kinded kinds s.values) (name : String) (pos : Position) (v : Value)
    (hv : v.kind = (kinds name).toKind) : (s.assign name (kinds name) pos v).Kinded kinds := by
  rw [State.assign, if_pos hv]
  exact hs.update name v hv

theorem State.kinded_print {kinds : String → VariableKind} {s : State}
    (hs : Kinded kinds s.values) (pos : Position) (text : String) :
    (s.print pos text).Kinded kinds := by
  rw [State.print]
  split
  · exact hs
  · exact .inr rfl

namespace Statement

variable (kinds : String → VariableKind) (fuel : Nat)

mutual

/-- A well-kinded statement keeps the variables within their kinds. -/
theorem kinded_exec : ∀ (t : Statement), t.wellKinded kinds = true → ∀ s : State,
    Kinded kinds s.values → (t.exec kinds fuel s).Kinded kinds
  | .declare _ _, _, _, hs => hs
  | .assign name pos value, ht, s, hs => by
      rw [exec]
      rcases value.eval_cases hs _ (of_decide_eq_true ht) with ⟨v, hv, hkind⟩ | ⟨e, he, hzero⟩
      · rw [hv]
        exact s.kinded_assign hs name.item pos v hkind
      · rw [he]
        exact .inl hzero
  | .print pos value, ht, s, hs => by
      rw [exec]
      obtain ⟨k, hk⟩ := Option.isSome_iff_exists.mp ht
      rcases value.eval_cases hs k hk with ⟨v, hv, -⟩ | ⟨e, he, hzero⟩
      · rw [hv]
        exact s.kinded_print hs pos v.text
      · rw [he]
        exact .inl hzero
  | .branch pos condition body _, ht, s, hs => by
      rw [wellKinded, Bool.and_eq_true, decide_eq_true_eq] at ht
      refine kinded_test hs pos condition ht.1 fun b => ?_
      cases b with
      | false => exact hs
      | true => exact kinded_execAll body ht.2 s hs
  | .choice pos condition body _ other _, ht, s, hs => by
      rw [wellKinded, Bool.and_eq_true, Bool.and_eq_true, decide_eq_true_eq] at ht
      refine kinded_test hs pos condition ht.1.1 fun b => ?_
      cases b with
      | false => exact kinded_execAll other ht.2 s hs
      | true => exact kinded_execAll body ht.1.2 s hs
  | .loop pos condition body _, ht, s, hs => by
      rw [wellKinded, Bool.and_eq_true, decide_eq_true_eq] at ht
      exact kinded_iterate pos condition ht.1 (kinded_execAll body ht.2) fuel s hs

theorem kinded_execAll : ∀ (ts : List Statement), wellKindedAll kinds ts = true → ∀ s : State,
    Kinded kinds s.values → (execAll kinds fuel ts s).Kinded kinds
  | [], _, _, hs => hs
  | t :: ts, hts, s, hs => by
      rw [wellKindedAll, Bool.and_eq_true] at hts
      exact (kinded_exec t hts.1 s hs).andThen (kinded_execAll ts hts.2)

end

/-- The faults of a well-kinded program. -/
theorem dynamic_of_faults (ss : List Statement) (hss : wellKindedAll (kindOf ss) ss = true)
    (s : State) (hs : Kinded (kindOf ss) s.values) (f : Located RunError) (s' : State)
    (h : Faults ss s f s') : f.item.Dynamic := by
  obtain ⟨fuel, houtcome⟩ := h
  have hkinded := kinded_execAll (kindOf ss) fuel ss hss s hs
  rwa [← outcome, houtcome] at hkinded

end Statement

end Tree

end StackLang
