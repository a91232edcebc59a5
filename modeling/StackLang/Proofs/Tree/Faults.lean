import StackLang.Proofs.Tree.Meaning

/-!
# Faults that a tree can have

A tree faults because a value has the wrong kind, because of a division by zero, or
because the sink is full. It never faults because of the way programs are laid out or
executed: those faults are called internal here, and no meaning of a tree has one.
-/

namespace StackLang

/-- The machine found its stack, its jumps or its variables in disorder. -/
def RunError.Internal : RunError → Prop
  | .notAnAssignmentTarget | .stackUnderflow | .unresolvedJump | .outOfRange _ => True
  | .typeMismatch expected actual => expected = .anyValue ∨ actual = .void
  | .divisionByZero | .output => False

namespace Tree

/-- A value of the wrong kind is no internal fault, since no value is of kind `void`. -/
theorem not_internal_mismatch (k : Kind) (v : Value) :
    ¬ (RunError.typeMismatch (.kind k) v.kind).Internal := by
  simpa [RunError.Internal] using v.kind_ne_void

section Results

variable {ε α β : Type} {P : ε → Prop}

/-- The result is not an error with the property `P`. -/
def Avoids (P : ε → Prop) (x : Except ε α) : Prop := ∀ e, x = .error e → ¬ P e

theorem avoids_ok (a : α) : Avoids P (.ok a) := by
  intro e h
  cases h

theorem Avoids.bind {x : Except ε α} {f : α → Except ε β} (hx : Avoids P x)
    (hf : ∀ a, Avoids P (f a)) : Avoids P (x >>= f) := by
  cases x with
  | error e =>
      intro e' h
      obtain rfl : e = e' := Except.error.inj h
      exact hx e rfl
  | ok a => exact hf a

/-- The result is no internal fault. -/
abbrev Blameless (x : Except RunError α) : Prop := Avoids RunError.Internal x

/-- The same of a fault with its place. -/
abbrev BlamelessAt (x : Except (Located RunError) α) : Prop := Avoids (fun f => f.item.Internal) x

theorem Blameless.blame {x : Except RunError α} (h : Blameless x) (pos : Position) :
    BlamelessAt (blame pos x) := by
  cases x with
  | error e =>
      rintro f ⟨⟩
      exact h e rfl
  | ok a => exact avoids_ok a

end Results

section Operators

theorem blameless_asInteger (v : Value) : Blameless v.asInteger := by
  cases v with
  | integer n => exact avoids_ok n
  | boolean | string =>
      rintro e ⟨⟩
      exact not_internal_mismatch _ _

theorem blameless_asBoolean (v : Value) : Blameless v.asBoolean := by
  cases v with
  | boolean b => exact avoids_ok b
  | integer | string =>
      rintro e ⟨⟩
      exact not_internal_mismatch _ _

theorem blameless_integers (f : Int → Int → Value) (v w : Value) : Blameless (integers f v w) :=
  (blameless_asInteger w).bind fun _ => (blameless_asInteger v).bind fun _ => avoids_ok _

theorem blameless_booleans (f : Bool → Bool → Bool) (v w : Value) : Blameless (booleans f v w) :=
  (blameless_asBoolean w).bind fun _ => (blameless_asBoolean v).bind fun _ => avoids_ok _

theorem blameless_plus (v w : Value) : Blameless (plus v w) := by
  rw [plus]
  split
  · exact avoids_ok _
  · exact (blameless_asInteger v).bind fun _ => (blameless_asInteger w).bind fun _ => avoids_ok _

theorem blameless_quotient (v w : Value) : Blameless (quotient v w) := by
  refine (blameless_asInteger w).bind fun n => (blameless_asInteger v).bind fun m => ?_
  dsimp only
  split
  · rintro e ⟨⟩
    exact id
  · exact avoids_ok _

theorem UnaryOperator.blameless_apply (op : UnaryOperator) (v : Value) : Blameless (op.apply v) := by
  cases op with
  | negate => exact (blameless_asInteger v).bind fun _ => avoids_ok _
  | not => exact (blameless_asBoolean v).bind fun _ => avoids_ok _

theorem BinaryOperator.blameless_apply (op : BinaryOperator) (v w : Value) :
    Blameless (op.apply v w) := by
  cases op with
  | or | and => exact blameless_booleans _ v w
  | add => exact blameless_plus v w
  | div => exact blameless_quotient v w
  | eq | notEq | less | lessEq | greater | greaterEq | sub | mul =>
      rw [BinaryOperator.apply]
      exact blameless_integers _ v w

end Operators

theorem Expression.blameless_eval (ρ : String → Value) (e : Expression) :
    BlamelessAt (e.eval ρ) := by
  induction e with
  | read name => exact avoids_ok _
  | integer numeral => exact avoids_ok _
  | string text => exact avoids_ok _
  | group inner ih => exact ih
  | unary op operand ih => exact ih.bind fun v => (op.item.blameless_apply v).blame op.pos
  | binary op left right ihl ihr =>
      exact ihl.bind fun v => ihr.bind fun w => (op.item.blameless_apply v w).blame op.pos

theorem Expression.blameless_test (pos : Position) (e : Expression) (ρ : String → Value) :
    BlamelessAt (e.test pos ρ) :=
  (e.blameless_eval ρ).bind fun v => (blameless_asBoolean v).blame pos

namespace Outcome

/-- The fault, if there is one, is not internal. -/
def Clean : Outcome → Prop
  | .fault f _ => ¬ f.item.Internal
  | _ => True

theorem Clean.andThen {x : Outcome} {f : State → Outcome} (hx : x.Clean)
    (hf : ∀ s, (f s).Clean) : (x.andThen f).Clean := by
  cases x with
  | done s => exact hf s
  | fault e s => exact hx
  | unfinished s => trivial

theorem clean_ofResult {α : Type} {x : Except (Located RunError) α} (hx : BlamelessAt x)
    (s : State) {f : α → Outcome} (hf : ∀ a, (f a).Clean) : (ofResult x s f).Clean := by
  cases x with
  | error e => exact hx e rfl
  | ok a => exact hf a

end Outcome

theorem State.clean_assign (s : State) (name : String) (kind : VariableKind) (pos : Position)
    (v : Value) : (s.assign name kind pos v).Clean := by
  rw [State.assign]
  split
  · trivial
  · exact not_internal_mismatch _ v

theorem State.clean_print (s : State) (pos : Position) (text : String) :
    (s.print pos text).Clean := by
  rw [State.print]
  split
  · trivial
  · exact id

theorem clean_iterate (test : State → Except (Located RunError) Bool) (body : State → Outcome)
    (htest : ∀ s, BlamelessAt (test s)) (hbody : ∀ s, (body s).Clean) (n : Nat) (s : State) :
    (iterate test body n s).Clean := by
  induction n generalizing s with
  | zero => trivial
  | succ n ih =>
      refine Outcome.clean_ofResult (htest s) s fun again => ?_
      split
      · exact (hbody s).andThen ih
      · trivial

namespace Statement

variable (kinds : String → VariableKind) (fuel : Nat)

mutual

theorem clean_exec : ∀ (t : Statement) (s : State), (t.exec kinds fuel s).Clean
  | .declare _ _, _ => trivial
  | .assign _ _ value, s =>
      Outcome.clean_ofResult (value.blameless_eval _) s fun _ => s.clean_assign _ _ _ _
  | .print _ value, s =>
      Outcome.clean_ofResult (value.blameless_eval _) s fun _ => s.clean_print _ _
  | .branch pos condition body _, s => by
      refine Outcome.clean_ofResult (condition.blameless_test pos _) s fun b => ?_
      split
      · exact clean_execAll body s
      · trivial
  | .choice pos condition body _ other _, s => by
      refine Outcome.clean_ofResult (condition.blameless_test pos _) s fun b => ?_
      split
      · exact clean_execAll body s
      · exact clean_execAll other s
  | .loop pos condition body _, s =>
      clean_iterate _ _ (fun _ => condition.blameless_test pos _) (clean_execAll body) fuel s

theorem clean_execAll : ∀ (ts : List Statement) (s : State), (execAll kinds fuel ts s).Clean
  | [], _ => trivial
  | t :: ts, s => (clean_exec t s).andThen (clean_execAll ts)

end

/-- No fault of a program is internal. -/
theorem not_internal_of_faults (ss : List Statement) (s : State) (f : Located RunError)
    (s' : State) (h : Faults ss s f s') : ¬ f.item.Internal := by
  obtain ⟨fuel, houtcome⟩ := h
  have hclean := clean_execAll (kindOf ss) fuel ss s
  rwa [← outcome, houtcome] at hclean

end Statement

end Tree

end StackLang
