import StackLang.Proofs.Grammar.Completeness

/-!
# Expressions with no more parentheses than they need

A `Formula` is an expression as it is meant, without parentheses. It is written with
parentheses around an operand exactly where the operand would be torn apart: around a left
operand that binds more loosely than the operator, a right operand that does not bind more
tightly, and a binary operand of a prefix operator. Whatever is written so is read back.
The reader comes to the end of the tokens and no further, and reports the formula in
postfix order; a draft takes the report and appends the code of the formula; and the report
tells which formula it was.
-/

namespace StackLang

namespace Tree

/-- An expression without parentheses. -/
inductive Formula where
  | read (name : Located String)
  | integer (numeral : Located String)
  | string (text : Located String)
  | unary (op : Located UnaryOperator) (operand : Formula)
  | binary (op : Located BinaryOperator) (left right : Formula)
  deriving DecidableEq

def UnaryOperator.spelling : UnaryOperator → String
  | .negate => "-"
  | .not => "!"

/-- The binary operator that is written for an operator of the machine. -/
def BinaryOperator.ofOperator? : Operator → Option BinaryOperator
  | .or => some .or
  | .and => some .and
  | .eq => some .eq
  | .notEq => some .notEq
  | .less => some .less
  | .lessEq => some .lessEq
  | .greater => some .greater
  | .greaterEq => some .greaterEq
  | .add => some .add
  | .sub => some .sub
  | .mul => some .mul
  | .div => some .div
  | .negate | .not => none

/-- The tokens of an expression, in order. Their positions and the spellings of operators and
parentheses can be any. -/
inductive Expression.Spells : Expression → List Token → Prop where
  | read (t : Token) (ht : t.kind = .identifier) : Spells (.read ⟨t.pos, t.text⟩) [t]
  | integer (t : Token) (ht : t.kind = .intLiteral) : Spells (.integer ⟨t.pos, t.text⟩) [t]
  | string (t : Token) (ht : t.kind = .strLiteral) : Spells (.string ⟨t.pos, t.text⟩) [t]
  | group {ts : List Token} {e : Expression} (l r : Token) (hl : l.kind = .lparen)
      (hr : r.kind = .rparen) (inner : Spells e ts) : Spells (.group e) (l :: (ts ++ [r]))
  | unary {ts : List Token} {e : Expression} (op : UnaryOperator) (t : Token)
      (ht : t.kind = op.token) (operand : Spells e ts) : Spells (.unary ⟨t.pos, op⟩ e) (t :: ts)
  | binary {ls rs : List Token} {l r : Expression} (op : BinaryOperator) (t : Token)
      (ht : t.kind = op.token) (left : Spells l ls) (right : Spells r rs) :
      Spells (.binary ⟨t.pos, op⟩ l r) (ls ++ t :: rs)

/-- Tokens of an expression, with the parentheses nowhere in particular. -/
def Expression.tokens : Expression → List Token
  | .read name => [⟨.identifier, name.item, name.pos⟩]
  | .integer numeral => [⟨.intLiteral, numeral.item, numeral.pos⟩]
  | .string text => [⟨.strLiteral, text.item, text.pos⟩]
  | .group inner => ⟨.lparen, "(", .nowhere⟩ :: (inner.tokens ++ [⟨.rparen, ")", .nowhere⟩])
  | .unary op operand => ⟨op.item.token, op.item.spelling, op.pos⟩ :: operand.tokens
  | .binary op left right =>
    left.tokens ++ ⟨op.item.token, op.item.toOperator.symbol, op.pos⟩ :: right.tokens

theorem Expression.spells_tokens (e : Expression) : e.Spells e.tokens := by
  induction e with
  | read name => exact .read ⟨.identifier, name.item, name.pos⟩ rfl
  | integer numeral => exact .integer ⟨.intLiteral, numeral.item, numeral.pos⟩ rfl
  | string text => exact .string ⟨.strLiteral, text.item, text.pos⟩ rfl
  | group inner ih => exact .group _ _ rfl rfl ih
  | unary op operand ih => exact .unary op.item ⟨_, _, op.pos⟩ rfl ih
  | binary op left right ihl ihr => exact .binary op.item ⟨_, _, op.pos⟩ rfl ihl ihr

/-- An expression, in parentheses if these are needed. -/
def Expression.enclose (needed : Bool) (e : Expression) : Expression :=
  if needed then .group e else e

@[simp] theorem Expression.plains_enclose (needed : Bool) (e : Expression) :
    (e.enclose needed).plains = e.plains := by
  cases needed <;> rfl

namespace Formula

/-- How tightly the outermost operator binds; operands bind most tightly. -/
def tightness : Formula → Nat
  | .binary op _ _ => op.item.tightness
  | _ => 5

/-- The formula with parentheses where they are needed, and nowhere else. -/
def written : Formula → Expression
  | .read name => .read name
  | .integer numeral => .integer numeral
  | .string text => .string text
  | .unary op operand => .unary op (operand.written.enclose (operand.tightness < 5))
  | .binary op left right =>
    .binary op (left.written.enclose (left.tightness < op.item.tightness))
      (right.written.enclose (right.tightness ≤ op.item.tightness))

/-- The events of a formula: operands before operators, left before right. -/
def events : Formula → List (Located Event)
  | .read name => [⟨name.pos, .read name.item⟩]
  | .integer numeral => [⟨numeral.pos, .integer numeral.item⟩]
  | .string text => [⟨text.pos, .string text.item⟩]
  | .unary op operand => operand.events ++ [⟨op.pos, .operator op.item.toOperator.symbol⟩]
  | .binary op left right =>
    left.events ++ (right.events ++ [⟨op.pos, .operator op.item.toOperator.symbol⟩])

/-- The instructions of a formula over the variables of a store, in the same order. -/
def code (σ : Store) : Formula → List Instruction
  | .read name => [⟨name.pos, .read (σ.kindOf name.item) (σ.indexOf name.item)⟩]
  | .integer numeral =>
    [⟨numeral.pos, .constant (.integer ((Decimal.readInt64? numeral.item.toList).getD 0))⟩]
  | .string text => [⟨text.pos, .constant (.string text.item)⟩]
  | .unary op operand => operand.code σ ++ [⟨op.pos, .operator op.item.toOperator⟩]
  | .binary op left right =>
    left.code σ ++ (right.code σ ++ [⟨op.pos, .operator op.item.toOperator⟩])

/-- All variables are declared, and all numerals are 64-bit integers. -/
def Bound (σ : Store) : Formula → Prop
  | .read name => σ.find? name.item ≠ none
  | .integer numeral => Decimal.readInt64? numeral.item.toList ≠ none
  | .string _ => True
  | .unary _ operand => operand.Bound σ
  | .binary _ left right => left.Bound σ ∧ right.Bound σ

end Formula

section Derivations

theorem Expression.Derives.loosen {m n : Nat} {ts : List Token} {e : Expression}
    (h : e.Derives n ts) (hmn : m ≤ n) : e.Derives m ts := by
  induction hmn with
  | refl => exact h
  | step _ ih => exact ih (.tighter h)

/-- Parentheses where they are needed make an operand of any level. -/
theorem Expression.Derives.enclose {m n : Nat} {e : Expression}
    (h : ∀ ts, e.Spells ts → e.Derives n ts) (needed : Bool) (hmn : needed = false → m ≤ n)
    (hm : m ≤ 5) {ts : List Token} (hts : (e.enclose needed).Spells ts) :
    (e.enclose needed).Derives m ts := by
  cases needed with
  | false => exact (h ts hts).loosen (hmn rfl)
  | true =>
      cases hts with
      | group l r hl hr inner =>
          have hgroup := Derives.group l r hl hr ((h _ inner).loosen n.zero_le)
          exact hgroup.loosen hm

/-- What is written can be derived, with the formula's own operator as the loosest. -/
theorem Formula.derives_written (f : Formula) :
    ∀ ts, f.written.Spells ts → f.written.Derives f.tightness ts := by
  induction f with
  | read name =>
      rintro ts ⟨t, ht⟩
      exact .read t ht
  | integer numeral =>
      rintro ts (_ | ⟨t, ht⟩)
      exact .integer t ht
  | string text =>
      rintro ts (_ | _ | ⟨t, ht⟩)
      exact .string t ht
  | unary op operand ih =>
      intro ts hts
      cases hts with
      | unary op t ht hoperand =>
          refine .unary op t ht (Expression.Derives.enclose ih _ ?_ (Nat.le_refl 5) hoperand)
          intro hneeded
          simpa using hneeded
  | binary op left right ihl ihr =>
      intro ts hts
      cases hts with
      | binary op t ht hleft hright =>
          refine .binary op t ht
            (Expression.Derives.enclose ihl _ ?_ (Nat.le_of_lt op.tightness_lt) hleft)
            (Expression.Derives.enclose ihr _ ?_ op.tightness_lt hright)
          · intro hneeded
            simpa using hneeded
          · intro hneeded
            simpa [Nat.succ_le_iff] using hneeded

end Derivations

namespace Formula

section Events

/-- Parentheses are not reported. -/
theorem events_written (f : Formula) : f.written.events = f.events := by
  simp only [Expression.events]
  induction f with
  | read | integer | string => rfl
  | unary op operand ih =>
      simp only [written, Expression.plains, Expression.plains_enclose, List.map_append, ih]
      rfl
  | binary op left right ihl ihr =>
      simp only [written, Expression.plains, Expression.plains_enclose, List.map_append, ihl, ihr]
      rfl

theorem map_instruction_written (σ : Store) (f : Formula) :
    f.written.plains.map (Plain.instruction σ) = f.code σ := by
  have hoperator (pos : Position) (op : Operator) :
      Plain.instruction σ ⟨pos, .operator op.symbol, rfl⟩ = ⟨pos, .operator op⟩ := by
    simp [Plain.instruction, Event.operation, Operator.ofSymbol?_symbol]
  induction f with
  | read | integer | string => rfl
  | unary op operand ih =>
      simp only [written, Expression.plains, Expression.plains_enclose, List.map_append, ih,
        List.map_cons, List.map_nil, hoperator, code]
  | binary op left right ihl ihr =>
      simp only [written, Expression.plains, Expression.plains_enclose, List.map_append, ihl, ihr,
        List.map_cons, List.map_nil, hoperator, code]

/-- A formula declares nothing. -/
theorem afterAll?_written {σ : Store} (f : Formula) (h : f.Bound σ) :
    σ.afterAll? f.written.plains = some σ := by
  have hoperator (pos : Position) (op : Operator) :
      σ.afterAll? [⟨pos, .operator op.symbol, rfl⟩] = some σ := by
    simp [Store.afterAll?, Store.after?, Operator.ofSymbol?_symbol]
  induction f with
  | read name => simp [written, Expression.plains, Store.afterAll?, Store.after?, if_neg h]
  | integer numeral => simp [written, Expression.plains, Store.afterAll?, Store.after?, if_neg h]
  | string text => rfl
  | unary op operand ih =>
      simp [written, Expression.plains, Store.afterAll?_append, ih h, hoperator]
  | binary op left right ihl ihr =>
      simp [written, Expression.plains, Store.afterAll?_append, ihl h.1, ihr h.2, hoperator]

/-- A draft takes the events of a formula and appends its code. -/
theorem applyAll_events (f : Formula) (d : Draft) (h : f.Bound d.store) :
    d.applyAll f.events = .ok { d with code := d.code.append (f.code d.store) } := by
  have htakes := (d.lays_plains f.written.plains).takes d.store (f.afterAll?_written h) d.store
    (Store.Within.refl _)
  rwa [map_instruction_written, ← Expression.events, events_written] at htakes

end Events

section Rebuilding

/-- An operator at the end of its operands, the last of which comes first in the list. -/
def join (pos : Position) : Operator → List Formula → Option (List Formula)
  | .negate, f :: fs => some (.unary ⟨pos, .negate⟩ f :: fs)
  | .not, f :: fs => some (.unary ⟨pos, .not⟩ f :: fs)
  | op, r :: l :: fs => (BinaryOperator.ofOperator? op).map fun op => .binary ⟨pos, op⟩ l r :: fs
  | _, _ => none

/-- The formulas behind an event, given those in front of it, the last first. -/
def gather (fs : List Formula) (e : Located Event) : Option (List Formula) :=
  match e.item with
  | .read name => some (.read ⟨e.pos, name⟩ :: fs)
  | .integer text => some (.integer ⟨e.pos, text⟩ :: fs)
  | .string text => some (.string ⟨e.pos, text⟩ :: fs)
  | .operator spelling => (Operator.ofSymbol? spelling).bind fun op => join e.pos op fs
  | _ => none

/-- The formula that events report. -/
def ofEvents? (es : List (Located Event)) : Option Formula :=
  match es.foldlM gather [] with
  | some [f] => some f
  | _ => none

theorem gather_unary (op : Located UnaryOperator) (f : Formula) (fs : List Formula) :
    gather (f :: fs) ⟨op.pos, .operator op.item.toOperator.symbol⟩ = some (.unary op f :: fs) := by
  rcases op with ⟨pos, op⟩
  cases op <;> rfl

theorem gather_binary (op : Located BinaryOperator) (l r : Formula) (fs : List Formula) :
    gather (r :: l :: fs) ⟨op.pos, .operator op.item.toOperator.symbol⟩ =
      some (.binary op l r :: fs) := by
  rcases op with ⟨pos, op⟩
  cases op <;> rfl

theorem foldlM_gather_events (f : Formula) (fs : List Formula) :
    f.events.foldlM gather fs = some (f :: fs) := by
  induction f generalizing fs with
  | read | integer | string => rfl
  | unary op operand ih =>
      rw [events, List.foldlM_append, ih]
      simp [gather_unary]
  | binary op left right ihl ihr =>
      rw [events, List.foldlM_append, ihl, Option.bind_eq_bind, Option.bind_some,
        List.foldlM_append, ihr]
      simp [gather_binary]

theorem ofEvents?_events (f : Formula) : ofEvents? f.events = some f := by
  rw [ofEvents?, foldlM_gather_events]

end Rebuilding

/-- A formula that is written with no more parentheses than it needs is read back: the reader
takes just these tokens and reports the formula, and a draft appends its code and nothing
else. -/
theorem expression_of_spells (f : Formula) (ts : List Token) (hts : f.written.Spells ts)
    (level : Nat) (hlevel : f.written.depth ≤ level) (more : List Token) (stop : Position)
    (hmore : Grammar.Ended (.ofTokens more stop)) (d : Draft) (hd : f.Bound d.store) :
    Grammar.expression level (.ofTokens (ts ++ more) stop) =
        ⟨f.events, .ok (.ofTokens more stop)⟩ ∧
      d.applyAll f.events = .ok { d with code := d.code.append (f.code d.store) } ∧
      ofEvents? f.events = some f := by
  refine ⟨?_, f.applyAll_events d hd, f.ofEvents?_events⟩
  have hderives := (f.derives_written ts hts).loosen (Nat.zero_le _)
  rw [Grammar.expression_of_derives hderives level hlevel more hmore, events_written]

/-- `-(n + 1) * 2 - (3 - n)`, where the product and the negation need no parentheses. -/
def difference : Formula :=
  .binary ⟨⟨1, 14⟩, .sub⟩
    (.binary ⟨⟨1, 10⟩, .mul⟩
      (.unary ⟨⟨1, 1⟩, .negate⟩
        (.binary ⟨⟨1, 5⟩, .add⟩ (.read ⟨⟨1, 3⟩, "n"⟩) (.integer ⟨⟨1, 7⟩, "1"⟩)))
      (.integer ⟨⟨1, 12⟩, "2"⟩))
    (.binary ⟨⟨1, 19⟩, .sub⟩ (.integer ⟨⟨1, 17⟩, "3"⟩) (.read ⟨⟨1, 21⟩, "n"⟩))

example : difference.written.tokens.map Token.kind =
    [.minus, .lparen, .identifier, .plus, .intLiteral, .rparen, .star, .intLiteral, .minus,
      .lparen, .intLiteral, .minus, .identifier, .rparen] := by
  decide

theorem expression_of_spells_difference :
    let d : Draft := { store := Store.empty.add "n" .integer }
    let more : List Token := [⟨.semicolon, ";", ⟨1, 23⟩⟩]
    Grammar.expression 3 (.ofTokens (difference.written.tokens ++ more) ⟨1, 24⟩) =
        ⟨difference.events, .ok (.ofTokens more ⟨1, 24⟩)⟩ ∧
      d.applyAll difference.events =
        .ok { d with code := d.code.append (difference.code d.store) } ∧
      ofEvents? difference.events = some difference :=
  expression_of_spells difference _ difference.written.spells_tokens 3 (by decide) _ _
    (Grammar.ended_cons _ [] (by decide)) _ (by simp only [difference, Bound]; decide +kernel)

end Formula

end Tree

end StackLang
