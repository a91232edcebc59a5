import StackLang.Compilation
import StackLang.Proofs.Tree.Basic

/-!
# Derivations

The grammar as a relation between tokens and trees:

    program    ::= statement* eof
    statement  ::= [declare] (integer | string) ID ;
                 | ID := expression ;
                 | print expression ;
                 | if expression statement* [else statement*] end ;
                 | while expression statement* end ;

Expressions are stratified. `Derives n ts e` says that `ts` derives `e` with no binary
operator outside of parentheses that binds more loosely than the level `n`; at level 5
there is none at all. The left operand of an operator has the level of the operator and
the right one the next, so operators of one level associate to the left.
-/

namespace StackLang

def VariableKind.keyword : VariableKind → Keyword
  | .integer => .integer
  | .string => .string

namespace Tree

def UnaryOperator.token : UnaryOperator → TokenKind
  | .negate => .minus
  | .not => .bang

def BinaryOperator.token : BinaryOperator → TokenKind
  | .or => .or
  | .and => .and
  | .eq => .eq
  | .notEq => .notEq
  | .less => .less
  | .lessEq => .lessEq
  | .greater => .greater
  | .greaterEq => .greaterEq
  | .add => .plus
  | .sub => .minus
  | .mul => .star
  | .div => .slash

/-- How tightly a binary operator binds. -/
def BinaryOperator.tightness : BinaryOperator → Nat
  | .or => 0
  | .and => 1
  | .eq | .notEq | .less | .lessEq | .greater | .greaterEq => 2
  | .add | .sub => 3
  | .mul | .div => 4

theorem BinaryOperator.tightness_lt (op : BinaryOperator) : op.tightness < 5 := by
  cases op <;> decide

inductive Expression.Derives : Nat → List Token → Expression → Prop where
  | read (t : Token) (ht : t.kind = .identifier) : Derives 5 [t] (.read ⟨t.pos, t.text⟩)
  | integer (t : Token) (ht : t.kind = .intLiteral) : Derives 5 [t] (.integer ⟨t.pos, t.text⟩)
  | string (t : Token) (ht : t.kind = .strLiteral) : Derives 5 [t] (.string ⟨t.pos, t.text⟩)
  | group {ts : List Token} {e : Expression} (l r : Token) (hl : l.kind = .lparen)
      (hr : r.kind = .rparen) (inner : Derives 0 ts e) : Derives 5 (l :: (ts ++ [r])) (.group e)
  | unary {ts : List Token} {e : Expression} (op : UnaryOperator) (t : Token)
      (ht : t.kind = op.token) (operand : Derives 5 ts e) : Derives 5 (t :: ts) (.unary ⟨t.pos, op⟩ e)
  | binary {ls rs : List Token} {l r : Expression} (op : BinaryOperator) (t : Token)
      (ht : t.kind = op.token) (left : Derives op.tightness ls l)
      (right : Derives (op.tightness + 1) rs r) :
      Derives op.tightness (ls ++ t :: rs) (.binary ⟨t.pos, op⟩ l r)
  | tighter {n : Nat} {ts : List Token} {e : Expression} (h : Derives (n + 1) ts e) : Derives n ts e

mutual

inductive Statement.Derives : List Token → Statement → Prop where
  | declare (kind : VariableKind) (k name semi : Token) (hk : k.kind = .keyword kind.keyword)
      (hname : name.kind = .identifier) (hsemi : semi.kind = .semicolon) :
      Derives [k, name, semi] (.declare kind ⟨name.pos, name.text⟩)
  | declareLong (kind : VariableKind) (d k name semi : Token) (hd : d.kind = .keyword .declare)
      (hk : k.kind = .keyword kind.keyword) (hname : name.kind = .identifier)
      (hsemi : semi.kind = .semicolon) :
      Derives [d, k, name, semi] (.declare kind ⟨name.pos, name.text⟩)
  | assign {vs : List Token} {value : Expression} (name t semi : Token)
      (hname : name.kind = .identifier) (ht : t.kind = .assign) (hsemi : semi.kind = .semicolon)
      (hvalue : value.Derives 0 vs) :
      Derives (name :: t :: (vs ++ [semi])) (.assign ⟨name.pos, name.text⟩ t.pos value)
  | print {vs : List Token} {value : Expression} (t semi : Token) (ht : t.kind = .keyword .print)
      (hsemi : semi.kind = .semicolon) (hvalue : value.Derives 0 vs) :
      Derives (t :: (vs ++ [semi])) (.print t.pos value)
  | branch {cs bs : List Token} {condition : Expression} {body : List Statement}
      (t close semi : Token) (ht : t.kind = .keyword .branch) (hclose : close.kind = .keyword .close)
      (hsemi : semi.kind = .semicolon) (hcondition : condition.Derives 0 cs)
      (hbody : DerivesAll bs body) :
      Derives (t :: (cs ++ (bs ++ [close, semi]))) (.branch t.pos condition body close.pos)
  | choice {cs bs os : List Token} {condition : Expression} {body other : List Statement}
      (t middle close semi : Token) (ht : t.kind = .keyword .branch)
      (hmiddle : middle.kind = .keyword .otherwise) (hclose : close.kind = .keyword .close)
      (hsemi : semi.kind = .semicolon) (hcondition : condition.Derives 0 cs)
      (hbody : DerivesAll bs body) (hother : DerivesAll os other) :
      Derives (t :: (cs ++ (bs ++ middle :: (os ++ [close, semi]))))
        (.choice t.pos condition body middle.pos other close.pos)
  | loop {cs bs : List Token} {condition : Expression} {body : List Statement}
      (t close semi : Token) (ht : t.kind = .keyword .loop) (hclose : close.kind = .keyword .close)
      (hsemi : semi.kind = .semicolon) (hcondition : condition.Derives 0 cs)
      (hbody : DerivesAll bs body) :
      Derives (t :: (cs ++ (bs ++ [close, semi]))) (.loop t.pos condition body close.pos)

inductive Statement.DerivesAll : List Token → List Statement → Prop where
  | nil : DerivesAll [] []
  | cons {ts us : List Token} {s : Statement} {ss : List Statement} (first : Statement.Derives ts s)
      (rest : DerivesAll us ss) : DerivesAll (ts ++ us) (s :: ss)

end

/-- The tokens of a whole text, its end included, derive a program. -/
def DerivesProgram (tokens : List Token) (ss : List Statement) : Prop :=
  ∃ ts eof, tokens = ts ++ [eof] ∧ eof.kind = .eof ∧ Statement.DerivesAll ts ss

end Tree

end StackLang
