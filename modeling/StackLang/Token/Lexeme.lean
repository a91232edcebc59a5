import StackLang.Decimal
import StackLang.Text.Blank
import StackLang.Text.Escape
import StackLang.Token.Basic

/-!
# Lexemes

A lexeme is a kind and the piece of source text it covers. `extent c cs` decides, from
the first character `c` and what follows, which kind a lexeme has and how many of the
following characters belong to it. Cutting the text at these extents from the front
gives `lexemes`, so the lexemes of a text tile it without gaps and none of them is
empty.
-/

namespace StackLang

def isLetter (c : Char) : Bool := ('a' ≤ c && c ≤ 'z') || ('A' ≤ c && c ≤ 'Z')

def isWordStart (c : Char) : Bool := isLetter c || c == '_'

def isWordPart (c : Char) : Bool := isLetter c || Decimal.isDigit c || c == '_'

structure Lexeme where
  kind : TokenKind
  raw : List Char
  deriving DecidableEq

namespace Lexeme

/-- How many characters at the front of a text satisfy `p` without a break. -/
def runLength (p : Char → Bool) (cs : List Char) : Nat := (cs.takeWhile p).length

/-- The kind `long`, one character further, if the text starts with `c`; the kind
`short` if not. -/
def pair (cs : List Char) (c : Char) (long short : TokenKind) : TokenKind × Nat :=
  if cs.head? = some c then (long, 1) else (short, 0)

/-- The rest of a string literal behind its opening quote: it runs to a quote, to a line
feed, or to the end of the text. A backslash takes the next character with it, whatever
it is. -/
def literal : List Char → TokenKind × Nat
  | [] => (.error .unclosedString, 0)
  | '"' :: _ => (.strLiteral, 1)
  | '\n' :: _ => (.error .unescapedLineBreak, 1)
  | ['\\'] => (.error .unclosedString, 1)
  | '\\' :: _ :: cs => (literal cs).map id (· + 2)
  | _ :: cs => (literal cs).map id (· + 1)

/-- The rest of a word behind its first character. -/
def word (c : Char) (cs : List Char) : TokenKind × Nat :=
  let tail := cs.takeWhile isWordPart
  match Keyword.ofSpelling? (String.ofList (c :: tail)) with
  | some k => (.keyword k, tail.length)
  | none => (.identifier, tail.length)

/-- The rest of a number behind its first digit. Digits that run into a word make the
whole run malformed. -/
def number (cs : List Char) : TokenKind × Nat :=
  let digits := runLength Decimal.isDigit cs
  let parts := runLength isWordPart cs
  if digits < parts then (.error .malformedNumber, parts) else (.intLiteral, digits)

/-- The kind of the lexeme that starts with `c`, and how many of the characters `cs`
behind `c` belong to it. -/
def extent (c : Char) (cs : List Char) : TokenKind × Nat :=
  match c with
  | '+' => (.plus, 0)
  | '-' => (.minus, 0)
  | '*' => (.star, 0)
  | '/' => if cs.head? = some '/' then (.comment, runLength (· ≠ '\n') cs) else (.slash, 0)
  | ':' => pair cs '=' .assign (.error .unexpectedChar)
  | '=' => pair cs '=' .eq .assign
  | '!' => pair cs '=' .notEq .bang
  | '<' => if cs.head? = some '>' then (.notEq, 1) else pair cs '=' .lessEq .less
  | '>' => pair cs '=' .greaterEq .greater
  | '|' => pair cs '|' .or (.error .unexpectedChar)
  | '&' => pair cs '&' .and (.error .unexpectedChar)
  | '(' => (.lparen, 0)
  | ')' => (.rparen, 0)
  | ';' => (.semicolon, 0)
  | '"' => literal cs
  | c =>
    if isWordStart c then word c cs
    else if Decimal.isDigit c then number cs
    else if Text.isBlank c then (.whitespace, runLength Text.isBlank cs)
    else (.error .unexpectedChar, 0)

/-- The first lexeme of a text that starts with `c`. -/
def first (c : Char) (cs : List Char) : Lexeme := ⟨(extent c cs).1, c :: cs.take (extent c cs).2⟩

/-- What the first lexeme leaves of the text. -/
def rest (c : Char) (cs : List Char) : List Char := cs.drop (extent c cs).2

/-- The text that a lexeme stands for: a string literal without its quotes and escapes,
anything else as it is. -/
def text (l : Lexeme) : List Char :=
  match l.kind with
  | .strLiteral => Text.Escape.literalText l.raw
  | _ => l.raw

theorem first_raw_append_rest (c : Char) (cs : List Char) :
    (first c cs).raw ++ rest c cs = c :: cs := by
  simp [first, rest]

theorem length_rest_le (c : Char) (cs : List Char) : (rest c cs).length ≤ cs.length := by
  simp [rest]

end Lexeme

/-- The lexemes of a text, from its start to its end. -/
def lexemes : List Char → List Lexeme
  | [] => []
  | c :: cs => Lexeme.first c cs :: lexemes (Lexeme.rest c cs)
termination_by cs => cs.length
decreasing_by exact Nat.lt_succ_of_le (Lexeme.length_rest_le c cs)

@[simp] theorem lexemes_nil : lexemes [] = [] := by
  rw [lexemes]

theorem lexemes_cons (c : Char) (cs : List Char) :
    lexemes (c :: cs) = Lexeme.first c cs :: lexemes (Lexeme.rest c cs) := by
  rw [lexemes]

/-- The lexemes of a text tile it. -/
theorem flatMap_raw_lexemes (cs : List Char) : (lexemes cs).flatMap Lexeme.raw = cs := by
  fun_induction lexemes cs with
  | case1 => rfl
  | case2 c cs ih => rw [List.flatMap_cons, ih, Lexeme.first_raw_append_rest]

end StackLang
