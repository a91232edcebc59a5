import StackLang.Position
import StackLang.Text.Quoted

/-!
# Tokens

A token is a kind, a text and a position. Blanks and comments are tokens too, of the
kinds called trivia, and so is every piece of text that fits no lexical rule: its kind
carries the reason.
-/

namespace StackLang

inductive Keyword where
  | declare
  | integer
  | string
  | branch
  | otherwise
  | loop
  | close
  | print
  deriving DecidableEq

namespace Keyword

def all : List Keyword := [.declare, .integer, .string, .branch, .otherwise, .loop, .close, .print]

def spelling : Keyword → String
  | .declare => "declare"
  | .integer => "integer"
  | .string => "string"
  | .branch => "if"
  | .otherwise => "else"
  | .loop => "while"
  | .close => "end"
  | .print => "print"

def ofSpelling? (s : String) : Option Keyword := all.find? fun k => k.spelling = s

def dump : Keyword → String
  | .declare => "Declare"
  | .integer => "Integer"
  | .string => "String"
  | .branch => "If"
  | .otherwise => "Else"
  | .loop => "While"
  | .close => "End"
  | .print => "Print"

theorem ofSpelling?_spelling (k : Keyword) : ofSpelling? k.spelling = some k := by
  cases k <;> decide

end Keyword

/-- Why a piece of text is no token of the language. -/
inductive LexicalError where
  | unexpectedChar
  | unclosedString
  | unescapedLineBreak
  | malformedNumber
  deriving DecidableEq

namespace LexicalError

def message : LexicalError → String
  | .unexpectedChar => "unexpected character"
  | .unclosedString => "unclosed string"
  | .unescapedLineBreak => "unescaped line break in string"
  | .malformedNumber => "malformed number"

def dump : LexicalError → String
  | .unexpectedChar => "UnexpectedChar"
  | .unclosedString => "UnclosedString"
  | .unescapedLineBreak => "UnescapedLineBreak"
  | .malformedNumber => "MalformedNumber"

end LexicalError

inductive TokenKind where
  | keyword (k : Keyword)
  | identifier
  | intLiteral
  | strLiteral
  | assign
  | plus
  | minus
  | star
  | slash
  | eq
  | notEq
  | less
  | lessEq
  | greater
  | greaterEq
  | bang
  | or
  | and
  | lparen
  | rparen
  | semicolon
  | whitespace
  | comment
  | eof
  | error (e : LexicalError)
  deriving DecidableEq

namespace TokenKind

def isTrivia : TokenKind → Bool
  | .whitespace | .comment => true
  | _ => false

def isError : TokenKind → Bool
  | .error _ => true
  | _ => false

/-- The kind as a diagnostic names it. -/
def describe : TokenKind → String
  | .keyword k => "`" ++ k.spelling ++ "`"
  | .identifier => "identifier"
  | .intLiteral => "integer literal"
  | .strLiteral => "string literal"
  | .assign => "`:=`"
  | .plus => "`+`"
  | .minus => "`-`"
  | .star => "`*`"
  | .slash => "`/`"
  | .eq => "`==`"
  | .notEq => "`<>`"
  | .less => "`<`"
  | .lessEq => "`<=`"
  | .greater => "`>`"
  | .greaterEq => "`>=`"
  | .bang => "`!`"
  | .or => "`||`"
  | .and => "`&&`"
  | .lparen => "`(`"
  | .rparen => "`)`"
  | .semicolon => "`;`"
  | .whitespace => "whitespace"
  | .comment => "comment"
  | .eof => "end of file"
  | .error _ => "invalid token"

def dump : TokenKind → String
  | .keyword k => k.dump
  | .identifier => "Identifier"
  | .intLiteral => "IntLiteral"
  | .strLiteral => "StrLiteral"
  | .assign => "Assign"
  | .plus => "Plus"
  | .minus => "Minus"
  | .star => "Star"
  | .slash => "Slash"
  | .eq => "Eq"
  | .notEq => "NotEq"
  | .less => "Less"
  | .lessEq => "LessEq"
  | .greater => "Greater"
  | .greaterEq => "GreaterEq"
  | .bang => "Bang"
  | .or => "Or"
  | .and => "And"
  | .lparen => "LParen"
  | .rparen => "RParen"
  | .semicolon => "Semicolon"
  | .whitespace => "Whitespace"
  | .comment => "Comment"
  | .eof => "Eof"
  | .error e => "Error(" ++ e.dump ++ ")"

def all : List TokenKind :=
  Keyword.all.map .keyword ++
    [.identifier, .intLiteral, .strLiteral, .assign, .plus, .minus, .star, .slash, .eq, .notEq,
      .less, .lessEq, .greater, .greaterEq, .bang, .or, .and, .lparen, .rparen, .semicolon,
      .whitespace, .comment, .eof, .error .unexpectedChar, .error .unclosedString,
      .error .unescapedLineBreak, .error .malformedNumber]

end TokenKind

structure Token where
  kind : TokenKind
  text : String
  pos : Position
  deriving DecidableEq

namespace Token

def dump (t : Token) : String :=
  "Token(" ++ t.kind.dump ++ ", " ++ Text.Quoted.quote t.text ++ ", " ++ t.pos.text ++ ")"

/-- A token as one line of a token report. -/
def line (t : Token) : String :=
  t.pos.text ++ " " ++ t.kind.describe ++ " " ++ Text.Quoted.quote t.text

end Token

end StackLang
