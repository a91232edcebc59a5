import StackLang.Token.Lexeme

/-!
# Token streams

A stream is a finite list of tokens, after which the end-of-file token comes for ever.
Reading a text gives the stream of its lexemes with their positions; dropping the trivia
gives the stream that the grammar is about. A stream knows its length, so that the length
need not be counted wherever progress is to be checked.
-/

namespace StackLang

structure TokenStream where
  /-- The tokens before the end of the text. -/
  tokens : List Token
  /-- Where the text ends. -/
  stop : Position
  /-- How many tokens come before the end. -/
  length : Nat
  length_eq : length = tokens.length

namespace TokenStream

def ofTokens (tokens : List Token) (stop : Position) : TokenStream :=
  ⟨tokens, stop, tokens.length, rfl⟩

def eof (s : TokenStream) : Token := ⟨.eof, "", s.stop⟩

/-- The tokens of consecutive lexemes, the first of which starts at `p`. -/
def place (p : Position) : List Lexeme → List Token
  | [] => []
  | l :: ls => ⟨l.kind, String.ofList l.text, p⟩ :: place (p.after l.raw) ls

def ofText (cs : List Char) : TokenStream :=
  ofTokens (place .start (lexemes cs)) (Position.start.after cs)

def ofSource (source : String) : TokenStream := ofText source.toList

/-- The stream without blanks and comments. -/
def significant (s : TokenStream) : TokenStream :=
  ofTokens (s.tokens.filter fun t => !t.kind.isTrivia) s.stop

/-- All tokens, the end of file once. -/
def toList (s : TokenStream) : List Token := s.tokens ++ [s.eof]

/-- The token at an index, however far. -/
def nth (s : TokenStream) (i : Nat) : Token := s.tokens.getD i s.eof

/-- The first `n` tokens, however many. -/
def take (s : TokenStream) (n : Nat) : List Token := (List.range n).map s.nth

def head (s : TokenStream) : Token := s.tokens.headD s.eof

/-- The stream behind the first token; behind the end there is only the end. -/
def tail (s : TokenStream) : TokenStream :=
  ⟨s.tokens.tail, s.stop, s.length - 1, by rw [s.length_eq, List.length_tail]⟩

theorem eq_ofTokens (s : TokenStream) : s = ofTokens s.tokens s.stop := by
  rcases s with ⟨tokens, stop, length, h⟩
  subst h
  rfl

@[simp] theorem tokens_ofTokens (ts : List Token) (p : Position) :
    (ofTokens ts p).tokens = ts := rfl

@[simp] theorem stop_ofTokens (ts : List Token) (p : Position) : (ofTokens ts p).stop = p := rfl

@[simp] theorem head_ofTokens_cons (t : Token) (ts : List Token) (p : Position) :
    (ofTokens (t :: ts) p).head = t := rfl

@[simp] theorem tail_ofTokens_cons (t : Token) (ts : List Token) (p : Position) :
    (ofTokens (t :: ts) p).tail = ofTokens ts p := rfl

@[simp] theorem head_ofTokens_nil (p : Position) :
    (ofTokens [] p).head = ⟨.eof, "", p⟩ := rfl

@[simp] theorem tail_ofTokens_nil (p : Position) : (ofTokens [] p).tail = ofTokens [] p := rfl

@[simp] theorem length_tail (s : TokenStream) : s.tail.length = s.length - 1 := rfl

@[simp] theorem place_nil (p : Position) : place p [] = [] := rfl

@[simp] theorem place_cons (p : Position) (l : Lexeme) (ls : List Lexeme) :
    place p (l :: ls) = ⟨l.kind, String.ofList l.text, p⟩ :: place (p.after l.raw) ls := rfl

end TokenStream

end StackLang
