/-!
# Escapes in string literals

Between the quotes of a literal a backslash takes the next character with it: `\t` is a
tab, `\n` a line feed, and any other character stands for itself. `escape` writes a text
in that form, and `unescape` reads it.
-/

namespace StackLang.Text.Escape

/-- The character that a backslash and `c` stand for. -/
def escaped (c : Char) : Char :=
  match c with
  | 't' => '\t'
  | 'n' => '\n'
  | c => c

/-- Resolves the escapes of a text. A backslash with nothing behind it stands for
nothing. -/
def unescape : List Char → List Char
  | [] => []
  | ['\\'] => []
  | '\\' :: c :: cs => escaped c :: unescape cs
  | c :: cs => c :: unescape cs

/-- The spelling of one character inside a literal. -/
def spell (c : Char) : List Char :=
  match c with
  | '\t' => ['\\', 't']
  | '\n' => ['\\', 'n']
  | '"' => ['\\', '"']
  | '\\' => ['\\', '\\']
  | c => [c]

def escape (cs : List Char) : List Char := cs.flatMap spell

/-- The text between the first and the last character. -/
def inner (raw : List Char) : List Char := raw.tail.dropLast

/-- The text that a literal, quotes included, denotes. -/
def literalText (raw : List Char) : List Char := unescape (inner raw)

@[simp] theorem escape_nil : escape [] = [] := rfl

theorem escape_cons (c : Char) (cs : List Char) : escape (c :: cs) = spell c ++ escape cs := rfl

theorem unescape_spell_append (c : Char) (cs : List Char) :
    unescape (spell c ++ cs) = c :: unescape cs := by
  unfold spell
  split <;> simp_all [unescape, escaped]

theorem unescape_escape (cs : List Char) : unescape (escape cs) = cs := by
  induction cs with
  | nil => rfl
  | cons c cs ih => rw [escape_cons, unescape_spell_append, ih]

end StackLang.Text.Escape
