/-!
# Columns

Texts set in a column of fixed width. A text that is too wide is kept whole.
-/

namespace StackLang.Text

/-- What a text of length `n` lacks to fill the width. -/
def fill (width n : Nat) (c : Char) : String := String.ofList (List.replicate (width - n) c)

def alignRight (width : Nat) (s : String) : String := fill width s.length ' ' ++ s

def alignLeft (width : Nat) (s : String) : String := s ++ fill width s.length ' '

def zeroPad (width : Nat) (s : String) : String := fill width s.length '0' ++ s

end StackLang.Text
