import StackLang.Text.Ranges

/-!
# Blank characters

The characters of the Unicode property `White_Space`. They separate tokens, and a
listing carries none of them at the end of a line.
-/

namespace StackLang.Text

def blankRanges : List CodeRange :=
  [(0x09, 0x0D), (0x20, 0x20), (0x85, 0x85), (0xA0, 0xA0), (0x1680, 0x1680), (0x2000, 0x200A),
    (0x2028, 0x2029), (0x202F, 0x202F), (0x205F, 0x205F), (0x3000, 0x3000)]

def isBlank (c : Char) : Bool := within blankRanges c

/-- A text without the blanks at its end. -/
def trimEnd (cs : List Char) : List Char := (cs.reverse.dropWhile isBlank).reverse

@[simp] theorem trimEnd_nil : trimEnd [] = [] := rfl

theorem trimEnd_append_singleton (cs : List Char) (c : Char) :
    trimEnd (cs ++ [c]) = if isBlank c then trimEnd cs else cs ++ [c] := by
  by_cases h : isBlank c <;> simp [trimEnd, h]

end StackLang.Text
