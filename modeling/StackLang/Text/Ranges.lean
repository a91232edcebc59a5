/-!
# Ranges of code points

A class of characters is given as a list of closed ranges of code points.
-/

namespace StackLang.Text

/-- A closed range of code points. -/
abbrev CodeRange := Nat × Nat

def CodeRange.contains (r : CodeRange) (c : Char) : Bool := r.1 ≤ c.toNat && c.toNat ≤ r.2

def within (ranges : List CodeRange) (c : Char) : Bool := ranges.any fun r => r.contains c

end StackLang.Text
