import StackLang.Text.Printable

/-!
# Quoted texts

A text between double quotes, with everything that a reader could not see or could
mistake written as an escape. Characters that are not printable are given by their code
point in hexadecimal.
-/

namespace StackLang.Text.Quoted

def hex (n : Nat) : String := String.ofList (Nat.toDigits 16 n)

def character (c : Char) : String :=
  match c with
  | '\t' => "\\t"
  | '\r' => "\\r"
  | '\n' => "\\n"
  | '\x00' => "\\0"
  | '"' => "\\\""
  | '\\' => "\\\\"
  | c => if isPrintable c then c.toString else "\\u\x7b" ++ hex c.toNat ++ "\x7d"

def quote (s : String) : String := "\"" ++ String.join (s.toList.map character) ++ "\""

end StackLang.Text.Quoted
