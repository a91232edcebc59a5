import StackLang.Decimal

/-!
# Positions

A position is a line and a column of a text, both counted from one. A character moves
the position one column on, a line feed to the start of the next line, and a text moves
it character by character. Whatever belongs to a place in a text is carried as a
`Located` value.
-/

namespace StackLang

structure Position where
  line : Nat
  column : Nat
  deriving DecidableEq

namespace Position

/-- No place at all. -/
def nowhere : Position := ⟨0, 0⟩

/-- The start of a text. -/
def start : Position := ⟨1, 1⟩

def advance (p : Position) (c : Char) : Position :=
  if c = '\n' then ⟨p.line + 1, 1⟩ else ⟨p.line, p.column + 1⟩

/-- The position behind a text that starts at `p`. -/
def after (p : Position) (cs : List Char) : Position := cs.foldl advance p

def text (p : Position) : String := Decimal.ofNat p.line ++ ":" ++ Decimal.ofNat p.column

def dump (p : Position) : String := "Pos(" ++ p.text ++ ")"

@[simp] theorem after_nil (p : Position) : p.after [] = p := rfl

@[simp] theorem after_cons (p : Position) (c : Char) (cs : List Char) :
    p.after (c :: cs) = (p.advance c).after cs := rfl

theorem after_append (p : Position) (cs ds : List Char) :
    p.after (cs ++ ds) = (p.after cs).after ds := List.foldl_append

end Position

/-- Something that belongs to a place in a text. -/
structure Located (α : Type) where
  pos : Position
  item : α
  deriving DecidableEq

namespace Located

variable {α β : Type}

def map (f : α → β) (x : Located α) : Located β := ⟨x.pos, f x.item⟩

/-- The text of an item, behind the place it belongs to. -/
def message (itemText : α → String) (x : Located α) : String :=
  x.pos.text ++ ": " ++ itemText x.item

@[simp] theorem map_pos (f : α → β) (x : Located α) : (x.map f).pos = x.pos := rfl

@[simp] theorem map_item (f : α → β) (x : Located α) : (x.map f).item = f x.item := rfl

end Located

end StackLang
