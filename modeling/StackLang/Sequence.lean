/-!
# Sequences cut behind a member

`upTo stop xs` keeps the members of `xs` up to and including the first one at which
`stop` holds.
-/

namespace StackLang.Sequence

variable {α : Type}

def upTo (stop : α → Bool) : List α → List α
  | [] => []
  | x :: xs => if stop x then [x] else x :: upTo stop xs

/-- The first `n` members, with `none` once the sequence has ended. -/
def pulls (n : Nat) (xs : List α) : List (Option α) := (List.range n).map fun i => xs[i]?

@[simp] theorem upTo_nil (stop : α → Bool) : upTo stop [] = [] := rfl

theorem upTo_cons (stop : α → Bool) (x : α) (xs : List α) :
    upTo stop (x :: xs) = if stop x then [x] else x :: upTo stop xs := rfl

@[simp] theorem length_pulls (n : Nat) (xs : List α) : (pulls n xs).length = n := by
  simp [pulls]

end StackLang.Sequence
