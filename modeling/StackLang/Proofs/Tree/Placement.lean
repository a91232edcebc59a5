import StackLang.Proofs.Tree.Basic

/-!
# Where the parts of a tree lie

The code of a tree is made of the code of its parts and of a few instructions around them.
Here it is taken apart once: wherever the code of an expression or of a statement lies in a
chain of instructions, so do the parts, at the indices that jumps refer to. The sizes of
statements are written in the same order as their code.
-/

namespace StackLang.Tree

variable {code : Chain Instruction} {σ : Store} {base : Nat}

namespace Expression

/-- The code of the expression lies in `code` from the index `base` on. -/
abbrev PlacedAt (code : Chain Instruction) (σ : Store) (base : Nat) (e : Expression) : Prop :=
  code.Placed base (e.plains.map (Plain.instruction σ))

theorem placed_unary {op : Located UnaryOperator} {operand : Expression}
    (h : PlacedAt code σ base (.unary op operand)) :
    PlacedAt code σ base operand ∧
      code.get? (base + operand.plains.length) =
        some ⟨op.pos, .operator op.item.toOperator⟩ := by
  simp only [PlacedAt, plains, List.map_append] at h
  have hop := h.right.head
  simp only [List.length_map, Plain.instruction, Event.operation, Operator.ofSymbol?_symbol,
    Option.getD_some] at hop
  exact ⟨h.left, hop⟩

theorem placed_binary {op : Located BinaryOperator} {left right : Expression}
    (h : PlacedAt code σ base (.binary op left right)) :
    PlacedAt code σ base left ∧ PlacedAt code σ (base + left.plains.length) right ∧
      code.get? (base + left.plains.length + right.plains.length) =
        some ⟨op.pos, .operator op.item.toOperator⟩ := by
  simp only [PlacedAt, plains, List.map_append] at h
  have hright := h.right
  have hop := hright.right.head
  simp only [List.length_map, Plain.instruction, Event.operation, Operator.ofSymbol?_symbol,
    Option.getD_some] at hright hop
  exact ⟨h.left, hright.left, hop⟩

end Expression

namespace Statement

/-- The code of the statements lies in `code` from the index `base` on. -/
abbrev PlacedAllAt (code : Chain Instruction) (σ : Store) (base : Nat) (ts : List Statement) :
    Prop :=
  code.Placed base (Nest.codeAll σ base (nestsAll ts))

abbrev PlacedAt (code : Chain Instruction) (σ : Store) (base : Nat) (t : Statement) : Prop :=
  code.Placed base (Nest.codeAll σ base t.nests)

theorem placed_assign {name : Located String} {pos : Position} {value : Expression}
    (h : PlacedAt code σ base (.assign name pos value)) :
    code.get? base = some ⟨name.pos, .target (σ.indexOf name.item)⟩ ∧
      value.PlacedAt code σ (base + 1) ∧
      code.get? (base + 1 + value.plains.length) = some ⟨pos, .assign⟩ := by
  simp only [PlacedAt, nests, Nest.codeAll, Nest.code, Nest.codeAll_append,
    Nest.codeAll_map_plain, List.cons_append, List.nil_append] at h
  have hassign := h.tail.right.head
  rw [List.length_map] at hassign
  exact ⟨h.head, h.tail.left, hassign⟩

theorem add_sizeAll_assign (base : Nat) (name : Located String) (pos : Position)
    (value : Expression) :
    base + Nest.sizeAll (assign name pos value).nests = base + 1 + value.plains.length + 1 := by
  simp only [nests, Nest.sizeAll, Nest.sizeAll_append, Nest.sizeAll_map_plain, Nest.size]
  omega

theorem placed_print {pos : Position} {value : Expression}
    (h : PlacedAt code σ base (.print pos value)) :
    value.PlacedAt code σ base ∧
      code.get? (base + value.plains.length) = some ⟨pos, .print⟩ := by
  simp only [PlacedAt, nests, Nest.codeAll, Nest.code, Nest.codeAll_append,
    Nest.codeAll_map_plain, List.append_nil] at h
  have hprint := h.right.head
  rw [List.length_map] at hprint
  exact ⟨h.left, hprint⟩

theorem add_sizeAll_print (base : Nat) (pos : Position) (value : Expression) :
    base + Nest.sizeAll (print pos value).nests = base + value.plains.length + 1 := by
  simp only [nests, Nest.sizeAll, Nest.sizeAll_append, Nest.sizeAll_map_plain, Nest.size]
  omega

section Constructs

variable {pos middle close : Position} {condition : Expression} {body other : List Statement}

theorem placed_branch (h : PlacedAt code σ base (.branch pos condition body close)) :
    let entry := base + condition.plains.length + 1
    let exit := entry + Nest.sizeAll (nestsAll body)
    condition.PlacedAt code σ base ∧
      code.get? (base + condition.plains.length) = some ⟨pos, .branch (some exit)⟩ ∧
      PlacedAllAt code σ entry body ∧
      code.get? exit = some ⟨close, .close⟩ := by
  simp only [PlacedAt, nests, Nest.codeAll, Nest.code, Nest.codeAll_append,
    Nest.codeAll_map_plain, Nest.sizeAll_map_plain, List.append_nil] at h
  have hbranch := h.right
  rw [List.length_map] at hbranch
  have hclose := hbranch.tail.right.head
  rw [Nest.length_codeAll] at hclose
  exact ⟨h.left, hbranch.head, hbranch.tail.left, hclose⟩

theorem add_sizeAll_branch (base : Nat) :
    base + Nest.sizeAll (branch pos condition body close).nests =
      base + condition.plains.length + 1 + Nest.sizeAll (nestsAll body) + 1 := by
  simp only [nests, Nest.sizeAll, Nest.sizeAll_append, Nest.sizeAll_map_plain, Nest.size]
  omega

theorem placed_choice
    (h : PlacedAt code σ base (.choice pos condition body middle other close)) :
    let entry := base + condition.plains.length + 1
    let skip := entry + Nest.sizeAll (nestsAll body)
    let exit := skip + 2 + Nest.sizeAll (nestsAll other)
    condition.PlacedAt code σ base ∧
      code.get? (base + condition.plains.length) = some ⟨pos, .branch (some (skip + 1))⟩ ∧
      PlacedAllAt code σ entry body ∧
      code.get? skip = some ⟨middle, .jump (some exit)⟩ ∧
      code.get? (skip + 1) = some ⟨middle, .otherwise⟩ ∧
      PlacedAllAt code σ (skip + 2) other ∧
      code.get? exit = some ⟨close, .close⟩ := by
  simp only [PlacedAt, nests, Nest.codeAll, Nest.code, Nest.codeAll_append,
    Nest.codeAll_map_plain, Nest.sizeAll_map_plain, List.append_nil] at h
  have hbranch := h.right
  rw [List.length_map] at hbranch
  have hskip := hbranch.tail.right
  rw [Nest.length_codeAll] at hskip
  have hclose := hskip.tail.tail.right.head
  rw [Nest.length_codeAll] at hclose
  exact ⟨h.left, hbranch.head, hbranch.tail.left, hskip.head, hskip.tail.head,
    hskip.tail.tail.left, hclose⟩

theorem add_sizeAll_choice (base : Nat) :
    base + Nest.sizeAll (choice pos condition body middle other close).nests =
      base + condition.plains.length + 1 + Nest.sizeAll (nestsAll body) + 2 +
        Nest.sizeAll (nestsAll other) + 1 := by
  simp only [nests, Nest.sizeAll, Nest.sizeAll_append, Nest.sizeAll_map_plain, Nest.size]
  omega

theorem placed_loop (h : PlacedAt code σ base (.loop pos condition body close)) :
    let entry := base + 1 + condition.plains.length + 1
    let back := entry + Nest.sizeAll (nestsAll body)
    code.get? base = some ⟨pos, .loop none⟩ ∧
      condition.PlacedAt code σ (base + 1) ∧
      code.get? (base + 1 + condition.plains.length) = some ⟨pos, .branch (some (back + 1))⟩ ∧
      PlacedAllAt code σ entry body ∧
      code.get? back = some ⟨close, .jump (some base)⟩ ∧
      code.get? (back + 1) = some ⟨close, .close⟩ := by
  simp only [PlacedAt, nests, Nest.codeAll, Nest.code, List.append_nil] at h
  have hexit := h.tail.right
  rw [List.length_map] at hexit
  have hback := hexit.tail.right
  rw [Nest.length_codeAll] at hback
  exact ⟨h.head, h.tail.left, hexit.head, hexit.tail.left, hback.head, hback.tail.head⟩

theorem add_sizeAll_loop (base : Nat) :
    base + Nest.sizeAll (loop pos condition body close).nests =
      base + 1 + condition.plains.length + 1 + Nest.sizeAll (nestsAll body) + 2 := by
  simp only [nests, Nest.sizeAll, Nest.size]
  omega

end Constructs

theorem placed_cons {t : Statement} {ts : List Statement}
    (h : PlacedAllAt code σ base (t :: ts)) :
    PlacedAt code σ base t ∧ PlacedAllAt code σ (base + Nest.sizeAll t.nests) ts := by
  rw [PlacedAllAt, nestsAll, Nest.codeAll_append] at h
  have hrest := h.right
  rw [Nest.length_codeAll] at hrest
  exact ⟨h.left, hrest⟩

theorem add_sizeAll_cons (base : Nat) (t : Statement) (ts : List Statement) :
    base + Nest.sizeAll (nestsAll (t :: ts)) =
      base + Nest.sizeAll t.nests + Nest.sizeAll (nestsAll ts) := by
  rw [nestsAll, Nest.sizeAll_append, Nat.add_assoc]

end Statement

end StackLang.Tree
