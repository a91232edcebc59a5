import StackLang.Proofs.Machine.Frame
import StackLang.Proofs.Tree.Placement

/-!
# How high the stack is

Every instruction raises or lowers the stack by a fixed amount, so the height at an index
can be read off a program by going through it from the front, without regard to jumps.
Where all jumps lead to an index of the same height (`Level`), this is the height of the
stack in every run. The code of an expression raises the stack by one, that of a statement
leaves it where it was, and so jumps from the end of one statement to the start of another
are level.
-/

namespace StackLang

open StackLang.Tree

/-- How much higher the stack is behind an instruction. -/
def Instruction.rise (i : Instruction) : Int := i.op.pushed - i.op.taken

namespace Program

/-- The height of the stack at an index, counted from the first instruction. -/
def height (p : Program) (c : Nat) : Int :=
  (p.code.toList.take c).foldl (fun h i => h + i.rise) 0

variable {p : Program}

@[simp] theorem height_zero (p : Program) : p.height 0 = 0 := rfl

theorem height_succ {c : Nat} {i : Instruction} (h : p.code.get? c = some i) :
    p.height (c + 1) = p.height c + i.rise := by
  rw [Chain.get?_eq_getElem?] at h
  simp [height, List.take_add_one, h]

/-- Markers, jumps and declarations leave the height as it is. -/
theorem height_still {c : Nat} {i : Instruction} (h : p.code.get? c = some i) (hi : i.rise = 0) :
    p.height (c + 1) = p.height c := by
  rw [height_succ h, hi, Int.add_zero]

/-- The heights that a program counts are those that its runs have. -/
structure Level (p : Program) : Prop where
  /-- Every jump leads to an index of the height that is behind it. -/
  jumps : ∀ c i t, p.code.get? c = some i → i.op.target? = some t → p.height t = p.height (c + 1)
  /-- No instruction takes more operands than there are. -/
  taken : ∀ c i, p.code.get? c = some i → i.op.taken ≤ p.height c

/-- The code from `a` up to `b` raises the stack by `d` and is level. -/
structure Rises (p : Program) (a b : Nat) (d : Int) : Prop where
  height : p.height b = p.height a + d
  jumps : ∀ c i t, a ≤ c → c < b → p.code.get? c = some i → i.op.target? = some t →
    p.height t = p.height (c + 1)
  taken : ∀ c i, a ≤ c → c < b → p.code.get? c = some i → i.op.taken ≤ p.height c

namespace Rises

variable {a b c : Nat} {d d' : Int}

theorem refl (p : Program) (a : Nat) : p.Rises a a 0 where
  height := (Int.add_zero _).symm
  jumps := by
    intro c i t hac hca
    omega
  taken := by
    intro c i hac hca
    omega

theorem trans (h : p.Rises a b d) (h' : p.Rises b c d') : p.Rises a c (d + d') where
  height := by rw [h'.height, h.height, Int.add_assoc]
  jumps := by
    intro k i t hak hkc hi ht
    rcases Nat.lt_or_ge k b with hkb | hbk
    · exact h.jumps k i t hak hkb hi ht
    · exact h'.jumps k i t hbk hkc hi ht
  taken := by
    intro k i hak hkc hi
    rcases Nat.lt_or_ge k b with hkb | hbk
    · exact h.taken k i hak hkb hi
    · exact h'.taken k i hbk hkc hi

/-- One instruction. -/
theorem single {i : Instruction} (hi : p.code.get? a = some i) (htaken : i.op.taken ≤ p.height a)
    (hjumps : ∀ t, i.op.target? = some t → p.height t = p.height (a + 1)) :
    p.Rises a (a + 1) i.rise where
  height := height_succ hi
  jumps := by
    intro c j t hac hca hj ht
    obtain rfl : c = a := by omega
    obtain rfl := Option.some.inj (hi.symm.trans hj)
    exact hjumps t ht
  taken := by
    intro c j hac hca hj
    obtain rfl : c = a := by omega
    obtain rfl := Option.some.inj (hi.symm.trans hj)
    exact htaken

/-- One instruction that does not jump. -/
theorem straight {i : Instruction} (hi : p.code.get? a = some i) (hop : i.op.target? = none)
    (htaken : i.op.taken ≤ p.height a) : p.Rises a (a + 1) i.rise :=
  single hi htaken fun t ht => by simp [hop] at ht

end Rises

section Constructs

variable {base c n n' : Nat} {pos middle close : Position}

/-- A conditional exit, behind its condition. -/
theorem rises_exit {t : Nat} (hbase : 0 ≤ p.height base) (hcondition : p.Rises base c 1)
    (hexit : p.code.get? c = some ⟨pos, .branch (some t)⟩) (ht : p.height t = p.height (c + 1)) :
    p.Rises base (c + 1) 0 := by
  have hheight := hcondition.height
  refine hcondition.trans (Rises.single hexit ?_ ?_)
  · simp only [Operation.taken]
    omega
  · rintro t ⟨⟩
    exact ht

theorem height_exit {t : Nat} (hcondition : p.Rises base c 1)
    (hexit : p.code.get? c = some ⟨pos, .branch (some t)⟩) : p.height (c + 1) = p.height base := by
  rw [height_succ hexit, hcondition.height]
  simp only [Instruction.rise, Operation.pushed, Operation.taken]
  omega

theorem rises_branch (hbase : 0 ≤ p.height base) (hcondition : p.Rises base c 1)
    (hexit : p.code.get? c = some ⟨pos, .branch (some (c + 1 + n))⟩)
    (hbody : p.Rises (c + 1) (c + 1 + n) 0)
    (hclose : p.code.get? (c + 1 + n) = some ⟨close, .close⟩) :
    p.Rises base (c + 1 + n + 1) 0 := by
  have hhead := rises_exit hbase hcondition hexit (by rw [hbody.height, Int.add_zero])
  have hround := hhead.trans hbody
  refine hround.trans (Rises.straight hclose rfl ?_)
  rw [hround.height]
  simpa [Operation.taken] using hbase

theorem rises_choice (hbase : 0 ≤ p.height base) (hcondition : p.Rises base c 1)
    (hexit : p.code.get? c = some ⟨pos, .branch (some (c + 1 + n + 1))⟩)
    (hbody : p.Rises (c + 1) (c + 1 + n) 0)
    (hskip : p.code.get? (c + 1 + n) = some ⟨middle, .jump (some (c + 1 + n + 2 + n'))⟩)
    (hmarker : p.code.get? (c + 1 + n + 1) = some ⟨middle, .otherwise⟩)
    (hother : p.Rises (c + 1 + n + 2) (c + 1 + n + 2 + n') 0)
    (hclose : p.code.get? (c + 1 + n + 2 + n') = some ⟨close, .close⟩) :
    p.Rises base (c + 1 + n + 2 + n' + 1) 0 := by
  have hskipped := height_still hskip rfl
  have hmarked := height_still hmarker rfl
  have hhead := rises_exit hbase hcondition hexit (by rw [hskipped, hbody.height, Int.add_zero])
  have hfirst := hhead.trans hbody
  have hlevel : p.height (c + 1 + n) = p.height base := by simpa using hfirst.height
  have hjump : p.Rises (c + 1 + n) (c + 1 + n + 1) 0 := by
    refine Rises.single hskip (by rw [hlevel]; exact hbase) ?_
    rintro t ⟨⟩
    rw [hother.height, hmarked, Int.add_zero]
  have hmark : p.Rises (c + 1 + n + 1) (c + 1 + n + 2) 0 :=
    Rises.straight hmarker rfl (by rw [hskipped, hlevel]; exact hbase)
  have hsecond := ((hfirst.trans hjump).trans hmark).trans hother
  refine hsecond.trans (Rises.straight hclose rfl ?_)
  rw [hsecond.height]
  simpa [Operation.taken] using hbase

theorem rises_loop (hbase : 0 ≤ p.height base)
    (hhead : p.code.get? base = some ⟨pos, .loop none⟩) (hcondition : p.Rises (base + 1) c 1)
    (hexit : p.code.get? c = some ⟨pos, .branch (some (c + 1 + n + 1))⟩)
    (hbody : p.Rises (c + 1) (c + 1 + n) 0)
    (hjump : p.code.get? (c + 1 + n) = some ⟨close, .jump (some base)⟩)
    (hclose : p.code.get? (c + 1 + n + 1) = some ⟨close, .close⟩) :
    p.Rises base (c + 1 + n + 2) 0 := by
  have hmark : p.Rises base (base + 1) 0 := Rises.straight hhead rfl hbase
  have hjumped := height_still hjump rfl
  have hentered : 0 ≤ p.height (base + 1) := by rwa [height_still hhead rfl]
  have hcheck :=
    rises_exit hentered hcondition hexit (by rw [hjumped, hbody.height, Int.add_zero])
  have hround := (hmark.trans hcheck).trans hbody
  have hlevel : p.height (c + 1 + n) = p.height base := by simpa using hround.height
  -- The jump back closes the circle: one round leaves the stack where it was.
  have hback : p.Rises (c + 1 + n) (c + 1 + n + 1) 0 := by
    refine Rises.single hjump (by rw [hlevel]; exact hbase) ?_
    rintro t ⟨⟩
    rw [hjumped, hlevel]
  refine (hround.trans hback).trans (Rises.straight hclose rfl ?_)
  rw [hjumped, hlevel]
  exact hbase

end Constructs

/-- An operator behind its operands. -/
theorem rises_operator {a c : Nat} {pos : Position} {op : Operator}
    (ha : 0 ≤ p.height a) (hoperands : p.Rises a c op.arity)
    (hop : p.code.get? c = some ⟨pos, .operator op⟩) : p.Rises a (c + 1) 1 := by
  have hheight := hoperands.height
  have hall := hoperands.trans (Rises.straight hop rfl (by simp only [Operation.taken]; omega))
  convert hall using 1
  simp only [Instruction.rise, Operation.pushed, Operation.taken]
  omega

/-- The code of an expression leaves one operand. -/
theorem rises_plains (e : Expression) : ∀ base : Nat, 0 ≤ p.height base →
    e.PlacedAt p.code p.store base → p.Rises base (base + e.plains.length) 1 := by
  induction e with
  | read name => exact fun base hbase hcode => Rises.straight hcode.head rfl hbase
  | integer numeral => exact fun base hbase hcode => Rises.straight hcode.head rfl hbase
  | string text => exact fun base hbase hcode => Rises.straight hcode.head rfl hbase
  | group inner ih => exact ih
  | unary op operand ih =>
      intro base hbase hcode
      obtain ⟨hoperand, hop⟩ := Expression.placed_unary hcode
      have harity : op.item.toOperator.arity = 1 := by cases op.item <;> rfl
      have hrises := ih base hbase hoperand
      rw [Expression.plains, List.length_append, ← Nat.add_assoc]
      exact rises_operator hbase (by rwa [harity]) hop
  | binary op left right ihl ihr =>
      intro base hbase hcode
      obtain ⟨hleft, hright, hop⟩ := Expression.placed_binary hcode
      have harity : op.item.toOperator.arity = 2 := by cases op.item <;> rfl
      have hfirst := ihl base hbase hleft
      have hheight := hfirst.height
      have hboth := hfirst.trans (ihr _ (by omega) hright)
      rw [Expression.plains, List.length_append, List.length_append, ← Nat.add_assoc,
        ← Nat.add_assoc]
      exact rises_operator hbase (by rwa [harity]) hop

mutual

/-- The code of a statement leaves the stack as high as it was. -/
theorem rises_nests : ∀ (t : Statement) (base : Nat), 0 ≤ p.height base →
    t.PlacedAt p.code p.store base → p.Rises base (base + Nest.sizeAll t.nests) 0
  | .declare kind name, base, hbase, hcode => Rises.straight hcode.head rfl hbase
  | .assign name pos value, base, hbase, hcode => by
      obtain ⟨htarget, hvalue, hassign⟩ := Statement.placed_assign hcode
      have hnamed : p.Rises base (base + 1) 1 := Rises.straight htarget rfl hbase
      have hheight := hnamed.height
      have hboth := hnamed.trans (rises_plains value _ (by omega) hvalue)
      have hheight' := hboth.height
      rw [Statement.add_sizeAll_assign]
      exact hboth.trans (Rises.straight hassign rfl (by simp only [Operation.taken]; omega))
  | .print pos value, base, hbase, hcode => by
      obtain ⟨hvalue, hprint⟩ := Statement.placed_print hcode
      have hrises := rises_plains value _ hbase hvalue
      have hheight := hrises.height
      rw [Statement.add_sizeAll_print]
      exact hrises.trans (Rises.straight hprint rfl (by simp only [Operation.taken]; omega))
  | .branch pos condition body close, base, hbase, hcode => by
      obtain ⟨hcondition, hexit, hbody, hclose⟩ := Statement.placed_branch hcode
      have htest := rises_plains condition _ hbase hcondition
      have hinner := rises_nestsAll body _ (by rwa [height_exit htest hexit]) hbody
      rw [Statement.add_sizeAll_branch]
      exact rises_branch hbase htest hexit hinner hclose
  | .choice pos condition body middle other close, base, hbase, hcode => by
      obtain ⟨hcondition, hexit, hbody, hskip, hmarker, hother, hclose⟩ :=
        Statement.placed_choice hcode
      have htest := rises_plains condition _ hbase hcondition
      have hentry := height_exit htest hexit
      have hfirst := rises_nestsAll body _ (by rwa [hentry]) hbody
      have hsecond := rises_nestsAll other _
        (by rwa [height_still hmarker rfl, height_still hskip rfl, hfirst.height, Int.add_zero,
          hentry])
        hother
      rw [Statement.add_sizeAll_choice]
      exact rises_choice hbase htest hexit hfirst hskip hmarker hsecond hclose
  | .loop pos condition body close, base, hbase, hcode => by
      obtain ⟨hhead, hcondition, hexit, hbody, hback, hclose⟩ := Statement.placed_loop hcode
      have hentered : 0 ≤ p.height (base + 1) := by rwa [height_still hhead rfl]
      have htest := rises_plains condition _ hentered hcondition
      have hinner := rises_nestsAll body _ (by rwa [height_exit htest hexit]) hbody
      rw [Statement.add_sizeAll_loop]
      exact rises_loop hbase hhead htest hexit hinner hback hclose

theorem rises_nestsAll : ∀ (ts : List Statement) (base : Nat), 0 ≤ p.height base →
    Statement.PlacedAllAt p.code p.store base ts →
    p.Rises base (base + Nest.sizeAll (Statement.nestsAll ts)) 0
  | [], base, _, _ => Rises.refl p base
  | t :: ts, base, hbase, hcode => by
      obtain ⟨hhead, hrest⟩ := Statement.placed_cons hcode
      have hfirst := rises_nests t base hbase hhead
      have hheight := hfirst.height
      rw [Statement.add_sizeAll_cons]
      exact hfirst.trans (rises_nestsAll ts _ (by omega) hrest)

end

end Program

namespace Machine

variable {p : Program} {m : Machine}

theorem fault_of_step (h : (m.step p).fault = none) : m.fault = none := by
  cases hfault : m.fault with
  | none => rfl
  | some f =>
      rw [step_of_current?_eq_none p m (by rw [current?, hfault]), hfault] at h
      cases h

/-- A step keeps the stack as high as the program says. -/
theorem height_of_step (hlevel : p.Level) (bottom : Int)
    (hheight : m.stack.length = p.height m.counter + bottom) (hfault : (m.step p).fault = none) :
    (m.step p).stack.length = p.height (m.step p).counter + bottom := by
  obtain ⟨-, hstep⟩ | ⟨i, hcurrent, ⟨next, m', hexecute, hstep⟩ | ⟨e, m', -, hstep⟩⟩ :=
    step_cases p m
  · rw [hstep]
    exact hheight
  · have hcode := get?_of_current? hcurrent
    have hframed := framed_execute p i.op m
    rw [hexecute] at hframed
    obtain ⟨hmoves, hleads, -⟩ := hframed
    have hnext : p.height next = p.height (m.counter + 1) := by
      rcases hleads with rfl | htarget
      · rfl
      · exact hlevel.jumps m.counter i next hcode htarget
    have hmoved := hmoves.height
    rw [hstep]
    simp only [hnext, Program.height_succ hcode, Instruction.rise]
    omega
  · rw [hstep] at hfault
    cases hfault

/-- In a run without a fault the stack is as high as the program says at every time. -/
theorem height_of_run (hlevel : p.Level) (bottom : Int)
    (hheight : m.stack.length = p.height m.counter + bottom) :
    ∀ n, (m.run p n).fault = none →
      (m.run p n).stack.length = p.height (m.run p n).counter + bottom := by
  intro n
  induction n with
  | zero => exact fun _ => hheight
  | succ n ih =>
      intro hfault
      rw [run_succ_last] at hfault ⊢
      exact height_of_step hlevel bottom (ih (fault_of_step hfault)) hfault

end Machine

end StackLang
