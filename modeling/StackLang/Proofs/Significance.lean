import StackLang.Proofs.Chain
import StackLang.Proofs.Draft.Likeness
import StackLang.Proofs.Machine.Frame

/-!
# Only the significant tokens matter

Two texts whose significant tokens have the same kinds, and the same texts where these
matter, are the same program up to positions, or are refused for the same reason; and
their runs show the same. They can differ in blanks, comments and lines, in the spelling of
assignments and inequalities, and in the escapes of their literals. A position on one side
belongs to the token with the same ordinal as on the other side.
-/

namespace StackLang

/-- The positions of two tokens with the same ordinal. -/
def SameOrdinal (ts us : List Token) (a b : Position) : Prop :=
  ∃ (i : Nat) (t u : Token), ts[i]? = some t ∧ us[i]? = some u ∧ a = t.pos ∧ b = u.pos

instance (t u : Token) : Decidable (t.Similar u) :=
  decidable_of_iff (t.kind = u.kind ∧ (t.kind.isWorded = true → t.text = u.text))
    ⟨fun h => ⟨h.1, h.2⟩, fun h => ⟨h.kind, h.text⟩⟩

/-- Similar tokens with the same ordinal are alike. -/
theorem alike_of_similar {ts us : List Token} (h : List.Forall₂ Token.Similar ts us) :
    List.Forall₂ (Token.Alike (SameOrdinal ts us)) ts us := by
  rw [List.forall₂_iff_get] at h ⊢
  obtain ⟨hlength, hsimilar⟩ := h
  refine ⟨hlength, fun i hi hi' => ⟨hsimilar i hi hi', i, _, _, ?_, ?_, rfl, rfl⟩⟩
  · simp
  · simp

/-- The end of a text is a token like the others. -/
theorem TokenStream.alike_of_toList {R : Position → Position → Prop} {s u : TokenStream}
    (h : List.Forall₂ (Token.Alike R) s.toList u.toList) : s.Alike R u := by
  have hlength : s.tokens.length = u.tokens.length := by
    simpa [TokenStream.toList] using h.length_eq
  have htokens := List.forall₂_take s.tokens.length h
  have hstop := List.forall₂_drop s.tokens.length h
  rw [TokenStream.toList, TokenStream.toList, List.take_left] at htokens
  rw [TokenStream.toList, TokenStream.toList, List.drop_left] at hstop
  rw [hlength, List.take_left] at htokens
  rw [hlength, List.drop_left, List.forall₂_cons] at hstop
  exact ⟨htokens, hstop.1.pos⟩

namespace Machine

variable {R : Position → Position → Prop} {p q : Program} {m m' : Machine}

/-- The same machine, up to the position of the fault. -/
structure Alike (R : Position → Position → Prop) (m m' : Machine) : Prop where
  counter : m.counter = m'.counter
  stack : m.stack = m'.stack
  store : m.store = m'.store
  sink : m.sink = m'.sink
  fault : Option.Rel (Located.Alike R) m.fault m'.fault

theorem alike_of_fault_eq_none (h : m.fault = none) : m.Alike R m := by
  refine ⟨rfl, rfl, rfl, rfl, ?_⟩
  rw [h]
  exact .none

theorem Alike.eq_of_fault_eq_none (h : m.Alike R m') (hfault : m.fault = none) : m = m' := by
  rcases m with ⟨counter, stack, store, sink, fault⟩
  rcases m' with ⟨counter', stack', store', sink', fault'⟩
  obtain ⟨rfl, rfl, rfl, rfl, hrel⟩ := h
  subst hfault
  cases hrel
  rfl

/-- Of the program, an operation uses the size only. -/
theorem execute_eq_of_size_eq (h : p.size = q.size) (op : Operation) : execute p op = execute q op := by
  have hlanding (t : Option Nat) : landing p t = landing q t := by
    cases t with
    | none => rfl
    | some t => rw [landing, landing, h]
  cases op with
  | branch t => simp only [execute, hlanding]
  | jump t => exact hlanding t
  | _ => rfl

theorem rel_get? (hpq : p.Alike R q) (c : Nat) :
    Option.Rel (Instruction.Alike R) (p.code.get? c) (q.code.get? c) := by
  rw [Chain.get?_eq_getElem?, Chain.get?_eq_getElem?]
  have hcode := hpq.code
  generalize p.code.toList = is at hcode
  generalize q.code.toList = js at hcode
  induction hcode generalizing c with
  | nil => exact .none
  | cons hij hrest ih =>
      cases c with
      | zero => exact .some hij
      | succ c => exact ih c

/-- Steps of programs that are alike. -/
theorem Alike.step (hpq : p.Alike R q) (h : m.Alike R m') : (m.step p).Alike R (m'.step q) := by
  have hsize : p.size = q.size := hpq.code.length_eq
  cases hfault : m.fault with
  | some f =>
      cases hfault' : m'.fault with
      | none =>
          have hrel := h.fault
          rw [hfault, hfault'] at hrel
          cases hrel
      | some f' =>
          rw [step_of_current?_eq_none p m (by rw [current?, hfault]),
            step_of_current?_eq_none q m' (by rw [current?, hfault'])]
          exact h
  | none =>
      obtain rfl := h.eq_of_fault_eq_none hfault
      have hcurrent : Option.Rel (Instruction.Alike R) (m.current? p) (m.current? q) := by
        rw [current?, current?, hfault]
        exact rel_get? hpq m.counter
      rw [step, step]
      generalize m.current? p = i at hcurrent
      generalize m.current? q = j at hcurrent
      cases hcurrent with
      | none => exact h
      | @some i j hij =>
          have hframed := framed_execute p i.op m
          simp only [← hij.op, ← execute_eq_of_size_eq hsize]
          cases hexecute : execute p i.op m with
          | ok next m' =>
              rw [hexecute] at hframed
              exact alike_of_fault_eq_none (hframed.1.fault.trans hfault)
          | error e m' => exact ⟨rfl, rfl, rfl, rfl, .some ⟨hij.pos, rfl⟩⟩

theorem Alike.run (hpq : p.Alike R q) (h : m.Alike R m') (n : Nat) :
    (m.run p n).Alike R (m'.run q n) := by
  induction n with
  | zero => exact h
  | succ n ih =>
      rw [run_succ_last, run_succ_last]
      exact ih.step hpq

end Machine

namespace Program

/-- Texts with similar significant tokens have the same program up to the positions of
their tokens, and the same runs, or the same fault. -/
theorem ofSource_alike (source source' : String)
    (h : List.Forall₂ Token.Similar (TokenStream.ofSource source).significant.toList
      (TokenStream.ofSource source').significant.toList) :
    let R := SameOrdinal (TokenStream.ofSource source).significant.toList
      (TokenStream.ofSource source').significant.toList
    Likewise (Located.Alike R) (Program.Alike R) (ofSource source) (ofSource source') ∧
      ∀ p q, ofSource source = .ok p → ofSource source' = .ok q →
        ∀ m : Machine, m.fault = none → ∀ n, (m.run p n).Alike R (m.run q n) := by
  intro R
  have hstream : (TokenStream.ofSource source).significant.Alike R
      (TokenStream.ofSource source').significant :=
    TokenStream.alike_of_toList (alike_of_similar h)
  have hprogram : Likewise (Located.Alike R) (Program.Alike R) (ofSource source)
      (ofSource source') := (Grammar.alike_program hstream).compile
  refine ⟨hprogram, ?_⟩
  intro p q hp hq m hfault n
  rw [hp, hq] at hprogram
  cases hprogram with
  | ok hpq => exact (Machine.alike_of_fault_eq_none hfault).run hpq n

/-- A text, and one that is spelled and laid out in another way. -/
def plainText : String := "string s; s := \"ab\"; if 1 <> 2 print s / 2; end;"

def spacedText : String := "string s;\n  s = \"\\a\\b\"; // twice\nif 1 != 2\n  print s/2;\nend;"

theorem ofSource_alike_spacedText :
    List.Forall₂ Token.Similar (TokenStream.ofSource plainText).significant.toList
        (TokenStream.ofSource spacedText).significant.toList ∧
      let R := SameOrdinal (TokenStream.ofSource plainText).significant.toList
        (TokenStream.ofSource spacedText).significant.toList
      Likewise (Located.Alike R) (Program.Alike R) (ofSource plainText) (ofSource spacedText) ∧
        ∀ p q, ofSource plainText = .ok p → ofSource spacedText = .ok q →
          ∀ m : Machine, m.fault = none → ∀ n, (m.run p n).Alike R (m.run q n) := by
  have hsimilar : List.Forall₂ Token.Similar (TokenStream.ofSource plainText).significant.toList
      (TokenStream.ofSource spacedText).significant.toList := by decide +kernel
  exact ⟨hsimilar, ofSource_alike plainText spacedText hsimilar⟩

example : (ofSource plainText).isOk = true := by decide +kernel

end Program

end StackLang
