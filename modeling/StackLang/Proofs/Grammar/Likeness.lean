import Mathlib.Data.List.Forall2
import StackLang.Compilation

/-!
# Readers do not look at positions

What a reader does depends on the kinds of the tokens, and on the texts of names and
literals. Positions are passed on, and the texts of all other tokens are dropped. So with
any relation `R` between positions, a reader takes two streams that are alike up to `R` to
readings that are alike up to `R`: the same events in the same order, and then the same
fault, or streams that are alike again.
-/

namespace StackLang

/-- Two results of the same sort, with related values or errors. -/
inductive Likewise {ε α β : Type} (E : ε → ε → Prop) (P : α → β → Prop) :
    Except ε α → Except ε β → Prop where
  | ok {a : α} {b : β} (h : P a b) : Likewise E P (.ok a) (.ok b)
  | error {e f : ε} (h : E e f) : Likewise E P (.error e) (.error f)

/-- The same at related positions. -/
structure Located.Alike {α : Type} (R : Position → Position → Prop) (x y : Located α) : Prop where
  pos : R x.pos y.pos
  item : x.item = y.item

/-- Whether the text of a token matters besides its kind. -/
def TokenKind.isWorded : TokenKind → Bool
  | .identifier | .intLiteral | .strLiteral => true
  | _ => false

/-- The same kind, and the same text where it matters. -/
structure Token.Similar (t u : Token) : Prop where
  kind : t.kind = u.kind
  text : t.kind.isWorded = true → t.text = u.text

/-- Similar tokens at related positions. -/
structure Token.Alike (R : Position → Position → Prop) (t u : Token) : Prop
    extends Token.Similar t u where
  pos : R t.pos u.pos

structure TokenStream.Alike (R : Position → Position → Prop) (s u : TokenStream) : Prop where
  tokens : List.Forall₂ (Token.Alike R) s.tokens u.tokens
  stop : R s.stop u.stop

/-- The same events at related positions, and results of the same sort. -/
structure Reading.Alike {α β : Type} (R : Position → Position → Prop) (P : α → β → Prop)
    (x : Reading α) (y : Reading β) : Prop where
  events : List.Forall₂ (Located.Alike R) x.events y.events
  outcome : Likewise (Located.Alike R) P x.outcome y.outcome

variable {R : Position → Position → Prop}

namespace TokenStream.Alike

variable {s u : TokenStream} (h : s.Alike R u)
include h

theorem length : s.length = u.length := by
  rw [s.length_eq, u.length_eq, h.tokens.length_eq]

theorem head : s.head.Alike R u.head := by
  rcases s with ⟨ts, p⟩
  rcases u with ⟨us, q⟩
  obtain ⟨htokens, hstop⟩ := h
  cases htokens with
  | nil => exact ⟨⟨rfl, fun _ => rfl⟩, hstop⟩
  | cons hfirst hrest => exact hfirst

theorem tail : s.tail.Alike R u.tail := by
  rcases s with ⟨ts, p⟩
  rcases u with ⟨us, q⟩
  obtain ⟨htokens, hstop⟩ := h
  cases htokens with
  | nil => exact ⟨.nil, hstop⟩
  | cons hfirst hrest => exact ⟨hrest, hstop⟩

end TokenStream.Alike

namespace Reading

variable {α β γ δ : Type} {P : α → β → Prop} {Q : γ → δ → Prop}

theorem alike_pure {a : α} {b : β} (h : P a b) : (pure a : Reading α).Alike R P (pure b) :=
  ⟨.nil, .ok h⟩

theorem alike_fail {a b : Position} (h : R a b) (f : Fault) :
    (fail a f : Reading α).Alike R P (fail b f) :=
  ⟨.nil, .error ⟨h, rfl⟩⟩

theorem alike_report {a b : Position} (h : R a b) (e : Event) :
    (report a e).Alike R (fun _ _ => True) (report b e) :=
  ⟨.cons ⟨h, rfl⟩ .nil, .ok trivial⟩

theorem Alike.bind {x : Reading α} {y : Reading β} {f : α → Reading γ} {g : β → Reading δ}
    (h : x.Alike R P y) (hfg : ∀ a b, P a b → (f a).Alike R Q (g b)) :
    (x >>= f).Alike R Q (y >>= g) := by
  rcases x with ⟨es, x⟩
  rcases y with ⟨fs, y⟩
  obtain ⟨hevents, houtcome⟩ := h
  cases houtcome with
  | error herror => exact ⟨hevents, .error herror⟩
  | ok hab =>
      have hrest := hfg _ _ hab
      rw [bind_ok, bind_ok]
      exact ⟨List.rel_append hevents hrest.events, hrest.outcome⟩

end Reading

namespace Grammar

open Reading

theorem alike_peek {s u : TokenStream} (h : s.Alike R u) :
    (peek s).Alike R (Token.Alike R) (peek u) := by
  unfold peek
  rw [h.head.kind]
  split
  · exact alike_fail h.head.pos _
  · exact alike_pure h.head

/-- What a reader takes off and what it leaves. -/
def TakenAlike (R : Position → Position → Prop) (x y : Token × TokenStream) : Prop :=
  x.1.Alike R y.1 ∧ x.2.Alike R y.2

theorem alike_advance {s u : TokenStream} (h : s.Alike R u) :
    (advance s).Alike R (TakenAlike R) (advance u) :=
  (alike_peek h).bind fun _ _ ht => alike_pure ⟨ht, h.tail⟩

theorem alike_expect (kind : TokenKind) {s u : TokenStream} (h : s.Alike R u) :
    (expect kind s).Alike R (fun x y => TakenAlike R x y ∧ x.1.kind = kind) (expect kind u) := by
  refine (alike_peek h).bind fun t t' ht => ?_
  rw [← ht.kind]
  split
  · next hkind => exact alike_pure ⟨⟨ht, h.tail⟩, hkind⟩
  · exact alike_fail ht.pos _

/-- A reader that treats streams alike. -/
def Uniform (R : Position → Position → Prop) (r : Reader) : Prop :=
  ∀ s u, s.Alike R u → (r s).Alike R (TokenStream.Alike R) (r u)

/-- A token of the given kind and nothing else. -/
theorem uniform_last (kind : TokenKind) :
    Uniform R fun s => do
      let (_, rest) ← expect kind s
      return rest :=
  fun _ _ h => (alike_expect kind h).bind fun _ _ htaken => alike_pure htaken.1.2

section Expressions

theorem uniform_chain (tier : Tier) (right : Reader) (hright : Uniform R right) :
    Uniform R (chain tier right) := by
  intro s u h
  induction hlength : s.length using Nat.strongRecOn generalizing s u with
  | ind k ih =>
      rw [chain, chain]
      refine (alike_peek h).bind fun t t' ht => ?_
      rw [ht.kind]
      cases tier t'.kind with
      | none => exact alike_pure h
      | some op =>
          refine (hright _ _ h.tail).bind fun rest rest' hrest => ?_
          refine (alike_report ht.pos _).bind fun _ _ _ => ?_
          -- Both chains stop at the same time, since the streams are equally long.
          rw [← h.length, ← hrest.length]
          split
          · next hshorter => exact ih rest.length (hlength ▸ hshorter) rest rest' hrest rfl
          · exact alike_pure hrest

theorem uniform_binary (operand : Reader) (hoperand : Uniform R operand) (ts : List Tier) :
    Uniform R (binary operand ts) := by
  induction ts with
  | nil =>
      intro s u h
      refine (hoperand s u h).bind fun rest rest' hrest => ?_
      exact (alike_peek hrest).bind fun _ _ _ => alike_pure hrest
  | cons t ts ih =>
      intro s u h
      exact (ih s u h).bind fun rest rest' hrest => uniform_chain t _ ih rest rest' hrest

/-- A prefix operator and its operand. -/
theorem uniform_unary (operand : Reader) (hoperand : Uniform R operand) {a b : Position}
    (hpos : R a b) (e : Event) {s u : TokenStream} (h : s.Alike R u) :
    (do
      let rest ← operand s
      Reading.report a e
      return rest : Reading TokenStream).Alike R (TokenStream.Alike R)
      (do
        let rest ← operand u
        Reading.report b e
        return rest) :=
  (hoperand s u h).bind fun _ _ hrest => (alike_report hpos e).bind fun _ _ _ => alike_pure hrest

theorem uniform_operand (level : Nat) : Uniform R (operand level) := by
  induction level with
  | zero => exact fun s u h => (alike_advance h).bind fun _ _ htaken => alike_fail htaken.1.pos _
  | succ level ih =>
      intro s u h
      rw [operand, operand]
      refine (alike_advance h).bind ?_
      rintro ⟨⟨kind, text, a⟩, rest⟩ ⟨⟨kind', text', b⟩, rest'⟩ ⟨ht, hrest⟩
      obtain rfl : kind = kind' := ht.kind
      have hpos : R a b := ht.pos
      have hbinary := uniform_binary (operand level) ih
      cases kind with
      | identifier | intLiteral | strLiteral =>
          obtain rfl : text = text' := ht.text rfl
          exact (alike_report hpos _).bind fun _ _ _ => alike_pure hrest
      | lparen => exact (hbinary tiers rest rest' hrest).bind (uniform_last .rparen)
      | minus | bang => exact uniform_unary _ (hbinary []) hpos _ hrest
      | _ => exact alike_fail hpos _

theorem uniform_expression (level : Nat) : Uniform R (expression level) :=
  uniform_binary _ (uniform_operand level) tiers

end Expressions

section Statements

theorem uniform_block (terminators : List TokenKind) (st : Reader) (hst : Uniform R st) :
    Uniform R (block terminators st) := by
  intro s u h
  induction hlength : s.length using Nat.strongRecOn generalizing s u with
  | ind k ih =>
      rw [block, block]
      refine (alike_peek h).bind fun t t' ht => ?_
      rw [ht.kind]
      split
      · exact alike_pure h
      · refine (hst s u h).bind fun rest rest' hrest => ?_
        rw [← h.length, ← hrest.length]
        split
        · next hshorter => exact ih rest.length (hlength ▸ hshorter) rest rest' hrest rfl
        · exact alike_pure hrest

theorem alike_declaredKind {s u : TokenStream} (h : s.Alike R u) :
    (declaredKind s).Alike R (fun x y => x.1 = y.1 ∧ x.2.Alike R y.2) (declaredKind u) := by
  refine (alike_peek h).bind fun t t' ht => ?_
  rw [ht.kind]
  split
  · exact alike_pure ⟨rfl, h.tail⟩
  · exact alike_pure ⟨rfl, h.tail⟩
  · exact alike_fail ht.pos _

theorem uniform_declaration (kind : VariableKind) : Uniform R (declaration kind) := by
  intro s u h
  refine (alike_expect .identifier h).bind ?_
  rintro ⟨name, rest⟩ ⟨name', rest'⟩ ⟨⟨hname, hrest⟩, hkind⟩
  dsimp only at hname hrest hkind ⊢
  rw [hname.text (by rw [hkind]; rfl)]
  exact (alike_report hname.pos _).bind fun _ _ _ => uniform_last .semicolon rest rest' hrest

/-- An expression, the event of the statement that it belongs to, and the end of the
statement. -/
theorem alike_ended (level : Nat) {a b : Position} (hpos : R a b) (e : Event) {s u : TokenStream}
    (h : s.Alike R u) :
    (do
      let rest ← expression level s
      Reading.report a e
      let (_, rest) ← expect .semicolon rest
      return rest : Reading TokenStream).Alike R (TokenStream.Alike R)
      (do
        let rest ← expression level u
        Reading.report b e
        let (_, rest) ← expect .semicolon rest
        return rest) :=
  (uniform_expression level s u h).bind fun rest rest' hrest =>
    (alike_report hpos e).bind fun _ _ _ => uniform_last .semicolon rest rest' hrest

theorem alike_assignment (level : Nat) {name name' : Token} (hname : name.Alike R name')
    (hkind : name.kind = .identifier) {s u : TokenStream} (h : s.Alike R u) :
    (assignment name level s).Alike R (TokenStream.Alike R) (assignment name' level u) := by
  rw [assignment, assignment, hname.text (by rw [hkind]; rfl)]
  refine (alike_report hname.pos _).bind fun _ _ _ => ?_
  exact (alike_expect .assign h).bind fun _ _ htaken =>
    alike_ended level htaken.1.1.pos .assign htaken.1.2

theorem uniform_closing : Uniform R closing := fun _ _ h =>
  (alike_expect _ h).bind fun _ _ htaken => (alike_report htaken.1.1.pos .close).bind fun _ _ _ =>
    uniform_last .semicolon _ _ htaken.1.2

theorem uniform_alternative (st : Reader) (hst : Uniform R st) : Uniform R (alternative st) := by
  intro s u h
  refine (alike_peek h).bind fun t t' ht => ?_
  rw [ht.kind]
  split
  · exact (alike_report ht.pos _).bind fun _ _ _ => uniform_block _ st hst _ _ h.tail
  · exact alike_pure h

theorem uniform_statement (level : Nat) : Uniform R (statement level) := by
  induction level with
  | zero => exact fun s u h => (alike_advance h).bind fun _ _ htaken => alike_fail htaken.1.pos _
  | succ level ih =>
      intro s u h
      rw [statement, statement]
      refine (alike_advance h).bind ?_
      rintro ⟨⟨kind, text, a⟩, rest⟩ ⟨⟨kind', text', b⟩, rest'⟩ ⟨ht, hrest⟩
      obtain rfl : kind = kind' := ht.kind
      have hpos : R a b := ht.pos
      have hexpression := uniform_expression level rest rest' hrest
      cases kind with
      | identifier => exact alike_assignment level ht rfl hrest
      | keyword k =>
          cases k with
          | declare =>
              refine (alike_declaredKind hrest).bind ?_
              rintro ⟨kind, rest⟩ ⟨kind', rest'⟩ ⟨rfl, hrest⟩
              exact uniform_declaration kind rest rest' hrest
          | integer => exact uniform_declaration .integer rest rest' hrest
          | string => exact uniform_declaration .string rest rest' hrest
          | print => exact alike_ended level hpos .print hrest
          | branch =>
              refine hexpression.bind fun rest rest' hrest => ?_
              refine (alike_report hpos _).bind fun _ _ _ => ?_
              refine (uniform_block _ _ ih rest rest' hrest).bind fun rest rest' hrest => ?_
              exact (uniform_alternative _ ih rest rest' hrest).bind uniform_closing
          | loop =>
              refine (alike_report hpos _).bind fun _ _ _ => ?_
              refine hexpression.bind fun rest rest' hrest => ?_
              refine (alike_report hpos _).bind fun _ _ _ => ?_
              exact (uniform_block _ _ ih rest rest' hrest).bind uniform_closing
          | _ => exact alike_fail hpos _
      | _ => exact alike_fail hpos _

/-- Streams that are alike make readings that are alike. -/
theorem alike_program {s u : TokenStream} (h : s.Alike R u) :
    (program s).Alike R Eq (program u) := by
  refine (uniform_block [] _ (uniform_statement maxLevel) s u h).bind fun rest rest' hrest => ?_
  exact (alike_expect .eof hrest).bind fun _ _ _ => alike_pure rfl

end Statements

end Grammar

end StackLang
