import StackLang.Proofs.Grammar.Likeness
import StackLang.Proofs.Grammar.Soundness

/-!
# Readers do not look ahead

A reader looks at one token after the other and never at a later one before it has to. To
say so, a text is cut at some place: what lies beyond is told by the positions there, and
may be replaced by anything else. Reading both texts goes the same way up to the first look
beyond the cut. From then on the second text does not count any more, and whatever is still
to be found fault with in the first lies beyond: the tokens that are refused by the grammar,
and the events that a draft may refuse. An operator, an assignment or the head of a
construct may be reported late, at a token from before the cut, but no draft refuses it.
-/

namespace StackLang

/-- Whether a draft may refuse the event where all constructs are matched and all operators
are known. -/
def Event.isDoubtful : Event → Bool
  | .declare _ _ | .target _ | .read _ | .integer _ => true
  | _ => false

theorem TokenKind.exists_of_isError (k : TokenKind) (h : k.isError = true) : ∃ e, k = .error e := by
  cases k with
  | error e => exact ⟨e, rfl⟩
  | _ => cases h

/-- All tokens of the stream lie beyond. -/
def TokenStream.Beyond (far : Position → Prop) (s : TokenStream) : Prop :=
  ∀ t ∈ s.toList, far t.pos

theorem TokenStream.Beyond.head {far : Position → Prop} {s : TokenStream} (h : s.Beyond far) :
    far s.head.pos := by
  refine h s.head ?_
  rcases s with ⟨tokens, stop, length, hlength⟩
  cases tokens with
  | nil => exact List.mem_singleton_self _
  | cons t ts => exact List.mem_cons_self

theorem TokenStream.Beyond.tail {far : Position → Prop} {s : TokenStream} (h : s.Beyond far) :
    s.tail.Beyond far := by
  intro t ht
  refine h t ?_
  rcases s with ⟨tokens, stop, length, hlength⟩
  cases tokens with
  | nil => exact ht
  | cons u ts => exact List.mem_cons_of_mem u ht

theorem TokenStream.Splits.head {s rest : TokenStream} {t : Token} {ts : List Token}
    (h : s.Splits (t :: ts) rest) : s.head = t := by
  rw [TokenStream.head, h.1]
  rfl

theorem TokenStream.Splits.tail {s rest : TokenStream} {t : Token} {ts : List Token}
    (h : s.Splits (t :: ts) rest) : s.tail.Splits ts rest :=
  ⟨congrArg List.tail h.1, h.2⟩

theorem TokenStream.Splits.beyond {far : Position → Prop} {s rest : TokenStream}
    (h : s.Splits [] rest) (hrest : rest.Beyond far) : s.Beyond far := by
  have htokens : s.toList = rest.toList := by
    rw [TokenStream.toList, TokenStream.toList, TokenStream.eof, TokenStream.eof, h.1, h.2]
    rfl
  rwa [TokenStream.Beyond, htokens]

namespace Reading

variable {α β : Type} {far : Position → Prop} {near : Bool}

/-- Whatever there is to find fault with lies beyond. -/
structure Beyond (far : Position → Prop) (F : α → Prop) (x : Reading α) : Prop where
  events : ∀ e ∈ x.events, e.item.isDoubtful = true → far e.pos
  error : ∀ e, x.outcome = .error e → far e.pos
  ok : ∀ a, x.outcome = .ok a → F a

/-- Two readings before the first look beyond the cut (`near`), or behind it. Before it they
go the same way, either to the end or up to the look; behind it only the first reading
counts. -/
inductive Agree (far : Position → Prop) (P : Bool → α → α → Prop) :
    Bool → Reading α → Reading α → Prop where
  | together {es : List (Located Event)} {x y : Except (Located Fault) α}
      (h : Likewise Eq (P true) x y) : Agree far P true ⟨es, x⟩ ⟨es, y⟩
  | parted {es : List (Located Event)} {x y : Reading α} (hes : es <+: y.events)
      (h : x.Beyond far fun a => P false a a) : Agree far P true ⟨es ++ x.events, x.outcome⟩ y
  | beyond {x y : Reading α} (h : x.Beyond far fun a => P false a a) : Agree far P false x y

variable {P : Bool → α → α → Prop} {Q : Bool → β → β → Prop}

theorem beyond_pure {F : α → Prop} {a : α} (h : F a) : (pure a : Reading α).Beyond far F :=
  ⟨by simp [pure_eq], by simp [pure_eq], by simpa [pure_eq] using h⟩

theorem beyond_fail {F : α → Prop} {p : Position} {f : Fault} (h : far p) :
    (fail p f : Reading α).Beyond far F :=
  ⟨by simp [fail], by simpa [fail] using h, by simp [fail]⟩

theorem Beyond.bind {F : α → Prop} {G : β → Prop} {x : Reading α} {f : α → Reading β}
    (h : x.Beyond far F) (hf : ∀ a, F a → (f a).Beyond far G) : (x >>= f).Beyond far G := by
  rcases x with ⟨es, e | a⟩
  · refine ⟨h.events, ?_, by simp [bind_error]⟩
    intro e' he'
    exact h.error e' (congrArg Except.error (Except.error.inj he'))
  · have hrest := hf a (h.ok a rfl)
    refine ⟨?_, hrest.error, hrest.ok⟩
    intro e he
    rcases List.mem_append.mp he with he | he
    · exact h.events e he
    · exact hrest.events e he

theorem events_prefix_bind (x : Reading α) (f : α → Reading β) :
    x.events <+: (x >>= f).events := by
  rcases x with ⟨es, e | a⟩
  · exact List.prefix_refl es
  · exact List.prefix_append es _

theorem agree_pure {a b : α} (h : P near a b) (hleft : P false a b → P false a a) :
    (pure a : Reading α).Agree far P near (pure b) := by
  cases near with
  | true => exact .together (.ok h)
  | false => exact .beyond (beyond_pure (hleft h))

theorem agree_fail (p : Position) (f : Fault) (h : near = false → far p) :
    (fail p f : Reading α).Agree far P near (fail p f) := by
  cases near with
  | true => exact .together (.error rfl)
  | false => exact .beyond (beyond_fail (h rfl))

/-- Behind the cut the second reading does not count. -/
theorem Agree.replace {x y z : Reading α} (h : x.Agree far P false y) : x.Agree far P false z := by
  cases h with
  | beyond h => exact .beyond h

/-- Events that both have reported before. -/
theorem Agree.after {x y : Reading α} (h : x.Agree far P true y) (es : List (Located Event)) :
    Agree far P true ⟨es ++ x.events, x.outcome⟩ ⟨es ++ y.events, y.outcome⟩ := by
  cases h with
  | together h => exact .together h
  | @parted fs x y hfs h =>
      rw [← List.append_assoc]
      exact .parted ((List.prefix_append_right_inj es).mpr hfs) h

theorem Agree.bind {x y : Reading α} {f g : α → Reading β} (h : x.Agree far P near y)
    (hfg : ∀ near', (near' = true → near = true) → ∀ a b, P near' a b →
      (f a).Agree far Q near' (g b)) : (x >>= f).Agree far Q near (y >>= g) := by
  have hbeyond (a : α) (ha : P false a a) : (f a).Beyond far fun b => Q false b b := by
    cases hfg false (by simp) a a ha with
    | beyond h => exact h
  cases h with
  | @together es x y h =>
      cases h with
      | error h => exact .together (.error h)
      | ok h => exact (hfg true (fun _ => rfl) _ _ h).after es
  | @parted es x y hes h =>
      have hrest := Agree.parted (P := Q) (hes.trans (events_prefix_bind y g)) (h.bind hbeyond)
      rcases x with ⟨fs, e | a⟩
      · exact hrest
      · rwa [bind_ok, ← List.append_assoc] at hrest
  | beyond h => exact .beyond (h.bind hbeyond)

/-- Reporting an event and going on. -/
theorem Agree.report {p : Position} {e : Event} {f g : Unit → Reading β}
    (hlate : near = false → e.isDoubtful = true → far p) (h : (f ()).Agree far Q near (g ())) :
    (Reading.report p e >>= f).Agree far Q near (Reading.report p e >>= g) := by
  cases near with
  | true => exact h.after [⟨p, e⟩]
  | false =>
      cases h with
      | beyond h =>
          refine .beyond ⟨?_, h.error, h.ok⟩
          intro e' he'
          rcases List.mem_cons.mp he' with rfl | he'
          · exact hlate rfl
          · exact h.events e' he'

end Reading

namespace Grammar

open Reading

variable {far : Position → Prop} {tail tail' : TokenStream} {near : Bool} {s u : TokenStream}

/-- Two streams to read on from. Before the first look beyond the cut they share tokens, with
`tail` and `tail'` behind these, and the cut lies before `tail` unless an invalid token among
those shared keeps the reader from going there. Behind the cut the first stream counts. -/
inductive Ahead (far : Position → Prop) (tail tail' : TokenStream) :
    Bool → TokenStream → TokenStream → Prop where
  | near {s u : TokenStream} (ts : List Token) (hs : s.Splits ts tail) (hu : u.Splits ts tail')
      (hcut : tail.Beyond far ∨ ∃ t ∈ ts, t.kind.isError = true) : Ahead far tail tail' true s u
  | beyond {s u : TokenStream} (h : s.Beyond far) : Ahead far tail tail' false s u

theorem Ahead.left (h : Ahead far tail tail' false s u) : Ahead far tail tail' false s s := by
  cases h with
  | beyond h => exact .beyond h

/-- Both streams get shorter by the same tokens. -/
theorem Ahead.length_lt_iff {rest rest' : TokenStream} (h : Ahead far tail tail' true s u)
    (hrest : Ahead far tail tail' true rest rest') :
    rest.length < s.length ↔ rest'.length < u.length := by
  cases h with
  | near ts hs hu =>
      cases hrest with
      | near us hrest hrest' =>
          simp only [TokenStream.length_eq, hs.1, hu.1, hrest.1, hrest'.1, List.length_append]
          omega

/-- A token that was looked at, before the cut or behind it. -/
structure Looked (far : Position → Prop) (tail tail' s u : TokenStream) (near : Bool)
    (t t' : Token) : Prop where
  same : t' = t
  pos : near = false → far t.pos
  here : Ahead far tail tail' near s u
  rest : Ahead far tail tail' near s.tail u.tail

theorem beyond_peek (h : s.Beyond far) :
    (peek s).Beyond far fun t => Looked far tail tail' s u false t t := by
  unfold peek
  split
  · exact beyond_fail h.head
  · exact beyond_pure ⟨rfl, fun _ => h.head, .beyond h, .beyond h.tail⟩

theorem agree_peek (h : Ahead far tail tail' near s u) :
    (peek s).Agree far (Looked far tail tail' s u) near (peek u) := by
  cases h with
  | beyond h => exact .beyond (beyond_peek h)
  | near ts hs hu hcut =>
      cases ts with
      | nil =>
          have hbeyond : tail.Beyond far := by simpa using hcut
          exact .parted List.nil_prefix (beyond_peek (hs.beyond hbeyond))
      | cons t ts =>
          unfold peek
          rw [hs.head, hu.head]
          split
          · exact .together (.error rfl)
          · next hvalid =>
            have hrest : tail.Beyond far ∨ ∃ t ∈ ts, t.kind.isError = true := by
              rcases hcut with hcut | ⟨t', ht', herror⟩
              · exact .inl hcut
              · rcases List.mem_cons.mp ht' with rfl | ht'
                · obtain ⟨e, he⟩ := t'.kind.exists_of_isError herror
                  exact absurd he (hvalid e)
                · exact .inr ⟨t', ht', herror⟩
            exact .together (.ok ⟨rfl, by simp, .near (t :: ts) hs hu hcut,
              .near ts hs.tail hu.tail hrest⟩)

/-- A token taken and the streams behind it. -/
def Taken (far : Position → Prop) (tail tail' : TokenStream) (near : Bool)
    (x y : Token × TokenStream) : Prop :=
  y.1 = x.1 ∧ (near = false → far x.1.pos) ∧ Ahead far tail tail' near x.2 y.2

theorem Taken.left {x y : Token × TokenStream} (h : Taken far tail tail' false x y) :
    Taken far tail tail' false x x :=
  ⟨rfl, h.2.1, h.2.2.left⟩

theorem agree_advance (h : Ahead far tail tail' near s u) :
    (advance s).Agree far (Taken far tail tail') near (advance u) :=
  (agree_peek h).bind fun _ _ _ _ ht => agree_pure ⟨ht.same, ht.pos, ht.rest⟩ Taken.left

theorem agree_expect (kind : TokenKind) (h : Ahead far tail tail' near s u) :
    (expect kind s).Agree far (Taken far tail tail') near (expect kind u) := by
  refine (agree_peek h).bind fun near' _ t t' ht => ?_
  obtain rfl := ht.same
  split
  · exact agree_pure ⟨rfl, ht.pos, ht.rest⟩ Taken.left
  · exact agree_fail _ _ ht.pos

/-- A reader that never looks ahead, wherever the text is cut. -/
def Local (far : Position → Prop) (tail tail' : TokenStream) (r : Reader) : Prop :=
  ∀ near s u, Ahead far tail tail' near s u → (r s).Agree far (Ahead far tail tail') near (r u)

/-- A token of the given kind and nothing else. -/
theorem local_last (kind : TokenKind) :
    Local far tail tail' fun s => do
      let (_, rest) ← expect kind s
      return rest :=
  fun _ _ _ h => (agree_expect kind h).bind fun _ _ _ _ ht => agree_pure ht.2.2 Ahead.left

/-- Going on with a loop as long as it makes progress. Both sides make the same. -/
theorem agree_loop {near' : Bool} {rest rest' : TokenStream} (r : Reader)
    (h : Ahead far tail tail' near s u) (hnear : near' = true → near = true)
    (hrest : Ahead far tail tail' near' rest rest')
    (hr : rest.length < s.length → (r rest).Agree far (Ahead far tail tail') near' (r rest')) :
    (if rest.length < s.length then r rest else pure rest).Agree far (Ahead far tail tail') near'
      (if rest'.length < u.length then r rest' else pure rest') := by
  have hstop : (pure rest : Reading TokenStream).Agree far (Ahead far tail tail') near'
      (pure rest') := agree_pure hrest Ahead.left
  cases near' with
  | false =>
      split
      · next hlt => exact (hr hlt).replace
      · exact hstop.replace
  | true =>
      obtain rfl := hnear rfl
      have hiff := h.length_lt_iff hrest
      by_cases hlt : rest.length < s.length
      · rw [if_pos hlt, if_pos (hiff.mp hlt)]
        exact hr hlt
      · rw [if_neg hlt, if_neg fun hlt' => hlt (hiff.mpr hlt')]
        exact hstop

section Expressions

theorem local_chain (tier : Tier) (right : Reader) (hright : Local far tail tail' right) :
    Local far tail tail' (chain tier right) := by
  intro near s u h
  induction hlength : s.length using Nat.strongRecOn generalizing near s u with
  | ind k ih =>
      rw [chain, chain]
      refine (agree_peek h).bind fun near₁ _ t t' ht => ?_
      obtain rfl := ht.same
      cases tier t'.kind with
      | none => exact agree_pure ht.here Ahead.left
      | some op =>
          refine (hright _ _ _ ht.rest).bind fun near₂ hnear rest rest' hrest => ?_
          refine Agree.report (by simp [Event.isDoubtful]) ?_
          refine agree_loop _ ht.here hnear hrest fun hlt => ?_
          exact ih rest.length (hlength ▸ hlt) near₂ rest rest' hrest rfl

theorem local_binary (operand : Reader) (hoperand : Local far tail tail' operand)
    (ts : List Tier) : Local far tail tail' (binary operand ts) := by
  induction ts with
  | nil =>
      intro near s u h
      refine (hoperand near s u h).bind fun _ _ rest rest' hrest => ?_
      exact (agree_peek hrest).bind fun _ _ _ _ ht => agree_pure ht.here Ahead.left
  | cons t ts ih =>
      intro near s u h
      exact (ih near s u h).bind fun near' _ rest rest' hrest =>
        local_chain t _ ih near' rest rest' hrest

/-- A prefix operator and its operand. -/
theorem agree_unary (operand : Reader) (hoperand : Local far tail tail' operand) (p : Position)
    (op : Operator) (h : Ahead far tail tail' near s u) :
    (do
      let rest ← operand s
      Reading.report p (.operator op.symbol)
      return rest : Reading TokenStream).Agree far (Ahead far tail tail') near
      (do
        let rest ← operand u
        Reading.report p (.operator op.symbol)
        return rest) :=
  (hoperand near s u h).bind fun _ _ _ _ hrest =>
    Agree.report (by simp [Event.isDoubtful]) (agree_pure hrest Ahead.left)

/-- No level left. -/
theorem local_deep :
    Local far tail tail' (fun s => do
      let (t, _) ← advance s
      .fail t.pos (.grammar .nestingTooDeep)) := by
  intro near s u h
  refine (agree_advance h).bind ?_
  rintro near' - ⟨t, rest⟩ ⟨t', rest'⟩ ⟨rfl, hpos, -⟩
  exact agree_fail _ _ hpos

theorem local_operand (level : Nat) : Local far tail tail' (operand level) := by
  induction level with
  | zero => exact local_deep
  | succ level ih =>
      intro near s u h
      rw [operand, operand]
      refine (agree_advance h).bind ?_
      rintro near' - ⟨⟨kind, text, p⟩, rest⟩ ⟨t', rest'⟩ ⟨rfl, hpos, hrest⟩
      have hbinary := local_binary (operand level) ih
      have hdone : (pure rest : Reading TokenStream).Agree far (Ahead far tail tail') near'
          (pure rest') := agree_pure hrest Ahead.left
      cases kind with
      | identifier | intLiteral | strLiteral => exact Agree.report (fun hnear _ => hpos hnear) hdone
      | lparen =>
          exact (hbinary tiers _ _ _ hrest).bind fun _ _ _ _ hrest => local_last .rparen _ _ _ hrest
      | minus => exact agree_unary _ (hbinary []) p .negate hrest
      | bang => exact agree_unary _ (hbinary []) p .not hrest
      | _ => exact agree_fail _ _ hpos

theorem local_expression (level : Nat) : Local far tail tail' (expression level) :=
  local_binary _ (local_operand level) tiers

end Expressions

section Statements

theorem local_block (terminators : List TokenKind) (st : Reader) (hst : Local far tail tail' st) :
    Local far tail tail' (block terminators st) := by
  intro near s u h
  induction hlength : s.length using Nat.strongRecOn generalizing near s u with
  | ind k ih =>
      rw [block, block]
      refine (agree_peek h).bind fun near₁ _ t t' ht => ?_
      obtain rfl := ht.same
      split
      · exact agree_pure ht.here Ahead.left
      · refine (hst _ _ _ ht.here).bind fun near₂ hnear rest rest' hrest => ?_
        refine agree_loop _ ht.here hnear hrest fun hlt => ?_
        exact ih rest.length (hlength ▸ hlt) near₂ rest rest' hrest rfl

/-- The kind of a declared variable and the streams behind it. -/
def KindTaken (far : Position → Prop) (tail tail' : TokenStream) (near : Bool)
    (x y : VariableKind × TokenStream) : Prop :=
  y.1 = x.1 ∧ Ahead far tail tail' near x.2 y.2

theorem agree_declaredKind (h : Ahead far tail tail' near s u) :
    (declaredKind s).Agree far (KindTaken far tail tail') near (declaredKind u) := by
  refine (agree_peek h).bind fun near' _ t t' ht => ?_
  obtain rfl := ht.same
  have hkind (kind : VariableKind) : (pure (kind, s.tail) : Reading _).Agree far
      (KindTaken far tail tail') near' (pure (kind, u.tail)) :=
    agree_pure ⟨rfl, ht.rest⟩ fun h => ⟨rfl, h.2.left⟩
  split
  · exact hkind .integer
  · exact hkind .string
  · exact agree_fail _ _ ht.pos

theorem local_declaration (kind : VariableKind) : Local far tail tail' (declaration kind) := by
  intro near s u h
  refine (agree_expect .identifier h).bind ?_
  rintro near' - ⟨name, rest⟩ ⟨name', rest'⟩ ⟨rfl, hpos, hrest⟩
  exact Agree.report (fun hnear _ => hpos hnear) (local_last .semicolon _ _ _ hrest)

/-- An expression, the event of the statement that it belongs to, and the end of the
statement. -/
theorem agree_ended (level : Nat) (p : Position) (e : Event) (he : e.isDoubtful = false)
    (h : Ahead far tail tail' near s u) :
    (do
      let rest ← expression level s
      Reading.report p e
      let (_, rest) ← expect .semicolon rest
      return rest : Reading TokenStream).Agree far (Ahead far tail tail') near
      (do
        let rest ← expression level u
        Reading.report p e
        let (_, rest) ← expect .semicolon rest
        return rest) :=
  (local_expression level near s u h).bind fun _ _ _ _ hrest =>
    Agree.report (by simp [he]) (local_last .semicolon _ _ _ hrest)

theorem agree_assignment (level : Nat) (name : Token) (hpos : near = false → far name.pos)
    (h : Ahead far tail tail' near s u) :
    (assignment name level s).Agree far (Ahead far tail tail') near (assignment name level u) := by
  refine Agree.report (fun hnear _ => hpos hnear) ?_
  refine (agree_expect .assign h).bind ?_
  rintro near' - ⟨t, rest⟩ ⟨t', rest'⟩ ⟨rfl, -, hrest⟩
  exact agree_ended level _ .assign rfl hrest

theorem local_closing : Local far tail tail' closing := by
  intro near s u h
  refine (agree_expect _ h).bind ?_
  rintro near' - ⟨t, rest⟩ ⟨t', rest'⟩ ⟨rfl, -, hrest⟩
  exact Agree.report (by simp [Event.isDoubtful]) (local_last .semicolon _ _ _ hrest)

theorem local_alternative (st : Reader) (hst : Local far tail tail' st) :
    Local far tail tail' (alternative st) := by
  intro near s u h
  refine (agree_peek h).bind fun near' _ t t' ht => ?_
  obtain rfl := ht.same
  split
  · exact Agree.report (by simp [Event.isDoubtful]) (local_block _ st hst _ _ _ ht.rest)
  · exact agree_pure ht.here Ahead.left

theorem local_statement (level : Nat) : Local far tail tail' (statement level) := by
  induction level with
  | zero => exact local_deep
  | succ level ih =>
      intro near s u h
      rw [statement, statement]
      refine (agree_advance h).bind ?_
      rintro near' - ⟨⟨kind, text, p⟩, rest⟩ ⟨t', rest'⟩ ⟨rfl, hpos, hrest⟩
      have hexpression := local_expression level near' rest rest' hrest
      cases kind with
      | identifier => exact agree_assignment level _ hpos hrest
      | keyword k =>
          cases k with
          | declare =>
              refine (agree_declaredKind hrest).bind ?_
              rintro near₁ - ⟨kind, rest⟩ ⟨kind', rest'⟩ ⟨rfl, hrest⟩
              exact local_declaration kind' _ _ _ hrest
          | integer => exact local_declaration .integer _ _ _ hrest
          | string => exact local_declaration .string _ _ _ hrest
          | print => exact agree_ended level p .print rfl hrest
          | branch =>
              refine hexpression.bind fun near₁ _ rest rest' hrest => ?_
              refine Agree.report (by simp [Event.isDoubtful]) ?_
              refine (local_block _ _ ih _ _ _ hrest).bind fun near₂ _ rest rest' hrest => ?_
              exact (local_alternative _ ih _ _ _ hrest).bind fun near₃ _ rest rest' hrest =>
                local_closing _ _ _ hrest
          | loop =>
              refine Agree.report (by simp [Event.isDoubtful]) ?_
              refine hexpression.bind fun near₁ _ rest rest' hrest => ?_
              refine Agree.report (by simp [Event.isDoubtful]) ?_
              exact (local_block _ _ ih _ _ _ hrest).bind fun near₂ _ rest rest' hrest =>
                local_closing _ _ _ hrest
          | _ => exact agree_fail _ _ hpos
      | _ => exact agree_fail _ _ hpos

/-- A text is read from left to right, one token at a time. -/
theorem agree_program (h : Ahead far tail tail' near s u) :
    (program s).Agree far (fun _ _ _ => True) near (program u) := by
  refine (local_block [] _ (local_statement maxLevel) near s u h).bind fun _ _ _ _ hrest => ?_
  exact (agree_expect .eof hrest).bind fun _ _ _ _ _ => agree_pure trivial fun _ => trivial

end Statements

end Grammar

end StackLang
