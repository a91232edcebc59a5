import StackLang.Proofs.Draft.Coherence
import StackLang.Proofs.Grammar.Soundness

/-!
# Every event is paid for by a token

Whether it succeeds or not, a reader reports no more than the tokens it takes can pay
for. A token pays for one instruction, and for two if it opens a loop, starts a second
branch or closes a construct. So the size of a program is bounded by its tokens, and with
that by the length of the text.

Along with it goes what a reader fails with: its own faults, and no others.
-/

namespace StackLang

/-- How many instructions a token pays for. The end of the text pays for none. -/
def TokenKind.weight : TokenKind → Nat
  | .keyword .loop | .keyword .otherwise | .keyword .close => 2
  | .eof => 0
  | _ => 1

theorem TokenKind.one_le_weight (k : TokenKind) (h : k ≠ .eof) : 1 ≤ k.weight := by
  unfold weight
  split
  case h_4 => exact absurd rfl h
  all_goals decide

def Token.weightAll : List Token → Nat
  | [] => 0
  | t :: ts => t.kind.weight + weightAll ts

namespace TokenStream

def weight (s : TokenStream) : Nat := Token.weightAll s.tokens

theorem weight_eq (s : TokenStream) : s.weight = s.head.kind.weight + s.tail.weight := by
  rcases s with ⟨tokens, stop, length, hlength⟩
  cases tokens with
  | nil => rfl
  | cons t ts => rfl

end TokenStream

/-- The fault is one of tokens or of the grammar. -/
def Fault.OfReading : Fault → Prop
  | .lexical _ | .grammar _ => True
  | .draft _ | .run _ => False

namespace Reading

variable {α β : Type} {budget rest : Nat} {left : α → Nat} {left' : β → Nat}

/-- The events weigh no more than the budget, and with a result there is something left
of it. Without a result, the fault is one of reading. -/
def Affords (r : Reading α) (budget : Nat) (left : α → Nat) : Prop :=
  match r.outcome with
  | .ok a => Event.weightAll r.events + left a ≤ budget
  | .error f => Event.weightAll r.events ≤ budget ∧ f.item.OfReading

theorem affords_pure (a : α) (h : left a ≤ budget) : (pure a : Reading α).Affords budget left := by
  rw [pure_eq, Affords]
  simpa [Event.weightAll] using h

theorem affords_fail (pos : Position) (f : Fault) (hf : f.OfReading) :
    (fail pos f : Reading α).Affords budget left :=
  ⟨Nat.zero_le budget, hf⟩

theorem Affords.bind {r : Reading α} {f : α → Reading β} (h : r.Affords budget left)
    (hf : ∀ a, (f a).Affords (left a) left') : (r >>= f).Affords budget left' := by
  rcases r with ⟨es, outcome⟩
  cases outcome with
  | error e => exact h
  | ok a =>
      have hes : Event.weightAll es + left a ≤ budget := h
      have hrest := hf a
      rw [bind_ok]
      generalize f a = y at hrest ⊢
      rcases y with ⟨fs, outcome⟩
      cases outcome with
      | error e =>
          obtain ⟨hfs, hreading⟩ : Event.weightAll fs ≤ left a ∧ e.item.OfReading := hrest
          refine ⟨?_, hreading⟩
          rw [Event.weightAll_append]
          dsimp only
          omega
      | ok b =>
          have hfs : Event.weightAll fs + left' b ≤ left a := hrest
          rw [Affords, Event.weightAll_append]
          dsimp only
          omega

theorem Affords.mono {r : Reading α} (h : r.Affords rest left) (hrest : rest ≤ budget) :
    r.Affords budget left := by
  rcases r with ⟨es, outcome⟩
  cases outcome with
  | error e => exact ⟨Nat.le_trans h.1 hrest, h.2⟩
  | ok a => exact Nat.le_trans h hrest

/-- What a reading need not touch is left afterwards. -/
theorem Affords.saving {r : Reading α} (h : r.Affords budget left) (n : Nat) :
    r.Affords (n + budget) fun a => n + left a := by
  rcases r with ⟨es, outcome⟩
  cases outcome with
  | error e => exact ⟨Nat.le_trans h.1 (Nat.le_add_left _ _), h.2⟩
  | ok a =>
      have hes : Event.weightAll es + left a ≤ budget := h
      rw [Affords]
      dsimp only
      omega

/-- Reporting an event and going on with what is left. -/
theorem affords_report {f : Unit → Reading β} (pos : Position) (e : Event)
    (h : (f ()).Affords rest left') (hrest : e.weight + rest ≤ budget) :
    (report pos e >>= f).Affords budget left' := by
  have hreport : (report pos e).Affords budget fun _ => rest := by
    simpa [Affords, report, Event.weightAll] using hrest
  exact hreport.bind fun _ => h

end Reading

namespace Grammar

open Reading

variable {α : Type} {budget : Nat} {left : α → Nat}

/-- A reader that reports no more than the tokens it takes pay for. -/
def Thrifty (r : Reader) : Prop := ∀ s, (r s).Affords s.weight TokenStream.weight

theorem affords_peek {s : TokenStream} {f : Token → Reading α}
    (h : (f s.head).Affords budget left) : (peek s >>= f).Affords budget left := by
  unfold peek
  split
  · exact affords_fail s.head.pos _ trivial
  · exact h

theorem affords_advance {s : TokenStream} {f : Token × TokenStream → Reading α}
    (h : (f (s.head, s.tail)).Affords budget left) : (advance s >>= f).Affords budget left := by
  rw [advance, bind_assoc]
  exact affords_peek h

theorem affords_expect {kind : TokenKind} {s : TokenStream} {f : Token × TokenStream → Reading α}
    (h : s.head.kind = kind → (f (s.head, s.tail)).Affords budget left) :
    (expect kind s >>= f).Affords budget left := by
  rw [expect, bind_assoc]
  refine affords_peek ?_
  by_cases hkind : s.head.kind = kind
  · rw [if_pos hkind]
    exact h hkind
  · rw [if_neg hkind]
    exact affords_fail s.head.pos _ trivial

theorem weight_tail_le (s : TokenStream) : s.tail.weight ≤ s.weight := by
  rw [s.weight_eq]
  exact Nat.le_add_left _ _

/-- A token other than the end pays for one instruction. -/
theorem weight_tail_lt (s : TokenStream) (h : s.head.kind ≠ .eof) :
    1 + s.tail.weight ≤ s.weight := by
  rw [s.weight_eq]
  exact Nat.add_le_add_right (s.head.kind.one_le_weight h) _

/-- What has to follow a token costs nothing. -/
theorem affords_last (kind : TokenKind) (s : TokenStream) :
    (do
      let (_, rest) ← expect kind s
      return rest : Reading TokenStream).Affords s.weight TokenStream.weight :=
  affords_expect fun _ => affords_pure _ (weight_tail_le s)

section Expressions

theorem thrifty_chain (tier : Tier) (htier : tier .eof = none) (right : Reader)
    (hright : Thrifty right) : Thrifty (chain tier right) := by
  intro s
  induction hlength : s.length using Nat.strongRecOn generalizing s with
  | ind k ih =>
      rw [chain]
      refine affords_peek ?_
      cases hop : tier s.head.kind with
      | none => exact affords_pure s (Nat.le_refl _)
      | some op =>
          have hhead : s.head.kind ≠ .eof := by
            intro heof
            rw [heof, htier] at hop
            cases hop
          -- The operator's token pays for its event, which comes behind the right operand.
          refine (((hright s.tail).saving 1).mono (weight_tail_lt s hhead)).bind fun rest => ?_
          refine affords_report _ _ ?_ (Nat.le_refl _)
          by_cases hshorter : rest.length < s.length
          · rw [if_pos hshorter]
            exact ih rest.length (hlength ▸ hshorter) rest rfl
          · rw [if_neg hshorter]
            exact affords_pure rest (Nat.le_refl _)

theorem thrifty_binary (operand : Reader) (hoperand : Thrifty operand) (ts : List Tier)
    (hts : ∀ t ∈ ts, t .eof = none) : Thrifty (binary operand ts) := by
  induction ts with
  | nil =>
      intro s
      refine (hoperand s).bind fun rest => ?_
      exact affords_peek (affords_pure rest (Nat.le_refl _))
  | cons t ts ih =>
      intro s
      have htighter := ih fun u hu => hts u (List.mem_cons_of_mem t hu)
      refine (htighter s).bind fun rest => ?_
      exact thrifty_chain t (hts t List.mem_cons_self) _ htighter rest

theorem eof_of_mem_tiers (t : Tier) (ht : t ∈ tiers) : t .eof = none := by
  simp only [tiers, List.mem_cons, List.not_mem_nil, or_false] at ht
  rcases ht with rfl | rfl | rfl | rfl | rfl <;> rfl

/-- A prefix operator is paid for by its token. -/
theorem affords_unary (operand : Reader) (hoperand : Thrifty operand) (s : TokenStream)
    (hhead : s.head.kind ≠ .eof) (pos : Position) (symbol : String) :
    (do
      let rest ← operand s.tail
      Reading.report pos (.operator symbol)
      return rest : Reading TokenStream).Affords s.weight TokenStream.weight := by
  refine (((hoperand s.tail).saving 1).mono (weight_tail_lt s hhead)).bind fun rest => ?_
  exact affords_report _ _ (affords_pure rest (Nat.le_refl _)) (Nat.le_refl _)

theorem thrifty_operand (level : Nat) : Thrifty (operand level) := by
  induction level with
  | zero => exact fun s => affords_advance (affords_fail _ _ trivial)
  | succ level ih =>
      intro s
      rw [operand]
      refine affords_advance ?_
      have hbinary := thrifty_binary (operand level) ih
      dsimp only
      split
      · next hkind =>
        exact affords_report _ _ (affords_pure _ (Nat.le_refl _))
          (weight_tail_lt s (by simp [hkind]))
      · next hkind =>
        exact affords_report _ _ (affords_pure _ (Nat.le_refl _))
          (weight_tail_lt s (by simp [hkind]))
      · next hkind =>
        exact affords_report _ _ (affords_pure _ (Nat.le_refl _))
          (weight_tail_lt s (by simp [hkind]))
      · refine ((hbinary tiers eof_of_mem_tiers s.tail).mono (weight_tail_le s)).bind fun rest => ?_
        exact affords_last .rparen rest
      · next hkind => exact affords_unary _ (hbinary [] (by simp)) s (by simp [hkind]) _ _
      · next hkind => exact affords_unary _ (hbinary [] (by simp)) s (by simp [hkind]) _ _
      · exact affords_fail _ _ trivial

theorem thrifty_expression (level : Nat) : Thrifty (expression level) :=
  thrifty_binary _ (thrifty_operand level) tiers eof_of_mem_tiers

end Expressions

section Statements

theorem thrifty_block (terminators : List TokenKind) (st : Reader) (hst : Thrifty st) :
    Thrifty (block terminators st) := by
  intro s
  induction hlength : s.length using Nat.strongRecOn generalizing s with
  | ind k ih =>
      rw [block]
      refine affords_peek ?_
      by_cases hends : ends terminators s.head.kind = true
      · rw [if_pos hends]
        exact affords_pure s (Nat.le_refl _)
      · rw [if_neg hends]
        refine (hst s).bind fun rest => ?_
        by_cases hshorter : rest.length < s.length
        · rw [if_pos hshorter]
          exact ih rest.length (hlength ▸ hshorter) rest rfl
        · rw [if_neg hshorter]
          exact affords_pure rest (Nat.le_refl _)

theorem thrifty_closing : Thrifty closing := by
  intro s
  refine affords_expect fun hkind => ?_
  refine affords_report _ _ (affords_last .semicolon s.tail) ?_
  rw [s.weight_eq, hkind]
  exact Nat.le_refl _

theorem thrifty_alternative (st : Reader) (hst : Thrifty st) : Thrifty (alternative st) := by
  intro s
  refine affords_peek ?_
  by_cases hkind : s.head.kind = .keyword .otherwise
  · rw [if_pos hkind]
    refine affords_report _ _ (thrifty_block _ st hst s.tail) ?_
    rw [s.weight_eq, hkind]
    exact Nat.le_refl _
  · rw [if_neg hkind]
    exact affords_pure s (Nat.le_refl _)

theorem thrifty_declaration (kind : VariableKind) : Thrifty (declaration kind) := by
  intro s
  refine affords_expect fun hkind => ?_
  exact affords_report _ _ (affords_last .semicolon s.tail) (weight_tail_lt s (by simp [hkind]))

theorem affords_declaredKind (s : TokenStream) :
    (declaredKind s).Affords s.weight fun x => x.2.weight := by
  refine affords_peek ?_
  split
  · exact affords_pure _ (weight_tail_le s)
  · exact affords_pure _ (weight_tail_le s)
  · exact affords_fail _ _ trivial

/-- An expression, the event of the statement that it belongs to, and the end of the
statement. -/
theorem affords_ended (level : Nat) (s : TokenStream) (pos : Position) (e : Event)
    (he : e.weight ≤ 1) :
    (do
      let rest ← expression level s
      Reading.report pos e
      let (_, rest) ← expect .semicolon rest
      return rest : Reading TokenStream).Affords (1 + s.weight) TokenStream.weight := by
  refine ((thrifty_expression level s).saving 1).bind fun rest => ?_
  exact affords_report _ _ (affords_last .semicolon rest) (Nat.add_le_add_right he _)

theorem thrifty_statement (level : Nat) : Thrifty (statement level) := by
  induction level with
  | zero => exact fun s => affords_advance (affords_fail _ _ trivial)
  | succ level ih =>
      intro s
      rw [statement]
      refine affords_advance ?_
      dsimp only
      split
      · refine ((affords_declaredKind s.tail).mono (weight_tail_le s)).bind fun x => ?_
        exact thrifty_declaration x.1 x.2
      · exact (thrifty_declaration .integer s.tail).mono (weight_tail_le s)
      · exact (thrifty_declaration .string s.tail).mono (weight_tail_le s)
      · next hkind =>
        refine affords_report _ _ ?_ (weight_tail_lt s (by simp [hkind]))
        refine affords_expect fun hassign => ?_
        exact (affords_ended level _ _ .assign (Nat.le_refl 1)).mono (weight_tail_lt s.tail (by simp [hassign]))
      · next hkind =>
        exact (affords_ended level _ _ .print (Nat.le_refl 1)).mono (weight_tail_lt s (by simp [hkind]))
      · next hkind =>
        refine (((thrifty_expression level s.tail).saving 1).mono
          (weight_tail_lt s (by simp [hkind]))).bind fun rest => ?_
        refine affords_report _ _ ?_ (Nat.le_refl _)
        refine (thrifty_block _ _ ih rest).bind fun rest => ?_
        exact (thrifty_alternative _ ih rest).bind thrifty_closing
      · next hkind =>
        have hweight : 1 + (1 + s.tail.weight) = s.weight := by
          rw [s.weight_eq, hkind, ← Nat.add_assoc]
          rfl
        refine affords_report _ _ ?_ (Nat.le_of_eq hweight)
        refine ((thrifty_expression level s.tail).saving 1).bind fun rest => ?_
        refine affords_report _ _ ?_ (Nat.le_refl _)
        exact (thrifty_block _ _ ih rest).bind thrifty_closing
      · exact affords_fail _ _ trivial

/-- What is reported while a program is read, to its end or not, is paid for by its
tokens. -/
theorem affords_program (s : TokenStream) : (program s).Affords s.weight fun _ => 0 := by
  refine (thrifty_block [] _ (thrifty_statement maxLevel) s).bind fun rest => ?_
  exact affords_expect fun _ => affords_pure () (Nat.zero_le _)

theorem weightAll_events_program (s : TokenStream) :
    Event.weightAll (program s).events ≤ s.weight := by
  have hprogram := affords_program s
  rw [Affords] at hprogram
  split at hprogram
  · exact hprogram
  · exact hprogram.1

theorem ofReading_of_program (s : TokenStream) (f : Located Fault)
    (h : (program s).outcome = .error f) : f.item.OfReading := by
  have hprogram := affords_program s
  rw [Affords, h] at hprogram
  exact hprogram.2

end Statements

end Grammar

end StackLang
