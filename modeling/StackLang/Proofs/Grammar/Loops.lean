import StackLang.Proofs.Grammar.Climbing

/-!
# The loops of the reader

Reading has two loops, one over the statements of a block and one over the operators of a
tier. Both are defined with a look at the number of tokens that are left, and would stop if
a round took none. Here it is shown that this never happens. A statement takes at least one
token, and so does an operand, so the loops written without that look (`round`, `link`) have
one solution each: the loops as they are defined.
-/

namespace StackLang

namespace Grammar

/-- The reader takes at least one token off the stream whenever it succeeds. -/
def Consumes (r : Reader) : Prop :=
  ∀ s es rest, r s = ⟨es, .ok rest⟩ → rest.length < s.length

theorem consumes_statement (level : Nat) : Consumes (statement level) := by
  intro s es rest hread
  have hsatisfies := satisfies_statement level s
  rw [hread] at hsatisfies
  obtain ⟨ts, t, hsplits, hderives, -⟩ := hsatisfies
  refine length_lt_of_splits hsplits ?_
  cases hderives <;> simp

theorem consumes_binary (level : Nat) {tighter : List Tier} (h : tighter <:+ tiers) :
    Consumes (binary (operand level) tighter) := by
  intro s es rest hread
  have hshorter := satisfies_binary_shorter level (5 - tighter.length) (Nat.sub_le 5 _) s
  rw [← show tighter = tiers.drop (5 - tighter.length) from List.suffix_iff_eq_drop.mp h,
    hread] at hshorter
  exact hshorter

/-- One round of the loop over the statements of a block, without a look at the number of
tokens that are left; `again` is for the rounds that follow. -/
def round (terminators : List TokenKind) (statement again : Reader) (s : TokenStream) :
    Reading TokenStream := do
  let t ← peek s
  if ends terminators t.kind then return s
  else
    let rest ← statement s
    again rest

/-- One round of the loop over the operators of a tier. -/
def link (tier : Tier) (right again : Reader) (s : TokenStream) : Reading TokenStream := do
  let t ← peek s
  match tier t.kind with
  | none => return s
  | some op =>
    let rest ← right s.tail
    Reading.report t.pos (.operator op.symbol)
    again rest

/-- The rounds that follow have fewer tokens left. -/
def Descends (body : Reader → Reader) : Prop :=
  ∀ r r' s, (∀ rest : TokenStream, rest.length < s.length → r rest = r' rest) →
    body r s = body r' s

theorem descends_round (terminators : List TokenKind) {st : Reader} (h : Consumes st) :
    Descends (round terminators st) := by
  intro r r' s hagree
  refine congrArg _ (funext fun t => if_congr Iff.rfl rfl ?_)
  exact Reading.bind_congr_of_ok fun es rest hread => hagree rest (h s es rest hread)

theorem descends_link (tier : Tier) {right : Reader} (h : Consumes right) :
    Descends (link tier right) := by
  intro r r' s hagree
  refine congrArg _ (funext fun t => ?_)
  cases tier t.kind with
  | none => rfl
  | some op =>
      refine Reading.bind_congr_of_ok fun es rest hread => ?_
      have hlt := h s.tail es rest hread
      rw [TokenStream.length_tail] at hlt
      exact congrArg _ (funext fun _ => hagree rest (by omega))

/-- A loop whose rounds take tokens comes to an end, so it has one solution. -/
theorem Descends.unique {body : Reader → Reader} (h : Descends body) {r r' : Reader}
    (hr : ∀ s, r s = body r s) (hr' : ∀ s, r' s = body r' s) : r = r' := by
  refine funext fun s => ?_
  induction hlength : s.length using Nat.strongRecOn generalizing s with
  | ind k ih =>
      rw [hr, hr']
      refine h r r' s fun rest hlt => ?_
      exact ih rest.length (hlength ▸ hlt) rest rfl

theorem eq_block_iff (terminators : List TokenKind) {st : Reader} (h : Consumes st) (r : Reader) :
    (∀ s, r s = round terminators st r s) ↔ r = block terminators st := by
  have hblock (s : TokenStream) :
      block terminators st s = round terminators st (block terminators st) s := by
    rw [block]
    exact descends_round terminators h _ _ s fun rest hlt => if_pos hlt
  refine ⟨fun hr => (descends_round terminators h).unique hr hblock, ?_⟩
  rintro rfl
  exact hblock

theorem eq_chain_iff (tier : Tier) {right : Reader} (h : Consumes right) (r : Reader) :
    (∀ s, r s = link tier right r s) ↔ r = chain tier right := by
  have hchain (s : TokenStream) : chain tier right s = link tier right (chain tier right) s := by
    rw [chain]
    exact descends_link tier h _ _ s fun rest hlt => if_pos hlt
  refine ⟨fun hr => (descends_link tier h).unique hr hchain, ?_⟩
  rintro rfl
  exact hchain

end Grammar

end StackLang
