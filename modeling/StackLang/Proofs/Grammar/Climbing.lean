import StackLang.Proofs.Grammar.Soundness

/-!
# Climbing

An expression need not be read tier by tier. Give each operator two powers, one with which
it binds the operand on its left and one, higher by one, for its right. Behind an operand,
read operators as long as they bind it with at least the power that is asked for; the right
side of an operator is read in the same way, with the operator's own right power in demand.
One loop then does the work of all tiers, and calls itself only with a higher power.

The main statement, `binary_eq_carryOn`, is that both ways of reading are the same, with
their events and their faults. It rests on where a reader of tiers stops: in front of a
valid token that is no operator of these tiers.
-/

namespace StackLang

open StackLang.Tree

theorem Reading.bind_congr_of_ok {α β : Type} {x : Reading α} {f g : α → Reading β}
    (h : ∀ es a, x = ⟨es, .ok a⟩ → f a = g a) : x >>= f = x >>= g := by
  rcases x with ⟨es, e | a⟩
  · rfl
  · rw [bind_ok, bind_ok, h es a rfl]

theorem Reading.bind_congr_of_satisfies {α β : Type} {P : List (Located Event) → α → Prop}
    {B : List (Located Event) → Prop} {x : Reading α} {f g : α → Reading β}
    (h : x.Satisfies P B) (hfg : ∀ es a, P es a → f a = g a) : x >>= f = x >>= g := by
  refine bind_congr_of_ok fun es a hx => ?_
  rw [hx] at h
  exact hfg es a h

theorem Reading.Satisfies.and {α : Type} {P Q : List (Located Event) → α → Prop}
    {B C : List (Located Event) → Prop} {x : Reading α} (h : x.Satisfies P B)
    (h' : x.Satisfies Q C) : x.Satisfies (fun es a => P es a ∧ Q es a) fun es => B es ∧ C es := by
  rcases x with ⟨es, e | a⟩
  · exact ⟨h, h'⟩
  · exact ⟨h, h'⟩

namespace Grammar

theorem exists_peek_eq_fail (s : TokenStream) (h : s.head.kind.isError = true) :
    ∃ e, peek s = .fail s.head.pos (.lexical e) := by
  unfold peek
  cases hkind : s.head.kind with
  | error e => exact ⟨e, rfl⟩
  | _ => simp [hkind, TokenKind.isError] at h

/-- The operator that a token denotes between operands, and the powers with which it binds
to the left and to the right. -/
def power? : TokenKind → Option (Operator × Nat × Nat)
  | .or => some (.or, 1, 2)
  | .and => some (.and, 3, 4)
  | .eq => some (.eq, 5, 6)
  | .notEq => some (.notEq, 5, 6)
  | .less => some (.less, 5, 6)
  | .lessEq => some (.lessEq, 5, 6)
  | .greater => some (.greater, 5, 6)
  | .greaterEq => some (.greaterEq, 5, 6)
  | .plus => some (.add, 7, 8)
  | .minus => some (.sub, 7, 8)
  | .star => some (.mul, 9, 10)
  | .slash => some (.div, 9, 10)
  | _ => none

/-- Operators behind an operand, as long as they bind it with the given power at least. -/
def carryOn {m : Type → Type} [Monad m] [MonadLiftT Reading m] (power : Nat)
    (right : Nat → TokenStream → m TokenStream) (s : TokenStream) : m TokenStream := do
  let t ← peek s
  match power? t.kind with
  | none => return s
  | some (op, toLeft, toRight) =>
    if toLeft < power then return s
    else
      let rest ← right toRight s.tail
      Reading.report t.pos (.operator op.symbol)
      if rest.length < s.length then carryOn power right rest else return rest
termination_by s.length

theorem power?_token (op : BinaryOperator) :
    power? op.token = some (op.toOperator, 2 * op.tightness + 1, 2 * (op.tightness + 1)) := by
  cases op <;> rfl

theorem exists_token_of_power? {kind : TokenKind} {x : Operator × Nat × Nat}
    (h : power? kind = some x) : ∃ op : BinaryOperator, kind = op.token := by
  unfold power? at h
  split at h
  · exact ⟨.or, rfl⟩
  · exact ⟨.and, rfl⟩
  · exact ⟨.eq, rfl⟩
  · exact ⟨.notEq, rfl⟩
  · exact ⟨.less, rfl⟩
  · exact ⟨.lessEq, rfl⟩
  · exact ⟨.greater, rfl⟩
  · exact ⟨.greaterEq, rfl⟩
  · exact ⟨.add, rfl⟩
  · exact ⟨.sub, rfl⟩
  · exact ⟨.mul, rfl⟩
  · exact ⟨.div, rfl⟩
  · cases h

/-- The reader of what binds with the given power at least. -/
def climb (level power : Nat) : Reader := binary (operand level) (tiers.drop (power / 2))

theorem climb_two_mul (level k : Nat) :
    climb level (2 * k) = binary (operand level) (tiers.drop k) := by
  rw [climb, Nat.mul_div_cancel_left k (by decide)]

section Stopping

theorem ne_nil_of_derives {n : Nat} {ts : List Token} {e : Expression} (h : e.Derives n ts) :
    ts ≠ [] := by
  induction h with
  | read | integer | string | group | unary => simp
  | binary op t ht left right ihl ihr => simp
  | tighter h ih => exact ih

theorem length_lt_of_splits {s rest : TokenStream} {ts : List Token} (h : s.Splits ts rest)
    (hts : ts ≠ []) : rest.length < s.length := by
  rw [s.length_eq, rest.length_eq, h.1, List.length_append]
  have := List.length_pos_iff.mpr hts
  omega

theorem satisfies_binary_shorter (level n : Nat) (hn : n ≤ 5) (s : TokenStream) :
    (binary (operand level) (tiers.drop n) s).Satisfies (fun _ rest => rest.length < s.length)
      fun _ => True := by
  refine (satisfies_binary level (satisfies_operand level) (5 - n) n (by omega) s).mono ?_ ?_
  · rintro es rest ⟨ts, e, hsplits, he, -, -⟩
    exact length_lt_of_splits hsplits (ne_nil_of_derives he)
  · exact fun _ _ => trivial

theorem tier_eq_none (n : Nat) (kind : TokenKind)
    (h : ∀ op : BinaryOperator, kind = op.token → op.tightness ≠ n) : tier n kind = none := by
  cases htier : tier n kind with
  | none => rfl
  | some o =>
      obtain ⟨op, hn, htoken, -⟩ := token_of_tier n kind o htier
      exact absurd hn (h op htoken.symm)

/-- A chain of one tier stops in front of a looser operator, or of none. -/
theorem satisfies_chain_clear (n : Nat) (right : Reader)
    (hclear : ∀ s, (right s).Satisfies (fun _ rest => Clear (n + 1) rest) fun _ => True)
    (hshorter : ∀ s, (right s).Satisfies (fun _ rest => rest.length < s.length) fun _ => True)
    (s : TokenStream) (hs : Clear (n + 1) s) :
    (chain (tier (n + 1)) right s).Satisfies (fun _ rest => Clear n rest) fun _ => True := by
  induction hlength : s.length using Nat.strongRecOn generalizing s with
  | ind k ih =>
      rw [chain]
      refine (satisfies_peek s).bind (fun _ _ => trivial) ?_
      rintro es t ⟨rfl, rfl⟩
      cases htier : tier (n + 1) s.head.kind with
      | none =>
          refine Reading.satisfies_pure s ⟨hs.valid, fun op hop => ?_⟩
          have hloose := hs.loose op hop
          have hother : op.tightness ≠ n + 1 := by
            intro htight
            rw [hop, ← htight, tier_token] at htier
            cases htier
          omega
      | some o =>
          refine ((hclear s.tail).and (hshorter s.tail)).bind (fun _ _ => trivial) ?_
          rintro es rest ⟨hrest, hlt⟩
          have hlt' : rest.length < s.length := by
            rw [TokenStream.length_tail] at hlt
            omega
          refine Reading.satisfies_report _ _ ?_
          rw [if_pos hlt']
          exact ih rest.length (hlength ▸ hlt') rest hrest rfl

theorem satisfies_binary_clear (level : Nat) :
    ∀ (k n : Nat), n + k = 4 → ∀ s,
      (binary (operand level) (tiers.drop (n + 1)) s).Satisfies (fun _ rest => Clear n rest)
        fun _ => True := by
  intro k
  induction k with
  | zero =>
      rintro n rfl s
      refine (satisfies_operand level s).bind (fun _ _ => trivial) fun es rest _ => ?_
      cases hvalid : rest.head.kind.isError with
      | false =>
          rw [peek_of_valid rest hvalid]
          exact ⟨hvalid, fun op _ => Nat.le_of_lt_succ op.tightness_lt⟩
      | true =>
          obtain ⟨e, he⟩ := exists_peek_eq_fail rest hvalid
          rw [he]
          trivial
  | succ k ih =>
      intro n hn s
      have htighter := ih (n + 1) (by omega)
      rw [drop_tiers (n + 1) (by omega)]
      refine (htighter s).bind (fun _ _ => trivial) fun es rest hrest => ?_
      exact satisfies_chain_clear n _ htighter
        (satisfies_binary_shorter level (n + 1 + 1) (by omega)) rest hrest

end Stopping

section Climbing

theorem carryOn_of_stop (power : Nat) (right : Nat → Reader) (s : TokenStream)
    (hvalid : s.head.kind.isError = false)
    (h : ∀ op : BinaryOperator, s.head.kind = op.token → 2 * op.tightness + 1 < power) :
    carryOn power right s = ⟨[], .ok s⟩ := by
  rw [carryOn]
  simp only [monadLift_self, peek_of_valid s hvalid, Reading.bind_ok]
  cases hpower : power? s.head.kind with
  | none => rfl
  | some x =>
      obtain ⟨op, hop⟩ := exists_token_of_power? hpower
      rw [hop, power?_token] at hpower
      obtain rfl := Option.some.inj hpower
      simp only [if_pos (h op hop)]
      rfl

theorem carryOn_of_operator (power : Nat) (right : Nat → Reader) (s : TokenStream)
    (op : BinaryOperator) (hop : s.head.kind = op.token) (h : power ≤ 2 * op.tightness + 1)
    (hright : (right (2 * (op.tightness + 1)) s.tail).Satisfies
      (fun _ rest => rest.length < s.length) fun _ => True) :
    carryOn power right s = (do
      let rest ← right (2 * (op.tightness + 1)) s.tail
      Reading.report s.head.pos (.operator op.toOperator.symbol)
      carryOn power right rest) := by
  have hvalid : s.head.kind.isError = false := by
    rw [hop]
    cases op <;> rfl
  rw [carryOn]
  simp only [monadLift_self, peek_of_valid s hvalid, Reading.bind_ok, hop, power?_token,
    if_neg (Nat.not_lt.mpr h), List.nil_append]
  refine Reading.bind_congr_of_satisfies hright fun es rest hrest => ?_
  rw [if_pos hrest]

theorem chain_of_operator (right : Reader) (s : TokenStream) (op : BinaryOperator)
    (hop : s.head.kind = op.token)
    (hright : (right s.tail).Satisfies (fun _ rest => rest.length < s.length) fun _ => True) :
    chain (tier op.tightness) right s = (do
      let rest ← right s.tail
      Reading.report s.head.pos (.operator op.toOperator.symbol)
      chain (tier op.tightness) right rest) := by
  have hvalid : s.head.kind.isError = false := by
    rw [hop]
    cases op <;> rfl
  rw [chain]
  simp only [peek_of_valid s hvalid, Reading.bind_ok, hop, tier_token, List.nil_append]
  refine Reading.bind_congr_of_satisfies hright fun es rest hrest => ?_
  rw [if_pos hrest]

/-- Nothing binds with a power above nine. -/
theorem carryOn_of_ten_le (power : Nat) (h : 10 ≤ power) (right : Nat → Reader) (s : TokenStream) :
    carryOn power right s = (do
      let _ ← peek s
      return s) := by
  cases hvalid : s.head.kind.isError with
  | false =>
      rw [peek_of_valid s hvalid, carryOn_of_stop power right s hvalid]
      · rfl
      · intro op _
        have := op.tightness_lt
        omega
  | true =>
      obtain ⟨e, he⟩ := exists_peek_eq_fail s hvalid
      rw [carryOn]
      simp only [monadLift_self, he]
      rfl

theorem satisfies_climb_shorter (level n : Nat) (hn : n ≤ 5) (s : TokenStream) :
    (climb level (2 * n) s.tail).Satisfies (fun _ rest => rest.length < s.length)
      fun _ => True := by
  rw [climb_two_mul]
  refine (satisfies_binary_shorter level n hn s.tail).mono ?_ fun _ h => h
  intro es rest hrest
  rw [TokenStream.length_tail] at hrest
  omega

/-- To go on with some power is to go on with the next power first, and then with the tier
that lies between. -/
theorem carryOn_eq_chain (level k : Nat) (hk : k < 5) (s : TokenStream) :
    carryOn (2 * k) (climb level) s =
      carryOn (2 * (k + 1)) (climb level) s >>= chain (tier k) (climb level (2 * (k + 1))) := by
  induction hlength : s.length using Nat.strongRecOn generalizing s with
  | ind len ih =>
      cases hvalid : s.head.kind.isError with
      | true =>
          obtain ⟨e, he⟩ := exists_peek_eq_fail s hvalid
          rw [carryOn, carryOn]
          simp only [monadLift_self, he]
          rfl
      | false =>
          by_cases hoperator : ∃ op : BinaryOperator, s.head.kind = op.token ∧ k ≤ op.tightness
          · obtain ⟨op, hop, hle⟩ := hoperator
            have hshorter := satisfies_climb_shorter level (op.tightness + 1) op.tightness_lt s
            rw [carryOn_of_operator _ _ s op hop (by omega) hshorter]
            rcases Nat.eq_or_lt_of_le hle with rfl | hlt
            · -- The operator is of the tier between, and its right operand ends at a looser one.
              have hstop (t : TokenStream) (ht : Clear op.tightness t) :
                  carryOn (2 * (op.tightness + 1)) (climb level) t = ⟨[], .ok t⟩ :=
                carryOn_of_stop _ _ t ht.valid fun op' hop' => by
                  have := ht.loose op' hop'
                  omega
              have hhere : Clear op.tightness s := ⟨hvalid, fun op' hop' =>
                Nat.le_of_eq (tightness_eq_of_token_eq op' op (hop'.symm.trans hop))⟩
              have hclear := satisfies_binary_clear level (4 - op.tightness) op.tightness
                (by omega) s.tail
              rw [hstop s hhere, Reading.bind_ok, chain_of_operator _ s op hop hshorter,
                List.nil_append]
              rw [← climb_two_mul] at hclear
              refine Reading.bind_congr_of_satisfies (hclear.and hshorter) ?_
              rintro es rest ⟨hrest, hlt⟩
              rw [ih rest.length (hlength ▸ hlt) rest rfl, hstop rest hrest]
              rfl
            · rw [carryOn_of_operator _ _ s op hop (by omega) hshorter]
              simp only [bind_assoc]
              refine Reading.bind_congr_of_satisfies hshorter fun es rest hrest => ?_
              rw [ih rest.length (hlength ▸ hrest) rest rfl]
          · have hloose (op : BinaryOperator) (hop : s.head.kind = op.token) : op.tightness < k :=
              Nat.lt_of_not_le fun hle => hoperator ⟨op, hop, hle⟩
            have hlow : carryOn (2 * k) (climb level) s = ⟨[], .ok s⟩ :=
              carryOn_of_stop _ _ s hvalid fun op hop => by
                have := hloose op hop
                omega
            have hhigh : carryOn (2 * (k + 1)) (climb level) s = ⟨[], .ok s⟩ :=
              carryOn_of_stop _ _ s hvalid fun op hop => by
                have := hloose op hop
                omega
            have hnone := tier_eq_none k s.head.kind fun op hop => Nat.ne_of_lt (hloose op hop)
            rw [hlow, hhigh, Reading.bind_ok, chain_of_none _ _ s hvalid hnone]
            rfl

/-- Reading tier by tier is climbing. -/
theorem binary_eq_carryOn (level : Nat) :
    ∀ (j k : Nat), k + j = 5 → ∀ s,
      binary (operand level) (tiers.drop k) s =
        operand level s >>= carryOn (2 * k) (climb level) := by
  intro j
  induction j with
  | zero =>
      rintro k rfl s
      have hend := funext (carryOn_of_ten_le 10 (Nat.le_refl 10) (climb level))
      rw [show 2 * (5 + 0) = 10 from rfl, hend]
      rfl
  | succ j ih =>
      intro k hk s
      rw [drop_tiers k (by omega)]
      change binary (operand level) (tiers.drop (k + 1)) s >>= chain (tier k) _ = _
      rw [ih (k + 1) (by omega) s, bind_assoc]
      refine congrArg _ (funext fun rest => ?_)
      rw [carryOn_eq_chain level k (by omega) rest, climb_two_mul]

/-- With any power that is ever asked for, climbing reads an operand and carries on. -/
theorem climb_eq_carryOn (level power : Nat) (h : power ∈ [0, 2, 4, 6, 8, 10, 11])
    (s : TokenStream) :
    climb level power s = operand level s >>= carryOn power (climb level) := by
  simp only [List.mem_cons, List.not_mem_nil, or_false] at h
  rcases h with rfl | rfl | rfl | rfl | rfl | rfl | rfl
  · exact binary_eq_carryOn level 5 0 rfl s
  · exact binary_eq_carryOn level 4 1 rfl s
  · exact binary_eq_carryOn level 3 2 rfl s
  · exact binary_eq_carryOn level 2 3 rfl s
  · exact binary_eq_carryOn level 1 4 rfl s
  · exact binary_eq_carryOn level 0 5 rfl s
  · have hten := funext (carryOn_of_ten_le 10 (by decide) (climb level))
    have heleven := funext (carryOn_of_ten_le 11 (by decide) (climb level))
    rw [heleven, ← hten]
    exact binary_eq_carryOn level 0 5 rfl s

end Climbing

end Grammar

end StackLang
