import StackLang.Proofs.Grammar.Derivation

/-!
# Whatever can be derived is read

If tokens derive a tree and the tree is not too deep, the grammar reads the tokens and
reports the events of the tree, whatever comes behind them. What comes behind matters
only for expressions: its first token must not be one that would carry the expression on.

An operator of one tier is read by a chain, and the operators of a chain are nested to the
left in the tree, so the left part of a tree is never followed by what ends the chain. The
induction therefore says how far a reader has come behind the tree, and not that it is
through: it goes on with the chain of its own tier.
-/

namespace StackLang

open StackLang.Tree

namespace Grammar

variable {stop : Position}

section Tokens

theorem peek_of_valid (s : TokenStream) (h : s.head.kind.isError = false) :
    peek s = ⟨[], .ok s.head⟩ := by
  unfold peek
  split
  · next e he => simp [he, TokenKind.isError] at h
  · rfl

theorem advance_of_valid (s : TokenStream) (h : s.head.kind.isError = false) :
    advance s = ⟨[], .ok (s.head, s.tail)⟩ := by
  rw [advance, peek_of_valid s h]
  rfl

theorem expect_cons (t : Token) (ts : List Token) (kind : TokenKind) (ht : t.kind = kind)
    (hvalid : kind.isError = false) :
    expect kind (.ofTokens (t :: ts) stop) = ⟨[], .ok (t, .ofTokens ts stop)⟩ := by
  have hhead : (TokenStream.ofTokens (t :: ts) stop).head.kind.isError = false := by
    simpa [ht] using hvalid
  rw [expect, peek_of_valid _ hhead, Reading.bind_ok]
  simp [ht, Reading.pure_eq]

theorem length_ofTokens (ts : List Token) : (TokenStream.ofTokens ts stop).length = ts.length := rfl

end Tokens

section Chains

/-- The operators of one level, by their tokens. -/
def tier (n : Nat) : Tier := tiers.getD n fun _ => none

theorem tier_token (op : BinaryOperator) : tier op.tightness op.token = some op.toOperator := by
  cases op <;> rfl

/-- A token denotes operators of one tier only. -/
theorem tightness_eq_of_token_eq (op op' : BinaryOperator) (h : op.token = op'.token) :
    op.tightness = op'.tightness := by
  have hfind (o : BinaryOperator) :
      tiers.findIdx? (fun t => (t o.token).isSome) = some o.tightness := by
    cases o <;> rfl
  have hop := hfind op
  rw [h, hfind op'] at hop
  exact (Option.some.inj hop).symm

/-- Only the tokens of operators of a level denote operators of its tier. -/
theorem token_of_tier (n : Nat) (kind : TokenKind) (o : Operator) (h : tier n kind = some o) :
    ∃ op : BinaryOperator, op.tightness = n ∧ op.token = kind ∧ op.toOperator = o := by
  match n, h with
  | 0, h =>
      cases kind <;> simp [tier, tiers, disjunction] at h
      exact ⟨.or, rfl, rfl, h⟩
  | 1, h =>
      cases kind <;> simp [tier, tiers, conjunction] at h
      exact ⟨.and, rfl, rfl, h⟩
  | 2, h =>
      cases kind <;> simp [tier, tiers, comparison] at h
      · exact ⟨.eq, rfl, rfl, h⟩
      · exact ⟨.notEq, rfl, rfl, h⟩
      · exact ⟨.less, rfl, rfl, h⟩
      · exact ⟨.lessEq, rfl, rfl, h⟩
      · exact ⟨.greater, rfl, rfl, h⟩
      · exact ⟨.greaterEq, rfl, rfl, h⟩
  | 3, h =>
      cases kind <;> simp [tier, tiers, sum] at h
      · exact ⟨.add, rfl, rfl, h⟩
      · exact ⟨.sub, rfl, rfl, h⟩
  | 4, h =>
      cases kind <;> simp [tier, tiers, product] at h
      · exact ⟨.mul, rfl, rfl, h⟩
      · exact ⟨.div, rfl, rfl, h⟩
  | n + 5, h => simp [tier, tiers] at h

theorem drop_tiers (n : Nat) (hn : n < 5) : tiers.drop n = tier n :: tiers.drop (n + 1) := by
  have hlength : n < tiers.length := hn
  rw [List.drop_eq_getElem_cons hlength, tier, List.getD_eq_getElem?_getD,
    List.getElem?_eq_getElem hlength]
  rfl

theorem chain_of_none (t : Tier) (right : Reader) (s : TokenStream)
    (h : s.head.kind.isError = false) (ht : t s.head.kind = none) :
    chain t right s = ⟨[], .ok s⟩ := by
  rw [chain, peek_of_valid s h, Reading.bind_ok, ht]
  rfl

theorem chain_of_some (t : Tier) (right : Reader) (s rest : TokenStream) (op : Operator)
    (es : List (Located Event)) (h : s.head.kind.isError = false) (ht : t s.head.kind = some op)
    (hright : right s.tail = ⟨es, .ok rest⟩) (hrest : rest.length < s.length) :
    chain t right s =
      (⟨es ++ [⟨s.head.pos, .operator op.symbol⟩], .ok rest⟩ : Reading _) >>= chain t right := by
  rw [chain, peek_of_valid s h, Reading.bind_ok, ht]
  simp only [hright, Reading.bind_ok, Reading.report, if_pos hrest]
  simp

end Chains

section Expressions

/-- The next token is valid, and no operator that binds more tightly than the level `n`. -/
structure Clear (n : Nat) (s : TokenStream) : Prop where
  valid : s.head.kind.isError = false
  loose : ∀ op : BinaryOperator, s.head.kind = op.token → op.tightness ≤ n

theorem Clear.mono {m n : Nat} {s : TokenStream} (h : Clear m s) (hmn : m ≤ n) : Clear n s :=
  ⟨h.valid, fun op hop => Nat.le_trans (h.loose op hop) hmn⟩

/-- Where no tighter operator follows, a chain of tighter operators is at its end. -/
theorem chain_of_clear (m n : Nat) (hmn : m < n) (right : Reader) (s : TokenStream)
    (h : Clear m s) : chain (tier n) right s = ⟨[], .ok s⟩ := by
  refine chain_of_none _ right s h.valid ?_
  cases htier : tier n s.head.kind with
  | none => rfl
  | some o =>
      obtain ⟨op, rfl, htoken, -⟩ := token_of_tier n _ o htier
      have := h.loose op htoken.symm
      omega

/-- An operand, and whether something carries it on. -/
theorem binary_of_operand (level : Nat) (s rest : TokenStream) (es : List (Located Event))
    (h : operand level s = ⟨es, .ok rest⟩) (hrest : rest.head.kind.isError = false) (right : Reader) :
    binary (operand level) (tiers.drop 5) s =
      (⟨es, .ok rest⟩ : Reading TokenStream) >>= chain (tier 5) right := by
  have hchain : chain (tier 5) right rest = ⟨[], .ok rest⟩ := chain_of_none _ right rest hrest rfl
  change (do let rest ← operand level s; let _ ← peek rest; return rest) = _
  rw [h, Reading.bind_ok, Reading.bind_ok, peek_of_valid rest hrest, hchain]
  rfl

theorem le_five_of_derives {n : Nat} {ts : List Token} {e : Expression} (h : e.Derives n ts) :
    n ≤ 5 := by
  induction h with
  | read | integer | string | group | unary => exact Nat.le_refl 5
  | binary op t ht left right ihl ihr => exact ihl
  | tighter h ih => omega

/-- The next token is valid and does not carry an expression on. -/
structure Ended (s : TokenStream) : Prop where
  valid : s.head.kind.isError = false
  notOperator : ∀ op : BinaryOperator, s.head.kind ≠ op.token

theorem Ended.clear {s : TokenStream} (h : Ended s) (n : Nat) : Clear n s :=
  ⟨h.valid, fun op hop => absurd hop (h.notOperator op)⟩

/-- A whole expression is read where nothing carries it on. -/
theorem expression_of_ended (level : Nat) (s rest : TokenStream) (es : List (Located Event))
    (right : Reader) (hrest : Ended rest)
    (h : binary (operand level) (tiers.drop 0) s =
      (⟨es, .ok rest⟩ : Reading TokenStream) >>= chain (tier 0) right) :
    expression level s = ⟨es, .ok rest⟩ := by
  have hchain : chain (tier 0) right rest = ⟨[], .ok rest⟩ := by
    refine chain_of_none _ right rest hrest.valid ?_
    cases htier : tier 0 rest.head.kind with
    | none => rfl
    | some o =>
        obtain ⟨op, -, htoken, -⟩ := token_of_tier 0 _ o htier
        exact absurd htoken.symm (hrest.notOperator op)
  rw [Reading.bind_ok, hchain, List.append_nil] at h
  exact h

theorem advance_cons (t : Token) (ts : List Token) (h : t.kind.isError = false) :
    advance (.ofTokens (t :: ts) stop) = ⟨[], .ok (t, .ofTokens ts stop)⟩ :=
  advance_of_valid _ h

theorem operand_group (level : Nat) (l r : Token) (ts more : List Token) (es : List (Located Event))
    (hl : l.kind = .lparen) (hr : r.kind = .rparen)
    (h : expression level (.ofTokens ts stop) = ⟨es, .ok (.ofTokens (r :: more) stop)⟩) :
    operand (level + 1) (.ofTokens (l :: ts) stop) = ⟨es, .ok (.ofTokens more stop)⟩ := by
  rw [operand, advance_cons l ts (by simp [hl, TokenKind.isError]), Reading.bind_ok]
  simp only [hl]
  rw [expression] at h
  simp only [h, Reading.bind_ok, expect_cons r more .rparen hr rfl, Reading.pure_eq]
  simp

theorem operand_unary (level : Nat) (op : UnaryOperator) (t : Token) (ts : List Token)
    (rest : TokenStream) (es : List (Located Event)) (ht : t.kind = op.token)
    (h : binary (operand level) [] (.ofTokens ts stop) = ⟨es, .ok rest⟩) :
    operand (level + 1) (.ofTokens (t :: ts) stop) =
      ⟨es ++ [⟨t.pos, .operator op.toOperator.symbol⟩], .ok rest⟩ := by
  have hvalid : t.kind.isError = false := by
    rw [ht]
    cases op <;> rfl
  rw [operand, advance_cons t ts hvalid, Reading.bind_ok]
  cases op with
  | negate =>
      simp only [ht, UnaryOperator.token, h, Reading.bind_ok, Reading.report, Reading.pure_eq]
      simp [UnaryOperator.toOperator]
  | not =>
      simp only [ht, UnaryOperator.token, h, Reading.bind_ok, Reading.report, Reading.pure_eq]
      simp [UnaryOperator.toOperator]

/-- The reader of a level comes as far as the tree, and goes on with its own chain. -/
theorem binary_of_derives {n : Nat} {ts : List Token} {e : Expression} (h : e.Derives n ts) :
    ∀ level, e.depth ≤ level → ∀ more, Clear n (.ofTokens more stop) →
      binary (operand level) (tiers.drop n) (.ofTokens (ts ++ more) stop) =
        (⟨e.events, .ok (.ofTokens more stop)⟩ : Reading TokenStream) >>=
          chain (tier n) (binary (operand level) (tiers.drop (n + 1))) := by
  induction h with
  | read t ht | integer t ht | string t ht =>
      intro level hlevel more hmore
      obtain ⟨level, rfl⟩ := Nat.exists_eq_succ_of_ne_zero (Nat.one_le_iff_ne_zero.mp hlevel)
      refine binary_of_operand _ _ _ _ ?_ hmore.valid _
      rw [List.singleton_append, operand, advance_cons t more (by simp [ht, TokenKind.isError]),
        Reading.bind_ok]
      simp only [ht]
      rfl
  | @group ts e l r hl hr inner ih =>
      intro level hlevel more hmore
      obtain ⟨level, rfl⟩ := Nat.exists_eq_succ_of_ne_zero (Nat.ne_of_gt (Nat.zero_lt_of_lt hlevel))
      have hended : Ended (.ofTokens (r :: more) stop) := by
        refine ⟨by simp [hr, TokenKind.isError], fun op hop => ?_⟩
        rw [TokenStream.head_ofTokens_cons, hr] at hop
        cases op <;> simp [BinaryOperator.token] at hop
      have hinner := expression_of_ended level _ _ _ _ hended
        (ih level (Nat.le_of_succ_le_succ hlevel) (r :: more) (hended.clear 0))
      rw [show l :: (ts ++ [r]) ++ more = l :: (ts ++ r :: more) by simp]
      exact binary_of_operand _ _ _ _ (operand_group level l r _ more _ hl hr hinner) hmore.valid _
  | @unary ts e op t ht operand ih =>
      intro level hlevel more hmore
      obtain ⟨level, rfl⟩ := Nat.exists_eq_succ_of_ne_zero (Nat.ne_of_gt (Nat.zero_lt_of_lt hlevel))
      have hinner := ih level (Nat.le_of_succ_le_succ hlevel) more hmore
      rw [Reading.bind_ok, chain_of_none _ _ _ hmore.valid rfl, List.append_nil] at hinner
      have hevents : (Expression.unary ⟨t.pos, op⟩ e).events =
          e.events ++ [⟨t.pos, .operator op.toOperator.symbol⟩] := by
        simp [Expression.events, Expression.plains, Plain.located]
      rw [hevents]
      exact binary_of_operand _ _ _ _ (operand_unary level op t _ _ _ ht hinner) hmore.valid _
  | @binary ls rs l r op t ht left right ihl ihr =>
      intro level hlevel more hmore
      have htier : tier op.tightness t.kind = some op.toOperator := by rw [ht, tier_token]
      have hvalid : t.kind.isError = false := by
        rw [ht]
        cases op <;> rfl
      have hclear : Clear op.tightness (.ofTokens (t :: (rs ++ more)) stop) := by
        refine ⟨hvalid, fun op' hop' => ?_⟩
        exact Nat.le_of_eq (tightness_eq_of_token_eq op' op (hop'.symm.trans ht))
      have hleft := ihl level (Nat.le_trans (Nat.le_max_left _ _) hlevel) _ hclear
      have hright := ihr level (Nat.le_trans (Nat.le_max_right _ _) hlevel) more
        (hmore.mono (Nat.le_succ _))
      rw [Reading.bind_ok, chain_of_clear _ _ (Nat.lt_succ_self _) _ _ hmore,
        List.append_nil] at hright
      have hshorter : (TokenStream.ofTokens more stop).length <
          (TokenStream.ofTokens (t :: (rs ++ more)) stop).length := by
        simp only [length_ofTokens, List.length_cons, List.length_append]
        omega
      have hchain := chain_of_some (tier op.tightness) _ (.ofTokens (t :: (rs ++ more)) stop) _
        op.toOperator r.events hvalid htier hright hshorter
      have hevents : (Expression.binary ⟨t.pos, op⟩ l r).events =
          l.events ++ (r.events ++ [⟨t.pos, .operator op.toOperator.symbol⟩]) := by
        simp [Expression.events, Expression.plains, Plain.located]
      rw [List.append_assoc, List.cons_append, hleft, Reading.bind_ok, hchain, hevents,
        Reading.bind_ok, Reading.bind_ok]
      simp
  | @tighter n ts e h ih =>
      intro level hlevel more hmore
      have hn : n < 5 := le_five_of_derives h
      have hinner := ih level hlevel more (hmore.mono (Nat.le_succ n))
      rw [Reading.bind_ok, chain_of_clear n (n + 1) (Nat.lt_succ_self n) _ _ hmore] at hinner
      rw [drop_tiers n hn]
      change (binary (operand level) (tiers.drop (n + 1)) _ >>= chain (tier n) _) = _
      rw [hinner, List.append_nil]

end Expressions

/-- An expression is read if it can be derived, its depth allows it, and nothing carries it
on. -/
theorem expression_of_derives {ts : List Token} {e : Expression} (h : e.Derives 0 ts) (level : Nat)
    (hlevel : e.depth ≤ level) (more : List Token) (hmore : Ended (.ofTokens more stop)) :
    expression level (.ofTokens (ts ++ more) stop) = ⟨e.events, .ok (.ofTokens more stop)⟩ :=
  expression_of_ended level _ _ _ _ hmore (binary_of_derives h level hlevel more (hmore.clear 0))

section Statements

/-- The kinds of token that a statement can start with. -/
def starters : List TokenKind :=
  [.keyword .declare, .keyword .integer, .keyword .string, .identifier, .keyword .print,
    .keyword .branch, .keyword .loop]

theorem exists_starter {t : Statement} {ts : List Token} (h : t.Derives ts) :
    ∃ first rest, ts = first :: rest ∧ first.kind ∈ starters := by
  cases h with
  | declare kind k name semi hk =>
      refine ⟨k, _, rfl, ?_⟩
      rw [hk]
      cases kind <;> simp [starters, VariableKind.keyword]
  | declareLong kind d k name semi hd => exact ⟨d, _, rfl, by simp [hd, starters]⟩
  | assign name t semi hname => exact ⟨name, _, rfl, by simp [hname, starters]⟩
  | print t semi ht => exact ⟨t, _, rfl, by simp [ht, starters]⟩
  | branch t close semi ht => exact ⟨t, _, rfl, by simp [ht, starters]⟩
  | choice t middle close semi ht => exact ⟨t, _, rfl, by simp [ht, starters]⟩
  | loop t close semi ht => exact ⟨t, _, rfl, by simp [ht, starters]⟩

theorem ended_cons (t : Token) (ts : List Token)
    (h : t.kind ∈ starters ++ [.semicolon, .keyword .otherwise, .keyword .close]) :
    Ended (.ofTokens (t :: ts) stop) := by
  constructor
  · rw [TokenStream.head_ofTokens_cons]
    revert h
    cases t.kind <;> simp [starters, TokenKind.isError]
  · intro op hop
    rw [TokenStream.head_ofTokens_cons] at hop
    rw [hop] at h
    cases op <;> simp [starters, BinaryOperator.token] at h

/-- What can stand behind a condition: statements, or what ends a block. -/
theorem ended_of_derivesAll {ts : List Token} {ss : List Statement}
    (h : Statement.DerivesAll ts ss) (t : Token) (more : List Token)
    (ht : t.kind ∈ [TokenKind.keyword .otherwise, .keyword .close]) :
    Ended (.ofTokens (ts ++ t :: more) stop) := by
  cases h with
  | nil => exact ended_cons t more (by simp_all)
  | cons hfirst hrest =>
      obtain ⟨first, us, rfl, hstarter⟩ := exists_starter hfirst
      exact ended_cons first _ (by simp [hstarter])

theorem block_of_end (terminators : List TokenKind) (st : Reader) (s : TokenStream)
    (h : s.head.kind.isError = false) (hends : ends terminators s.head.kind = true) :
    block terminators st s = ⟨[], .ok s⟩ := by
  rw [block, peek_of_valid s h, Reading.bind_ok, if_pos hends]
  rfl

theorem block_of_statement (terminators : List TokenKind) (st : Reader) (s rest : TokenStream)
    (es : List (Located Event)) (h : s.head.kind.isError = false)
    (hends : ends terminators s.head.kind = false) (hst : st s = ⟨es, .ok rest⟩)
    (hrest : rest.length < s.length) :
    block terminators st s = (⟨es, .ok rest⟩ : Reading TokenStream) >>= block terminators st := by
  rw [block, peek_of_valid s h, Reading.bind_ok, hends]
  simp [hst, Reading.bind_ok, hrest]

/-- No statement starts with what ends a block. -/
theorem ends_eq_false (terminators : List TokenKind)
    (hterminators : terminators ⊆ [.keyword .otherwise, .keyword .close]) (kind : TokenKind)
    (h : kind ∈ starters) : ends terminators kind = false := by
  have hnot : kind ∉ terminators := by
    intro hmem
    have hend := hterminators hmem
    simp only [List.mem_cons, List.not_mem_nil, or_false] at hend
    rcases hend with rfl | rfl <;> simp [starters] at h
  have heof : kind ≠ .eof := by
    rintro rfl
    simp [starters] at h
  simp [ends, heof, hnot]

theorem isError_eq_false (kind : TokenKind) (h : kind ∈ starters) : kind.isError = false := by
  revert h
  cases kind <;> simp [starters, TokenKind.isError]

theorem closing_cons (close semi : Token) (more : List Token)
    (hclose : close.kind = .keyword .close) (hsemi : semi.kind = .semicolon) :
    closing (.ofTokens (close :: semi :: more) stop) =
      ⟨[⟨close.pos, .close⟩], .ok (.ofTokens more stop)⟩ := by
  rw [closing, expect_cons close _ _ hclose rfl, Reading.bind_ok]
  simp only [Reading.report, Reading.bind_ok, expect_cons semi more _ hsemi rfl, Reading.pure_eq]
  rfl

theorem declaration_cons (kind : VariableKind) (name semi : Token) (more : List Token)
    (hname : name.kind = .identifier) (hsemi : semi.kind = .semicolon) :
    declaration kind (.ofTokens (name :: semi :: more) stop) =
      ⟨[⟨name.pos, .declare kind name.text⟩], .ok (.ofTokens more stop)⟩ := by
  rw [declaration, expect_cons name _ _ hname rfl, Reading.bind_ok]
  simp only [Reading.report, Reading.bind_ok, expect_cons semi more _ hsemi rfl, Reading.pure_eq]
  rfl

theorem statement_declare (level : Nat) (kind : VariableKind) (k name semi : Token)
    (more : List Token) (hk : k.kind = .keyword kind.keyword) (hname : name.kind = .identifier)
    (hsemi : semi.kind = .semicolon) :
    statement (level + 1) (.ofTokens (k :: name :: semi :: more) stop) =
      ⟨[⟨name.pos, .declare kind name.text⟩], .ok (.ofTokens more stop)⟩ := by
  rw [statement, advance_cons k _ (by simp [hk, TokenKind.isError]), Reading.bind_ok]
  cases kind <;>
    simp only [hk, VariableKind.keyword, declaration_cons _ name semi more hname hsemi] <;> rfl

theorem statement_declareLong (level : Nat) (kind : VariableKind) (d k name semi : Token)
    (more : List Token) (hd : d.kind = .keyword .declare) (hk : k.kind = .keyword kind.keyword)
    (hname : name.kind = .identifier) (hsemi : semi.kind = .semicolon) :
    statement (level + 1) (.ofTokens (d :: k :: name :: semi :: more) stop) =
      ⟨[⟨name.pos, .declare kind name.text⟩], .ok (.ofTokens more stop)⟩ := by
  have hkind : declaredKind (.ofTokens (k :: name :: semi :: more) stop) =
      ⟨[], .ok (kind, .ofTokens (name :: semi :: more) stop)⟩ := by
    rw [declaredKind, peek_of_valid _ (by simp [hk, TokenKind.isError]), Reading.bind_ok]
    cases kind <;> simp only [TokenStream.head_ofTokens_cons, hk, VariableKind.keyword] <;> rfl
  rw [statement, advance_cons d _ (by simp [hd, TokenKind.isError]), Reading.bind_ok]
  simp only [hd, hkind, Reading.bind_ok, declaration_cons _ name semi more hname hsemi]
  rfl

theorem statement_assign (level : Nat) (name t semi : Token) (vs more : List Token)
    (es : List (Located Event)) (hname : name.kind = .identifier) (ht : t.kind = .assign)
    (hsemi : semi.kind = .semicolon)
    (hvalue : expression level (.ofTokens vs stop) = ⟨es, .ok (.ofTokens (semi :: more) stop)⟩) :
    statement (level + 1) (.ofTokens (name :: t :: vs) stop) =
      ⟨⟨name.pos, .target name.text⟩ :: (es ++ [⟨t.pos, .assign⟩]), .ok (.ofTokens more stop)⟩ := by
  rw [statement, advance_cons name _ (by simp [hname, TokenKind.isError]), Reading.bind_ok]
  simp only [hname, assignment, Reading.report, Reading.bind_ok, expect_cons t vs _ ht rfl, hvalue,
    expect_cons semi more _ hsemi rfl, Reading.pure_eq]
  simp

theorem statement_print (level : Nat) (t semi : Token) (vs more : List Token)
    (es : List (Located Event)) (ht : t.kind = .keyword .print) (hsemi : semi.kind = .semicolon)
    (hvalue : expression level (.ofTokens vs stop) = ⟨es, .ok (.ofTokens (semi :: more) stop)⟩) :
    statement (level + 1) (.ofTokens (t :: vs) stop) =
      ⟨es ++ [⟨t.pos, .print⟩], .ok (.ofTokens more stop)⟩ := by
  rw [statement, advance_cons t _ (by simp [ht, TokenKind.isError]), Reading.bind_ok]
  simp only [ht, Reading.report, Reading.bind_ok, hvalue, expect_cons semi more _ hsemi rfl,
    Reading.pure_eq]
  simp

theorem statement_branch (level : Nat) (t close semi : Token) (cs bs more : List Token)
    (es fs : List (Located Event)) (ht : t.kind = .keyword .branch)
    (hclose : close.kind = .keyword .close) (hsemi : semi.kind = .semicolon)
    (hcondition : expression level (.ofTokens cs stop) = ⟨es, .ok (.ofTokens bs stop)⟩)
    (hbody : block [.keyword .otherwise, .keyword .close] (statement level) (.ofTokens bs stop) =
      ⟨fs, .ok (.ofTokens (close :: semi :: more) stop)⟩) :
    statement (level + 1) (.ofTokens (t :: cs) stop) =
      ⟨es ++ ⟨t.pos, .branch⟩ :: (fs ++ [⟨close.pos, .close⟩]), .ok (.ofTokens more stop)⟩ := by
  have halternative : alternative (statement level) (.ofTokens (close :: semi :: more) stop) =
      ⟨[], .ok (.ofTokens (close :: semi :: more) stop)⟩ := by
    rw [alternative, peek_of_valid _ (by simp [hclose, TokenKind.isError]), Reading.bind_ok]
    simp [hclose, Reading.pure_eq]
  rw [statement, advance_cons t _ (by simp [ht, TokenKind.isError]), Reading.bind_ok]
  simp only [ht, Reading.report, Reading.bind_ok, hcondition, hbody, halternative,
    closing_cons close semi more hclose hsemi]
  simp

theorem statement_choice (level : Nat) (t middle close semi : Token)
    (cs bs os more : List Token) (es fs gs : List (Located Event)) (ht : t.kind = .keyword .branch)
    (hmiddle : middle.kind = .keyword .otherwise) (hclose : close.kind = .keyword .close)
    (hsemi : semi.kind = .semicolon)
    (hcondition : expression level (.ofTokens cs stop) = ⟨es, .ok (.ofTokens bs stop)⟩)
    (hbody : block [.keyword .otherwise, .keyword .close] (statement level) (.ofTokens bs stop) =
      ⟨fs, .ok (.ofTokens (middle :: os) stop)⟩)
    (hother : block [.keyword .close] (statement level) (.ofTokens os stop) =
      ⟨gs, .ok (.ofTokens (close :: semi :: more) stop)⟩) :
    statement (level + 1) (.ofTokens (t :: cs) stop) =
      ⟨es ++ ⟨t.pos, .branch⟩ ::
        (fs ++ ⟨middle.pos, .otherwise⟩ :: (gs ++ [⟨close.pos, .close⟩])),
        .ok (.ofTokens more stop)⟩ := by
  have halternative : alternative (statement level) (.ofTokens (middle :: os) stop) =
      ⟨⟨middle.pos, .otherwise⟩ :: gs, .ok (.ofTokens (close :: semi :: more) stop)⟩ := by
    rw [alternative, peek_of_valid _ (by simp [hmiddle, TokenKind.isError]), Reading.bind_ok]
    simp [hmiddle, Reading.report, Reading.bind_ok, hother]
  rw [statement, advance_cons t _ (by simp [ht, TokenKind.isError]), Reading.bind_ok]
  simp only [ht, Reading.report, Reading.bind_ok, hcondition, hbody, halternative,
    closing_cons close semi more hclose hsemi]
  simp

theorem statement_loop (level : Nat) (t close semi : Token) (cs bs more : List Token)
    (es fs : List (Located Event)) (ht : t.kind = .keyword .loop)
    (hclose : close.kind = .keyword .close) (hsemi : semi.kind = .semicolon)
    (hcondition : expression level (.ofTokens cs stop) = ⟨es, .ok (.ofTokens bs stop)⟩)
    (hbody : block [.keyword .close] (statement level) (.ofTokens bs stop) =
      ⟨fs, .ok (.ofTokens (close :: semi :: more) stop)⟩) :
    statement (level + 1) (.ofTokens (t :: cs) stop) =
      ⟨⟨t.pos, .loop⟩ :: (es ++ ⟨t.pos, .branch⟩ :: (fs ++ [⟨close.pos, .close⟩])),
        .ok (.ofTokens more stop)⟩ := by
  rw [statement, advance_cons t _ (by simp [ht, TokenKind.isError]), Reading.bind_ok]
  simp only [ht, Reading.report, Reading.bind_ok, hcondition, hbody,
    closing_cons close semi more hclose hsemi]
  simp

mutual

theorem statement_of_derives : ∀ (t : Statement) (ts : List Token) (level : Nat), t.Derives ts →
    t.depth ≤ level → ∀ more, statement level (.ofTokens (ts ++ more) stop) =
      ⟨Nest.eventsAll t.nests, .ok (.ofTokens more stop)⟩
  | .declare kind name, ts, level, h, hlevel, more => by
      obtain ⟨level, rfl⟩ := Nat.exists_eq_succ_of_ne_zero (Nat.ne_of_gt (Nat.zero_lt_of_lt hlevel))
      cases h with
      | declare _ k name semi hk hname hsemi =>
          exact statement_declare level kind k name semi more hk hname hsemi
      | declareLong _ d k name semi hd hk hname hsemi =>
          exact statement_declareLong level kind d k name semi more hd hk hname hsemi
  | .assign name pos value, ts, level, h, hlevel, more => by
      obtain ⟨level, rfl⟩ := Nat.exists_eq_succ_of_ne_zero (Nat.ne_of_gt (Nat.zero_lt_of_lt hlevel))
      cases h with
      | @assign vs _ name t semi hname ht hsemi hvalue =>
          have hexpression : expression level (.ofTokens (vs ++ semi :: more) stop) = _ :=
            expression_of_derives hvalue level (Nat.le_of_succ_le_succ hlevel) (semi :: more)
              (ended_cons semi more (by simp [hsemi]))
          rw [show name :: t :: (vs ++ [semi]) ++ more = name :: t :: (vs ++ semi :: more) by simp,
            statement_assign level name t semi _ more _ hname ht hsemi hexpression]
          simp [Statement.nests, Nest.eventsAll, Nest.events, Nest.eventsAll_append,
            Expression.events, Plain.located]
  | .print pos value, ts, level, h, hlevel, more => by
      obtain ⟨level, rfl⟩ := Nat.exists_eq_succ_of_ne_zero (Nat.ne_of_gt (Nat.zero_lt_of_lt hlevel))
      cases h with
      | @print vs _ t semi ht hsemi hvalue =>
          have hexpression : expression level (.ofTokens (vs ++ semi :: more) stop) = _ :=
            expression_of_derives hvalue level (Nat.le_of_succ_le_succ hlevel) (semi :: more)
              (ended_cons semi more (by simp [hsemi]))
          rw [show t :: (vs ++ [semi]) ++ more = t :: (vs ++ semi :: more) by simp,
            statement_print level t semi _ more _ ht hsemi hexpression]
          simp [Statement.nests, Nest.eventsAll, Nest.events, Nest.eventsAll_append,
            Expression.events, Plain.located]
  | .branch pos condition body close, ts, level, h, hlevel, more => by
      obtain ⟨level, rfl⟩ := Nat.exists_eq_succ_of_ne_zero (Nat.ne_of_gt (Nat.zero_lt_of_lt hlevel))
      obtain ⟨hdepth, hdepths⟩ := Nat.max_le.mp (Nat.le_of_succ_le_succ hlevel)
      cases h with
      | @branch cs bs _ _ t close semi ht hclose hsemi hcondition hbody =>
          have hexpression : expression level (.ofTokens (cs ++ (bs ++ close :: semi :: more)) stop) =
              _ := expression_of_derives hcondition level hdepth _
            (ended_of_derivesAll hbody close _ (by simp [hclose]))
          have hblock := block_of_derives body bs level hbody hdepths
            [.keyword .otherwise, .keyword .close] (List.Subset.refl _) (close :: semi :: more)
            (by simp [hclose, TokenKind.isError]) (by simp [hclose, ends])
          rw [show t :: (cs ++ (bs ++ [close, semi])) ++ more =
              t :: (cs ++ (bs ++ close :: semi :: more)) by simp,
            statement_branch level t close semi _ _ more _ _ ht hclose hsemi hexpression hblock]
          simp [Statement.nests, Statement.events, Nest.eventsAll, Nest.events,
            Nest.eventsAll_append, Expression.events]
  | .choice pos condition body middle other close, ts, level, h, hlevel, more => by
      obtain ⟨level, rfl⟩ := Nat.exists_eq_succ_of_ne_zero (Nat.ne_of_gt (Nat.zero_lt_of_lt hlevel))
      obtain ⟨hdepth, hdepths⟩ := Nat.max_le.mp (Nat.le_of_succ_le_succ hlevel)
      obtain ⟨hdepthBody, hdepthOther⟩ := Nat.max_le.mp hdepths
      cases h with
      | @choice cs bs os _ _ _ t middle close semi ht hmiddle hclose hsemi hcondition hbody hother =>
          have hexpression : expression level
              (.ofTokens (cs ++ (bs ++ middle :: (os ++ close :: semi :: more))) stop) = _ :=
            expression_of_derives hcondition level hdepth _
              (ended_of_derivesAll hbody middle _ (by simp [hmiddle]))
          have hblock := block_of_derives body bs level hbody hdepthBody
            [.keyword .otherwise, .keyword .close] (List.Subset.refl _)
            (middle :: (os ++ close :: semi :: more)) (by simp [hmiddle, TokenKind.isError])
            (by simp [hmiddle, ends])
          have hblockOther := block_of_derives other os level hother hdepthOther
            [.keyword .close] (by simp) (close :: semi :: more)
            (by simp [hclose, TokenKind.isError]) (by simp [hclose, ends])
          rw [show t :: (cs ++ (bs ++ middle :: (os ++ [close, semi]))) ++ more =
              t :: (cs ++ (bs ++ middle :: (os ++ close :: semi :: more))) by simp,
            statement_choice level t middle close semi _ _ _ more _ _ _ ht hmiddle hclose hsemi
              hexpression hblock hblockOther]
          simp [Statement.nests, Statement.events, Nest.eventsAll, Nest.events,
            Nest.eventsAll_append, Expression.events]
  | .loop pos condition body close, ts, level, h, hlevel, more => by
      obtain ⟨level, rfl⟩ := Nat.exists_eq_succ_of_ne_zero (Nat.ne_of_gt (Nat.zero_lt_of_lt hlevel))
      obtain ⟨hdepth, hdepths⟩ := Nat.max_le.mp (Nat.le_of_succ_le_succ hlevel)
      cases h with
      | @loop cs bs _ _ t close semi ht hclose hsemi hcondition hbody =>
          have hexpression : expression level (.ofTokens (cs ++ (bs ++ close :: semi :: more)) stop) =
              _ := expression_of_derives hcondition level hdepth _
            (ended_of_derivesAll hbody close _ (by simp [hclose]))
          have hblock := block_of_derives body bs level hbody hdepths [.keyword .close] (by simp)
            (close :: semi :: more) (by simp [hclose, TokenKind.isError]) (by simp [hclose, ends])
          rw [show t :: (cs ++ (bs ++ [close, semi])) ++ more =
              t :: (cs ++ (bs ++ close :: semi :: more)) by simp,
            statement_loop level t close semi _ _ more _ _ ht hclose hsemi hexpression hblock]
          simp [Statement.nests, Statement.events, Nest.eventsAll, Nest.events, Expression.events]

/-- A block is read up to a token that ends it. -/
theorem block_of_derives : ∀ (ss : List Statement) (ts : List Token) (level : Nat),
    Statement.DerivesAll ts ss → Statement.depthAll ss ≤ level → ∀ (terminators : List TokenKind),
    terminators ⊆ [.keyword .otherwise, .keyword .close] → ∀ more,
    (TokenStream.ofTokens more stop).head.kind.isError = false →
    ends terminators (TokenStream.ofTokens more stop).head.kind = true →
    block terminators (statement level) (.ofTokens (ts ++ more) stop) =
      ⟨Statement.events ss, .ok (.ofTokens more stop)⟩
  | [], ts, level, h, _, terminators, _, more, hvalid, hends => by
      cases h
      exact block_of_end terminators _ _ hvalid hends
  | t :: ss, ts, level, h, hlevel, terminators, hterminators, more, hvalid, hends => by
      cases h with
      | @cons us vs _ _ hfirst hrest =>
          obtain ⟨first, rest, hus, hstarter⟩ := exists_starter hfirst
          have hdepth : t.depth ≤ level := Nat.le_trans (Nat.le_max_left _ _) hlevel
          have hstatement := statement_of_derives t us level hfirst hdepth (vs ++ more)
          have hblock := block_of_derives ss vs level hrest
            (Nat.le_trans (Nat.le_max_right _ _) hlevel) terminators hterminators more hvalid hends
          have hhead : (TokenStream.ofTokens (us ++ (vs ++ more)) stop).head = first := by
            rw [hus]
            rfl
          rw [List.append_assoc, block_of_statement terminators _ _ _ _
            (by rw [hhead]; exact isError_eq_false _ hstarter)
            (by rw [hhead]; exact ends_eq_false terminators hterminators _ hstarter) hstatement
            (by simp only [length_ofTokens, hus, List.length_append, List.length_cons]; omega),
            Reading.bind_ok, hblock]
          simp [Statement.events, Statement.nestsAll, Nest.eventsAll_append]

end

/-- All of a text is read if it can be derived, whatever the limit on nesting is. -/
theorem block_of_derivesAll {ss : List Statement} {ts : List Token}
    (h : Statement.DerivesAll ts ss) (level : Nat) (hlevel : Statement.depthAll ss ≤ level) :
    block [] (statement level) (.ofTokens ts stop) =
      ⟨Statement.events ss, .ok (.ofTokens [] stop)⟩ := by
  have hblock := block_of_derives ss ts level h hlevel [] (by simp) []
    (show (TokenStream.ofTokens [] stop).head.kind.isError = false from rfl) rfl
  rwa [List.append_nil] at hblock

theorem program_of_derivesAll {ss : List Statement} {ts : List Token}
    (h : Statement.DerivesAll ts ss) (hlevel : Statement.depthAll ss ≤ maxLevel) :
    program (.ofTokens ts stop) = ⟨Statement.events ss, .ok ()⟩ := by
  rw [program, block_of_derivesAll h maxLevel hlevel, Reading.bind_ok]
  simp [expect, peek, TokenStream.head_ofTokens_nil, Reading.done, bind, Reading.andThen, pure]

end Statements

end Grammar

end StackLang
