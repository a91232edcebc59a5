import StackLang.Proofs.Grammar.Completeness
import StackLang.Proofs.Tree.Scope

/-!
# Whatever is read can be derived

Reading tokens to a result means that the tokens read derive a tree, and that the events
reported are those of the tree. Reading that ends with a fault has reported events as
well: they are the start of some well-nested sequence, so that a draft that follows them
never finds a construct out of place.

`Satisfies` states both at once, and is proved along the binds of a reader.
-/

namespace StackLang

namespace Reading

variable {α β : Type} {P : List (Located Event) → α → Prop} {B : List (Located Event) → Prop}

/-- The events satisfy `P` with the result, or `B` if there is none. -/
def Satisfies (r : Reading α) (P : List (Located Event) → α → Prop)
    (B : List (Located Event) → Prop) : Prop :=
  match r.outcome with
  | .ok a => P r.events a
  | .error _ => B r.events

theorem satisfies_pure (a : α) (h : P [] a) : (pure a : Reading α).Satisfies P B := h

theorem satisfies_fail (pos : Position) (f : Fault) (h : B []) :
    (fail pos f : Reading α).Satisfies P B := h

theorem Satisfies.bind {r : Reading α} {f : α → Reading β}
    {Q : List (Located Event) → β → Prop} {C : List (Located Event) → Prop}
    (h : r.Satisfies P B) (hB : ∀ es, B es → C es)
    (hf : ∀ es a, P es a →
      (f a).Satisfies (fun fs b => Q (es ++ fs) b) (fun fs => C (es ++ fs))) :
    (r >>= f).Satisfies Q C := by
  rcases r with ⟨es, outcome⟩
  cases outcome with
  | error e => exact hB es h
  | ok a => exact hf es a h

theorem Satisfies.mono {r : Reading α} {Q : List (Located Event) → α → Prop}
    {C : List (Located Event) → Prop} (h : r.Satisfies P B) (hP : ∀ es a, P es a → Q es a)
    (hB : ∀ es, B es → C es) : r.Satisfies Q C := by
  rcases r with ⟨es, outcome⟩
  cases outcome with
  | error e => exact hB es h
  | ok a => exact hP es a h

/-- Reporting an event and going on. -/
theorem satisfies_report {f : Unit → Reading β} {Q : List (Located Event) → β → Prop}
    {C : List (Located Event) → Prop} (pos : Position) (e : Event)
    (h : (f ()).Satisfies (fun es b => Q (⟨pos, e⟩ :: es) b) (fun es => C (⟨pos, e⟩ :: es))) :
    (report pos e >>= f).Satisfies Q C := h

end Reading

namespace TokenStream

/-- The tokens `ts` come first, and `rest` is what they leave. -/
def Splits (s : TokenStream) (ts : List Token) (rest : TokenStream) : Prop :=
  s.tokens = ts ++ rest.tokens ∧ rest.stop = s.stop

theorem Splits.refl (s : TokenStream) : s.Splits [] s := ⟨rfl, rfl⟩

theorem Splits.trans {s s' s'' : TokenStream} {ts us : List Token} (h : s.Splits ts s')
    (h' : s'.Splits us s'') : s.Splits (ts ++ us) s'' := by
  refine ⟨?_, h'.2.trans h.2⟩
  rw [h.1, h'.1, List.append_assoc]

theorem splits_head (s : TokenStream) (h : s.head.kind ≠ .eof) : s.Splits [s.head] s.tail := by
  rcases s with ⟨tokens, stop, length, hlength⟩
  cases tokens with
  | nil => exact absurd rfl h
  | cons t ts => exact ⟨rfl, rfl⟩

end TokenStream

open StackLang.Tree

namespace Grammar

/-- Events outside of all control constructs, with known operators. -/
def Simple (es : List (Located Event)) : Prop :=
  ∀ e ∈ es, e.item.isControl = false ∧ e.item.Known

theorem simple_nil : Simple [] := by simp [Simple]

theorem Simple.append {es fs : List (Located Event)} (h : Simple es) (h' : Simple fs) :
    Simple (es ++ fs) := by
  intro e he
  rcases List.mem_append.mp he with he | he
  · exact h e he
  · exact h' e he

theorem simple_operator (pos : Position) (op : Operator) :
    Simple [⟨pos, .operator op.symbol⟩] := by
  simp [Simple, Event.isControl, Event.Known, Operator.ofSymbol?_symbol]

theorem simple_events (e : Expression) : Simple e.events := by
  intro x hx
  obtain ⟨p, hp, rfl⟩ := List.mem_map.mp hx
  exact ⟨p.isPlain, e.known p hp⟩

/-- Simple events are plain. -/
theorem Simple.exists_plains {es : List (Located Event)} (h : Simple es) :
    ∃ ps : List Plain, ps.map Plain.located = es ∧ ∀ p ∈ ps, p.event.Known := by
  induction es with
  | nil => exact ⟨[], rfl, by simp⟩
  | cons e es ih =>
      obtain ⟨ps, hps, hknown⟩ := ih fun e' he' => h e' (List.mem_cons_of_mem _ he')
      obtain ⟨hplain, he⟩ := h e List.mem_cons_self
      refine ⟨⟨e.pos, e.item, hplain⟩ :: ps, ?_, ?_⟩
      · rw [List.map_cons, hps]
        rfl
      · simpa using ⟨he, hknown⟩

theorem satisfies_peek (s : TokenStream) :
    (peek s).Satisfies (fun es t => es = [] ∧ t = s.head) (fun es => es = []) := by
  unfold peek
  split
  · exact rfl
  · exact ⟨rfl, rfl⟩

theorem satisfies_advance (s : TokenStream) :
    (advance s).Satisfies (fun es x => es = [] ∧ x = (s.head, s.tail)) (fun es => es = []) := by
  refine (satisfies_peek s).bind (fun _ h => h) ?_
  rintro es t ⟨rfl, rfl⟩
  exact ⟨rfl, rfl⟩

theorem satisfies_expect (kind : TokenKind) (s : TokenStream) :
    (expect kind s).Satisfies (fun es x => es = [] ∧ x = (s.head, s.tail) ∧ s.head.kind = kind)
      (fun es => es = []) := by
  refine (satisfies_peek s).bind (fun _ h => h) ?_
  rintro es t ⟨rfl, rfl⟩
  by_cases hkind : s.head.kind = kind
  · rw [if_pos hkind]
    exact ⟨rfl, rfl, hkind⟩
  · rw [if_neg hkind]
    exact rfl

section Expressions

/-- Reading took the tokens of an expression of level `n` off the stream `s`, left `rest`,
and reported the events `es` of the expression. -/
def ReadsExpression (level n : Nat) (s : TokenStream) (es : List (Located Event))
    (rest : TokenStream) : Prop :=
  ∃ ts e, s.Splits ts rest ∧ Expression.Derives n ts e ∧ es = e.events ∧ e.depth ≤ level

/-- A chain behind a left operand makes an expression with it. -/
theorem satisfies_chain (level n : Nat) (right : Reader)
    (hright : ∀ s, (right s).Satisfies (ReadsExpression level (n + 1) s) Simple)
    (s : TokenStream) (ls : List Token) (l : Expression) (hl : l.Derives n ls)
    (hdepth : l.depth ≤ level) :
    (chain (tier n) right s).Satisfies
      (fun es rest => ∃ ts e, s.Splits ts rest ∧ Expression.Derives n (ls ++ ts) e ∧
        l.events ++ es = e.events ∧ e.depth ≤ level) Simple := by
  induction hlength : s.length using Nat.strongRecOn generalizing s ls l with
  | ind k ih =>
      rw [chain]
      refine (satisfies_peek s).bind (fun es hes => hes ▸ simple_nil) ?_
      rintro es t ⟨rfl, rfl⟩
      cases htier : tier n s.head.kind with
      | none =>
          refine Reading.satisfies_pure s ?_
          exact ⟨[], l, TokenStream.Splits.refl s, by simpa using hl, by simp, hdepth⟩
      | some o =>
          obtain ⟨op, rfl, htoken, rfl⟩ := token_of_tier n _ o htier
          have hhead : s.head.kind ≠ .eof := by
            rw [← htoken]
            cases op <;> simp [BinaryOperator.token]
          refine (hright s.tail).bind (fun es hes => hes) ?_
          rintro es rest ⟨rs, r, hsplits, hr, rfl, hrdepth⟩
          refine Reading.satisfies_report _ _ ?_
          -- The tree so far, which is the left operand of what follows.
          have htree := Expression.Derives.binary op s.head htoken.symm hl hr
          have htaken : s.Splits (s.head :: rs) rest := (s.splits_head hhead).trans hsplits
          have hevents : (Expression.binary ⟨s.head.pos, op⟩ l r).events =
              l.events ++ (r.events ++ [⟨s.head.pos, .operator op.toOperator.symbol⟩]) := by
            simp [Expression.events, Expression.plains, Plain.located]
          have hsimple : Simple (r.events ++ [⟨s.head.pos, .operator op.toOperator.symbol⟩]) :=
            (simple_events r).append (simple_operator _ _)
          have hboth : (Expression.binary ⟨s.head.pos, op⟩ l r).depth ≤ level :=
            Nat.max_le.mpr ⟨hdepth, hrdepth⟩
          by_cases hshorter : rest.length < s.length
          · rw [if_pos hshorter]
            refine (ih rest.length (hlength ▸ hshorter) rest _ _ htree hboth rfl).mono ?_ ?_
            · rintro fs rest' ⟨ts, e, hrest, he, hfs, hedepth⟩
              refine ⟨s.head :: rs ++ ts, e, htaken.trans hrest, by simpa using he, ?_, hedepth⟩
              rw [← hfs, hevents]
              simp
            · intro fs hfs
              simpa using hsimple.append hfs
          · rw [if_neg hshorter]
            refine ⟨s.head :: rs, _, htaken, htree, ?_, hboth⟩
            rw [hevents]
            rfl

/-- The readers of all levels read expressions, if the reader of operands does. -/
theorem satisfies_binary (level : Nat)
    (hoperand : ∀ s, (operand level s).Satisfies (ReadsExpression level 5 s) Simple) :
    ∀ (k n : Nat), n + k = 5 → ∀ s,
      (binary (operand level) (tiers.drop n) s).Satisfies (ReadsExpression level n s) Simple := by
  intro k
  induction k with
  | zero =>
      rintro n rfl s
      refine (hoperand s).bind (fun es hes => hes) ?_
      rintro es rest ⟨ts, e, hsplits, he, rfl, hdepth⟩
      refine (satisfies_peek rest).bind ?_ ?_
      · rintro fs rfl
        simpa using simple_events e
      · rintro fs t ⟨rfl, -⟩
        refine Reading.satisfies_pure rest ?_
        exact ⟨ts, e, hsplits, he, by simp, hdepth⟩
  | succ k ih =>
      intro n hn s
      have htighter := ih (n + 1) (by omega)
      rw [drop_tiers n (by omega)]
      refine (htighter s).bind (fun es hes => hes) ?_
      rintro es rest ⟨ls, l, hsplits, hl, rfl, hdepth⟩
      refine (satisfies_chain level n _ htighter rest ls l (.tighter hl) hdepth).mono ?_ ?_
      · rintro fs rest' ⟨ts, e, hrest, he, hfs, hedepth⟩
        exact ⟨ls ++ ts, e, hsplits.trans hrest, he, hfs, hedepth⟩
      · exact fun fs hfs => (simple_events l).append hfs

/-- A prefix operator in front of an operand. -/
theorem satisfies_unary (level : Nat) (op : UnaryOperator) (s : TokenStream)
    (hkind : s.head.kind = op.token)
    (h : (binary (operand level) [] s.tail).Satisfies (ReadsExpression level 5 s.tail) Simple) :
    (do
      let rest ← binary (operand level) [] s.tail
      Reading.report s.head.pos (.operator op.toOperator.symbol)
      return rest : Reading TokenStream).Satisfies (ReadsExpression (level + 1) 5 s) Simple := by
  have hhead : s.head.kind ≠ .eof := by
    rw [hkind]
    cases op <;> simp [UnaryOperator.token]
  refine h.bind (fun es hes => hes) ?_
  rintro es rest ⟨ts, e, hsplits, he, rfl, hdepth⟩
  refine Reading.satisfies_report _ _ (Reading.satisfies_pure _ ?_)
  refine ⟨s.head :: ts, .unary ⟨s.head.pos, op⟩ e, (s.splits_head hhead).trans hsplits,
    .unary op s.head hkind he, ?_, Nat.succ_le_succ hdepth⟩
  simp [Expression.events, Expression.plains, Plain.located]

theorem satisfies_operand (level : Nat) (s : TokenStream) :
    (operand level s).Satisfies (ReadsExpression level 5 s) Simple := by
  induction level generalizing s with
  | zero =>
      rw [operand]
      refine (satisfies_advance s).bind (fun es hes => hes ▸ simple_nil) ?_
      rintro es x ⟨rfl, rfl⟩
      exact Reading.satisfies_fail _ _ simple_nil
  | succ level ih =>
      rw [operand]
      refine (satisfies_advance s).bind (fun es hes => hes ▸ simple_nil) ?_
      rintro es x ⟨rfl, rfl⟩
      have hinner := satisfies_binary level ih
      dsimp only
      split
      · next hkind =>
        exact ⟨[s.head], _, s.splits_head (by simp [hkind]), .read s.head hkind, rfl,
          Nat.le_add_left 1 level⟩
      · next hkind =>
        exact ⟨[s.head], _, s.splits_head (by simp [hkind]), .integer s.head hkind, rfl,
          Nat.le_add_left 1 level⟩
      · next hkind =>
        exact ⟨[s.head], _, s.splits_head (by simp [hkind]), .string s.head hkind, rfl,
          Nat.le_add_left 1 level⟩
      · next hkind =>
        refine (hinner 5 0 rfl s.tail).bind (fun es hes => hes) ?_
        rintro es rest ⟨ts, e, hsplits, he, rfl, hdepth⟩
        refine (satisfies_expect .rparen rest).bind ?_ ?_
        · rintro fs rfl
          simpa using simple_events e
        · rintro fs x ⟨rfl, rfl, hright⟩
          refine Reading.satisfies_pure _ ⟨s.head :: (ts ++ [rest.head]), .group e, ?_, ?_, ?_, ?_⟩
          · exact ((s.splits_head (by simp [hkind])).trans hsplits).trans
              (rest.splits_head (by simp [hright]))
          · exact .group s.head rest.head hkind hright he
          · simp [Expression.events, Expression.plains]
          · exact Nat.succ_le_succ hdepth
      · next hkind => exact satisfies_unary level .negate s hkind (hinner 0 5 rfl s.tail)
      · next hkind => exact satisfies_unary level .not s hkind (hinner 0 5 rfl s.tail)
      · exact Reading.satisfies_fail _ _ simple_nil

/-- What an expression reader does on any tokens. -/
theorem satisfies_expression (level : Nat) (s : TokenStream) :
    (expression level s).Satisfies (ReadsExpression level 0 s) Simple :=
  satisfies_binary level (satisfies_operand level) 5 0 rfl s

end Expressions

section Begun

/-- The events are the start of a well-nested sequence with known operators. -/
def Begun (es : List (Located Event)) : Prop :=
  ∃ ns more, es ++ more = Nest.eventsAll ns ∧ ∀ p ∈ Nest.plainsAll ns, p.event.Known

theorem begun_nests (ns : List Nest) (h : ∀ p ∈ Nest.plainsAll ns, p.event.Known) :
    Begun (Nest.eventsAll ns) :=
  ⟨ns, [], List.append_nil _, h⟩

theorem begun_nil : Begun [] := begun_nests [] (by simp [Nest.plainsAll])

theorem begun_events (ss : List Statement) : Begun (Statement.events ss) :=
  begun_nests _ (Statement.knownAll ss)

theorem Begun.after_nests {es : List (Located Event)} (h : Begun es) (ns : List Nest)
    (hns : ∀ p ∈ Nest.plainsAll ns, p.event.Known) : Begun (Nest.eventsAll ns ++ es) := by
  obtain ⟨ms, more, hms, hknown⟩ := h
  refine ⟨ns ++ ms, more, ?_, ?_⟩
  · rw [Nest.eventsAll_append, ← hms, List.append_assoc]
  · simpa [Nest.plainsAll_append, or_imp, forall_and] using ⟨hns, hknown⟩

theorem Begun.after_simple {es fs : List (Located Event)} (h : Begun fs) (hes : Simple es) :
    Begun (es ++ fs) := by
  obtain ⟨ps, rfl, hknown⟩ := hes.exists_plains
  have hafter := h.after_nests (ps.map Nest.plain) (by simpa using hknown)
  rwa [Nest.eventsAll_map_plain] at hafter

theorem Simple.begun {es : List (Located Event)} (h : Simple es) : Begun es := by
  have hafter := begun_nil.after_simple h
  rwa [List.append_nil] at hafter

theorem Begun.branch {es : List (Located Event)} (h : Begun es) (pos : Position) :
    Begun (⟨pos, .branch⟩ :: es) := by
  obtain ⟨ns, more, hns, hknown⟩ := h
  refine ⟨[.branch pos ns pos], more ++ [⟨pos, .close⟩], ?_, ?_⟩
  · simp [Nest.eventsAll, Nest.events, ← hns]
  · simpa [Nest.plainsAll, Nest.plains] using hknown

theorem Begun.otherwise {es : List (Located Event)} (h : Begun es) (pos middle : Position)
    (ss : List Statement) :
    Begun (⟨pos, .branch⟩ :: (Statement.events ss ++ ⟨middle, .otherwise⟩ :: es)) := by
  obtain ⟨ns, more, hns, hknown⟩ := h
  refine ⟨[.choice pos (Statement.nestsAll ss) middle ns pos], more ++ [⟨pos, .close⟩], ?_, ?_⟩
  · simp [Nest.eventsAll, Nest.events, ← hns, Statement.events]
  · simpa [Nest.plainsAll, Nest.plains, or_imp, forall_and] using ⟨Statement.knownAll ss, hknown⟩

theorem Begun.loop {es fs : List (Located Event)} (h : Begun fs) (hes : Simple es)
    (pos : Position) : Begun (⟨pos, .loop⟩ :: (es ++ ⟨pos, .branch⟩ :: fs)) := by
  obtain ⟨ps, rfl, hps⟩ := hes.exists_plains
  obtain ⟨ns, more, hns, hknown⟩ := h
  refine ⟨[.loop pos ps pos ns pos], more ++ [⟨pos, .close⟩], ?_, ?_⟩
  · simp [Nest.eventsAll, Nest.events, ← hns]
  · simpa [Nest.plainsAll, Nest.plains, or_imp, forall_and] using ⟨hps, hknown⟩

theorem Begun.of_initial {es fs : List (Located Event)} (h : Begun fs) (hes : es <+: fs) :
    Begun es := by
  obtain ⟨ns, more, hns, hknown⟩ := h
  obtain ⟨rest, rfl⟩ := hes
  exact ⟨ns, rest ++ more, by rw [← List.append_assoc, hns], hknown⟩

theorem begun_loop_condition {es : List (Located Event)} (hes : Simple es) (pos : Position) :
    Begun (⟨pos, .loop⟩ :: es) :=
  (begun_nil.loop hes pos).of_initial (List.prefix_append (⟨pos, .loop⟩ :: es) _)

end Begun

section Statements

/-- Reading took a statement off the stream `s`. -/
def ReadsStatement (level : Nat) (s : TokenStream) (es : List (Located Event))
    (rest : TokenStream) : Prop :=
  ∃ ts t, s.Splits ts rest ∧ Statement.Derives ts t ∧ es = Nest.eventsAll t.nests ∧ t.depth ≤ level

/-- Reading took statements in a row off the stream `s`. -/
def ReadsBlock (level : Nat) (s : TokenStream) (es : List (Located Event))
    (rest : TokenStream) : Prop :=
  ∃ ts ss, s.Splits ts rest ∧ Statement.DerivesAll ts ss ∧ es = Statement.events ss ∧
    Statement.depthAll ss ≤ level

theorem satisfies_block (level : Nat) (st : Reader)
    (hst : ∀ s, (st s).Satisfies (ReadsStatement level s) Begun) (terminators : List TokenKind)
    (s : TokenStream) : (block terminators st s).Satisfies (ReadsBlock level s) Begun := by
  induction hlength : s.length using Nat.strongRecOn generalizing s with
  | ind k ih =>
      rw [block]
      refine (satisfies_peek s).bind (fun es hes => hes ▸ begun_nil) ?_
      rintro es t ⟨rfl, rfl⟩
      by_cases hends : ends terminators s.head.kind = true
      · rw [if_pos hends]
        refine Reading.satisfies_pure s ?_
        exact ⟨[], [], TokenStream.Splits.refl s, .nil, rfl, Nat.zero_le level⟩
      · rw [if_neg hends]
        refine (hst s).bind (fun es hes => hes) ?_
        rintro es rest ⟨ts, t, hsplits, ht, rfl, hdepth⟩
        by_cases hshorter : rest.length < s.length
        · rw [if_pos hshorter]
          refine (ih rest.length (hlength ▸ hshorter) rest rfl).mono ?_ ?_
          · rintro fs rest' ⟨us, ss, hrest, hss, rfl, hdepths⟩
            refine ⟨ts ++ us, t :: ss, hsplits.trans hrest, .cons ht hss, ?_,
              Nat.max_le.mpr ⟨hdepth, hdepths⟩⟩
            simp [Statement.events, Statement.nestsAll, Nest.eventsAll_append]
          · exact fun fs hfs => hfs.after_nests _ (Statement.known t)
        · rw [if_neg hshorter]
          refine Reading.satisfies_pure rest ?_
          refine ⟨ts ++ [], [t], by simpa using hsplits, .cons ht .nil, ?_,
            Nat.max_le.mpr ⟨hdepth, Nat.zero_le level⟩⟩
          simp [Statement.events, Statement.nestsAll]

theorem satisfies_closing (s : TokenStream) :
    (closing s).Satisfies
      (fun es rest => ∃ close semi : Token, s.Splits [close, semi] rest ∧
        close.kind = .keyword .close ∧ semi.kind = .semicolon ∧ es = [⟨close.pos, .close⟩])
      (fun es => es <+: [⟨s.head.pos, .close⟩]) := by
  refine (satisfies_expect _ s).bind (fun es hes => hes ▸ List.nil_prefix) ?_
  rintro es x ⟨rfl, rfl, hclose⟩
  refine Reading.satisfies_report _ _ ?_
  refine (satisfies_expect _ s.tail).bind ?_ ?_
  · rintro es rfl
    exact List.prefix_refl _
  rintro es x ⟨rfl, rfl, hsemi⟩
  refine Reading.satisfies_pure _ ⟨s.head, s.tail.head, ?_, hclose, hsemi, rfl⟩
  exact (s.splits_head (by simp [hclose])).trans (s.tail.splits_head (by simp [hsemi]))

/-- A construct is complete with what closes it. -/
theorem satisfies_closed (level : Nat) (s rest : TokenStream) (ts : List Token)
    (es : List (Located Event)) (construct : Position → Statement) (htaken : s.Splits ts rest)
    (hderives : ∀ close semi : Token, close.kind = .keyword .close → semi.kind = .semicolon →
      Statement.Derives (ts ++ [close, semi]) (construct close.pos))
    (hevents : ∀ pos, es ++ [⟨pos, .close⟩] = Nest.eventsAll (construct pos).nests)
    (hdepth : ∀ pos, (construct pos).depth ≤ level) :
    (closing rest).Satisfies (fun fs last => ReadsStatement level s (es ++ fs) last)
      (fun fs => Begun (es ++ fs)) := by
  refine (satisfies_closing rest).mono ?_ ?_
  · rintro fs last ⟨close, semi, hlast, hclose, hsemi, rfl⟩
    exact ⟨_, _, htaken.trans hlast, hderives close semi hclose hsemi, hevents close.pos,
      hdepth close.pos⟩
  · intro fs hfs
    refine Begun.of_initial ?_ ((List.prefix_append_right_inj es).mpr hfs)
    rw [hevents]
    exact begun_nests _ (Statement.known _)

/-- What a second branch consists of. -/
theorem satisfies_alternative (level : Nat) (st : Reader)
    (hst : ∀ s, (st s).Satisfies (ReadsStatement level s) Begun) (s : TokenStream) :
    (alternative st s).Satisfies
      (fun es rest => (es = [] ∧ rest = s) ∨
        ∃ (middle : Token) (mid : TokenStream) (fs : List (Located Event)), s.Splits [middle] mid ∧
          middle.kind = .keyword .otherwise ∧ ReadsBlock level mid fs rest ∧
          es = ⟨middle.pos, .otherwise⟩ :: fs)
      (fun es => es = [] ∨ ∃ pos fs, es = ⟨pos, .otherwise⟩ :: fs ∧ Begun fs) := by
  refine (satisfies_peek s).bind (fun es hes => .inl hes) ?_
  rintro es t ⟨rfl, rfl⟩
  by_cases hkind : s.head.kind = .keyword .otherwise
  · rw [if_pos hkind]
    refine Reading.satisfies_report _ _ ?_
    refine (satisfies_block level st hst _ s.tail).mono ?_ ?_
    · intro fs rest hfs
      exact .inr ⟨s.head, s.tail, fs, s.splits_head (by simp [hkind]), hkind, hfs, rfl⟩
    · exact fun fs hfs => .inr ⟨s.head.pos, fs, rfl, hfs⟩
  · rw [if_neg hkind]
    exact Reading.satisfies_pure s (.inl ⟨rfl, rfl⟩)

theorem satisfies_declaration (level : Nat) (kind : VariableKind) (s mid : TokenStream)
    (opening : List Token) (k : Token) (hsplits : s.Splits (opening ++ [k]) mid)
    (hderives : ∀ name semi : Token, name.kind = .identifier → semi.kind = .semicolon →
      Statement.Derives (opening ++ [k, name, semi]) (.declare kind ⟨name.pos, name.text⟩)) :
    (declaration kind mid).Satisfies (ReadsStatement (level + 1) s) Begun := by
  refine (satisfies_expect _ mid).bind (fun es hes => hes ▸ begun_nil) ?_
  rintro es x ⟨rfl, rfl, hname⟩
  refine Reading.satisfies_report _ _ ?_
  have hsimple : Simple [⟨mid.head.pos, .declare kind mid.head.text⟩] := by
    simp [Simple, Event.isControl, Event.Known]
  refine (satisfies_expect _ mid.tail).bind ?_ ?_
  · rintro es rfl
    exact hsimple.begun
  rintro es x ⟨rfl, rfl, hsemi⟩
  refine Reading.satisfies_pure _ ⟨opening ++ [k, mid.head, mid.tail.head],
    .declare kind ⟨mid.head.pos, mid.head.text⟩, ?_, hderives _ _ hname hsemi, rfl,
    Nat.le_add_left 1 level⟩
  have hrest := (mid.splits_head (by simp [hname])).trans (mid.tail.splits_head (by simp [hsemi]))
  simpa using hsplits.trans hrest

theorem satisfies_declaredKind (s : TokenStream) :
    (declaredKind s).Satisfies
      (fun es x => es = [] ∧ s.head.kind = .keyword x.1.keyword ∧ x.2 = s.tail)
      (fun es => es = []) := by
  refine (satisfies_peek s).bind (fun _ h => h) ?_
  rintro es t ⟨rfl, rfl⟩
  split
  · next hkind => exact ⟨rfl, hkind, rfl⟩
  · next hkind => exact ⟨rfl, hkind, rfl⟩
  · exact Reading.satisfies_fail _ _ rfl

theorem satisfies_assignment (level : Nat) (s : TokenStream) (hname : s.head.kind = .identifier) :
    (assignment s.head level s.tail).Satisfies (ReadsStatement (level + 1) s) Begun := by
  have htarget : Simple [⟨s.head.pos, .target s.head.text⟩] := by
    simp [Simple, Event.isControl, Event.Known]
  refine Reading.satisfies_report _ _ ?_
  refine (satisfies_expect _ s.tail).bind ?_ ?_
  · rintro es rfl
    exact htarget.begun
  rintro es x ⟨rfl, rfl, hassign⟩
  refine (satisfies_expression level _).bind (fun es hes => (htarget.append hes).begun) ?_
  rintro es rest ⟨vs, value, hsplits, hvalue, rfl, hdepth⟩
  refine Reading.satisfies_report _ _ ?_
  have hsimple : Simple (⟨s.head.pos, .target s.head.text⟩ ::
      (value.events ++ [⟨s.tail.head.pos, .assign⟩])) := by
    refine htarget.append ((simple_events value).append ?_)
    simp [Simple, Event.isControl, Event.Known]
  refine (satisfies_expect _ rest).bind ?_ ?_
  · rintro es rfl
    exact hsimple.begun
  rintro es x ⟨rfl, rfl, hsemi⟩
  refine Reading.satisfies_pure _ ⟨s.head :: s.tail.head :: (vs ++ [rest.head]),
    .assign ⟨s.head.pos, s.head.text⟩ s.tail.head.pos value, ?_,
    .assign _ _ _ hname hassign hsemi hvalue, ?_, Nat.succ_le_succ hdepth⟩
  · exact (((s.splits_head (by simp [hname])).trans
      (s.tail.splits_head (by simp [hassign]))).trans hsplits).trans
      (rest.splits_head (by simp [hsemi]))
  · simp [Statement.nests, Nest.eventsAll, Nest.events, Nest.eventsAll_append, Expression.events,
      Plain.located]

theorem satisfies_print (level : Nat) (s : TokenStream) (ht : s.head.kind = .keyword .print) :
    (do
      let rest ← expression level s.tail
      Reading.report s.head.pos .print
      let (_, rest) ← expect .semicolon rest
      return rest : Reading TokenStream).Satisfies (ReadsStatement (level + 1) s) Begun := by
  refine (satisfies_expression level _).bind (fun es hes => hes.begun) ?_
  rintro es rest ⟨vs, value, hsplits, hvalue, rfl, hdepth⟩
  refine Reading.satisfies_report _ _ ?_
  have hsimple : Simple (value.events ++ [⟨s.head.pos, .print⟩]) := by
    refine (simple_events value).append ?_
    simp [Simple, Event.isControl, Event.Known]
  refine (satisfies_expect _ rest).bind ?_ ?_
  · rintro es rfl
    exact hsimple.begun
  rintro es x ⟨rfl, rfl, hsemi⟩
  refine Reading.satisfies_pure _ ⟨s.head :: (vs ++ [rest.head]), .print s.head.pos value, ?_,
    .print _ _ ht hsemi hvalue, ?_, Nat.succ_le_succ hdepth⟩
  · exact ((s.splits_head (by simp [ht])).trans hsplits).trans (rest.splits_head (by simp [hsemi]))
  · simp [Statement.nests, Nest.eventsAll, Nest.events, Nest.eventsAll_append, Expression.events,
      Plain.located]

theorem satisfies_loop (level : Nat) (st : Reader)
    (hst : ∀ s, (st s).Satisfies (ReadsStatement level s) Begun) (s : TokenStream)
    (ht : s.head.kind = .keyword .loop) :
    (do
      Reading.report s.head.pos .loop
      let rest ← expression level s.tail
      Reading.report s.head.pos .branch
      let rest ← block [.keyword .close] st rest
      closing rest : Reading TokenStream).Satisfies (ReadsStatement (level + 1) s) Begun := by
  refine Reading.satisfies_report _ _ ?_
  refine (satisfies_expression level _).bind (fun es hes => begun_loop_condition hes _) ?_
  rintro es rest ⟨cs, condition, hsplits, hcondition, rfl, hdepth⟩
  refine Reading.satisfies_report _ _ ?_
  refine (satisfies_block level st hst _ rest).bind ?_ ?_
  · exact fun es hes => hes.loop (simple_events condition) _
  rintro es rest' ⟨bs, body, hsplits', hbody, rfl, hdepths⟩
  have hclosed := satisfies_closed (level + 1) s rest' (s.head :: (cs ++ bs))
    (⟨s.head.pos, .loop⟩ :: (condition.events ++ ⟨s.head.pos, .branch⟩ :: Statement.events body))
    (fun pos => .loop s.head.pos condition body pos)
    ((s.splits_head (by simp [ht])).trans (hsplits.trans hsplits'))
    (fun close semi hclose hsemi => by
      simpa using Statement.Derives.loop s.head close semi ht hclose hsemi hcondition hbody)
    (fun pos => by
      simp [Statement.nests, Statement.events, Nest.eventsAll, Nest.events, Expression.events])
    (fun _ => Nat.succ_le_succ (Nat.max_le.mpr ⟨hdepth, hdepths⟩))
  simpa using hclosed

theorem satisfies_branch (level : Nat) (st : Reader)
    (hst : ∀ s, (st s).Satisfies (ReadsStatement level s) Begun) (s : TokenStream)
    (ht : s.head.kind = .keyword .branch) :
    (do
      let rest ← expression level s.tail
      Reading.report s.head.pos .branch
      let rest ← block [.keyword .otherwise, .keyword .close] st rest
      let rest ← alternative st rest
      closing rest : Reading TokenStream).Satisfies (ReadsStatement (level + 1) s) Begun := by
  refine (satisfies_expression level _).bind (fun es hes => hes.begun) ?_
  rintro es rest ⟨cs, condition, hsplits, hcondition, rfl, hdepth⟩
  have hsimple : Simple condition.events := simple_events condition
  refine Reading.satisfies_report _ _ ?_
  refine (satisfies_block level st hst _ rest).bind ?_ ?_
  · exact fun es hes => (hes.branch _).after_simple hsimple
  rintro es rest' ⟨bs, body, hsplits', hbody, rfl, hdepths⟩
  have htaken : s.Splits (s.head :: (cs ++ bs)) rest' :=
    (s.splits_head (by simp [ht])).trans (hsplits.trans hsplits')
  refine (satisfies_alternative level st hst rest').bind ?_ ?_
  · rintro es (rfl | ⟨pos, fs, rfl, hfs⟩)
    · have hbegun := ((begun_events body).branch s.head.pos).after_simple hsimple
      simpa using hbegun
    · exact (hfs.otherwise _ pos body).after_simple hsimple
  rintro es rest'' (⟨rfl, rfl⟩ | ⟨middle, mid, fs, hmid, hmiddle, hblock, rfl⟩)
  · have hclosed := satisfies_closed (level + 1) s rest'' (s.head :: (cs ++ bs))
      (condition.events ++ ⟨s.head.pos, .branch⟩ :: Statement.events body)
      (fun pos => .branch s.head.pos condition body pos) htaken
      (fun close semi hclose hsemi => by
        simpa using Statement.Derives.branch s.head close semi ht hclose hsemi hcondition hbody)
      (fun pos => by
        simp [Statement.nests, Statement.events, Nest.eventsAll, Nest.events,
          Nest.eventsAll_append, Expression.events])
      (fun _ => Nat.succ_le_succ (Nat.max_le.mpr ⟨hdepth, hdepths⟩))
    simpa using hclosed
  · obtain ⟨os, other, hsplits'', hother, rfl, hdepths'⟩ := hblock
    have hclosed := satisfies_closed (level + 1) s rest''
      (s.head :: (cs ++ bs) ++ [middle] ++ os)
      (condition.events ++ ⟨s.head.pos, .branch⟩ ::
        (Statement.events body ++ ⟨middle.pos, .otherwise⟩ :: Statement.events other))
      (fun pos => .choice s.head.pos condition body middle.pos other pos)
      ((htaken.trans hmid).trans hsplits'')
      (fun close semi hclose hsemi => by
        simpa using Statement.Derives.choice s.head middle close semi ht hmiddle hclose hsemi
          hcondition hbody hother)
      (fun pos => by
        simp [Statement.nests, Statement.events, Nest.eventsAll, Nest.events,
          Nest.eventsAll_append, Expression.events])
      (fun _ => Nat.succ_le_succ (Nat.max_le.mpr ⟨hdepth, Nat.max_le.mpr ⟨hdepths, hdepths'⟩⟩))
    simpa using hclosed

/-- What a statement reader does on any tokens. -/
theorem satisfies_statement (level : Nat) (s : TokenStream) :
    (statement level s).Satisfies (ReadsStatement level s) Begun := by
  induction level generalizing s with
  | zero =>
      rw [statement]
      refine (satisfies_advance s).bind (fun es hes => hes ▸ begun_nil) ?_
      rintro es x ⟨rfl, rfl⟩
      exact Reading.satisfies_fail _ _ begun_nil
  | succ level ih =>
      rw [statement]
      refine (satisfies_advance s).bind (fun es hes => hes ▸ begun_nil) ?_
      rintro es x ⟨rfl, rfl⟩
      dsimp only
      split
      · next hkind =>
        refine (satisfies_declaredKind s.tail).bind ?_ ?_
        · rintro es rfl
          exact begun_nil
        rintro es ⟨kind, mid⟩ ⟨rfl, hk, rfl⟩
        refine satisfies_declaration level kind s _ [s.head] s.tail.head ?_ ?_
        · exact (s.splits_head (by simp [hkind])).trans (s.tail.splits_head (by simp [hk]))
        · exact fun name semi hname hsemi => .declareLong kind _ _ _ _ hkind hk hname hsemi
      · next hkind =>
        exact satisfies_declaration level .integer s _ [] s.head (s.splits_head (by simp [hkind]))
          fun name semi hname hsemi => .declare .integer _ _ _ hkind hname hsemi
      · next hkind =>
        exact satisfies_declaration level .string s _ [] s.head (s.splits_head (by simp [hkind]))
          fun name semi hname hsemi => .declare .string _ _ _ hkind hname hsemi
      · next hkind => exact satisfies_assignment level s hkind
      · next hkind => exact satisfies_print level s hkind
      · next hkind => exact satisfies_branch level _ ih s hkind
      · next hkind => exact satisfies_loop level _ ih s hkind
      · exact Reading.satisfies_fail _ _ begun_nil

/-- What the reader of programs does on any tokens: it takes all tokens up to one that
stands for the end. -/
theorem satisfies_program (s : TokenStream) :
    (program s).Satisfies
      (fun es _ => ∃ ts ss rest, s.Splits ts rest ∧ rest.head.kind = .eof ∧
        Statement.DerivesAll ts ss ∧ es = Statement.events ss ∧ Statement.depthAll ss ≤ maxLevel)
      Begun := by
  refine (satisfies_block maxLevel _ (satisfies_statement maxLevel) [] s).bind (fun _ h => h) ?_
  rintro es rest ⟨ts, ss, hsplits, hss, rfl, hdepth⟩
  refine (satisfies_expect .eof rest).bind ?_ ?_
  · rintro es rfl
    simpa using begun_events ss
  rintro es x ⟨rfl, -, heof⟩
  exact Reading.satisfies_pure () ⟨ts, ss, rest, hsplits, heof, hss, by simp, hdepth⟩

end Statements

end Grammar

end StackLang
