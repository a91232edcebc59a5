import StackLang.Proofs.Descent.Basic
import StackLang.Proofs.Draft.Nest

/-!
# The descent follows the grammar

A part of the descent follows a reading if it comes to the same end, with the events of the
reading taken by the draft, and leaves the counter as it found it. What follows a reading is
put together from what follows its parts; so if all functions that a function calls follow
readers, the function follows the same combination of these readers (`follows_respond`). And
each reader of the grammar is that combination of the others (`reading_eq_respond`).
-/

namespace StackLang

theorem Reading.onto_bind {α β : Type} (d : Draft) (r : Reading α) (f : α → Reading β) :
    (r >>= f).onto d = r.onto d >>= fun x => (f x.1).onto x.2 := by
  rcases r with ⟨es, e | a⟩
  · rw [bind_error, onto, onto]
    cases d.applyAll es <;> rfl
  · rw [bind_ok, onto, onto]
    cases hes : d.applyAll es with
    | error e =>
        rw [Draft.applyAll_append_of_error _ _ _ _ hes]
        rfl
    | ok d' =>
        rw [Draft.applyAll_append_of_ok _ _ _ _ hes]
        rfl

theorem Reading.outcome_of_onto {α : Type} {r : Reading α} {d d' : Draft} {a : α}
    (h : r.onto d = .ok (a, d')) : r.outcome = .ok a := by
  rw [onto] at h
  cases hes : d.applyAll r.events with
  | error e => simp [hes] at h
  | ok d₁ =>
      cases houtcome : r.outcome with
      | error e => simp [hes, houtcome, Except.map] at h
      | ok b => simp_all [Except.map]

namespace Descent

open Grammar

/-- Which function calls which, with what arguments. -/
inductive Call.Calls : Call → Call → Prop where
  | program : Calls .program .statement
  | statement (t : Token) : Calls .statement (.nestedStatement t)
  | nestedStatement (t : Token) : Calls (.nestedStatement t) (.statementAt t)
  | declaration (t : Token) (kind : VariableKind) : Calls (.statementAt t) (.declaration kind)
  | assignment (t : Token) : Calls (.statementAt t) (.assignment t)
  | print (t : Token) : Calls (.statementAt t) .expression
  | conditional (t : Token) : Calls (.statementAt t) (.conditional t)
  | loop (t : Token) : Calls (.statementAt t) (.loop t)
  | value (t : Token) : Calls (.assignment t) .expression
  | branchCondition (t : Token) : Calls (.conditional t) .expression
  | branchBlock (t : Token) (terminators : List TokenKind) :
      Calls (.conditional t) (.block terminators)
  | branchClosing (t : Token) : Calls (.conditional t) .closing
  | loopCondition (t : Token) : Calls (.loop t) .expression
  | loopBlock (t : Token) (terminators : List TokenKind) : Calls (.loop t) (.block terminators)
  | loopClosing (t : Token) : Calls (.loop t) .closing
  | block (terminators : List TokenKind) : Calls (.block terminators) .statement
  | expression : Calls .expression (.climb 0)
  | operand (power : Nat) (t : Token) : Calls (.climb power) (.nestedOperand t)
  /-- The right side of an operator asks for a higher power. -/
  | right (power higher : Nat) (h : power < higher) (hpower : higher ∈ [2, 4, 6, 8, 10]) :
      Calls (.climb power) (.climb higher)
  | nestedOperand (t : Token) : Calls (.nestedOperand t) (.operandAt t)
  | group (t : Token) : Calls (.operandAt t) .expression
  /-- Nothing asks for more than the operand behind a prefix operator. -/
  | unary (t : Token) (h : t.kind = .minus ∨ t.kind = .bang) : Calls (.operandAt t) (.climb 11)

section Follows

variable {α β : Type} {good : Visit → Prop} {n : Nat}

/-- Between `p` and `q` the calls `cs` were made, and each had a good visit, those in `vs`. -/
structure Logs (good : Visit → Prop) (p q : Progress) (cs : List (List Call × Call))
    (vs : List Visit) : Prop where
  calls : q.calls = p.calls ++ cs
  visits : q.visits = p.visits ++ vs
  complete : (vs.map fun v => (v.outer, v.call)).Perm cs
  good : ∀ v ∈ vs, good v

/-- From `p` to `q` every call was visited, there were good visits only, and the counter is
where it was. -/
structure Onward (good : Visit → Prop) (p q : Progress) : Prop where
  depth : q.depth = p.depth
  log : ∃ cs vs, Logs good p q cs vs

/-- Nothing noted. -/
theorem Onward.of_eq {p q : Progress} (hdepth : q.depth = p.depth) (hcalls : q.calls = p.calls)
    (hvisits : q.visits = p.visits) : Onward good p q :=
  ⟨hdepth, [], [], by simp [hcalls], by simp [hvisits], .nil, by simp⟩

theorem Onward.refl (p : Progress) : Onward good p p := .of_eq rfl rfl rfl

theorem Onward.trans {p q r : Progress} (h : Onward good p q) (h' : Onward good q r) :
    Onward good p r := by
  obtain ⟨cs, vs, hlog⟩ := h.log
  obtain ⟨cs', vs', hlog'⟩ := h'.log
  refine ⟨h'.depth.trans h.depth, cs ++ cs', vs ++ vs', ?_, ?_, ?_, ?_⟩
  · rw [hlog'.calls, hlog.calls, List.append_assoc]
  · rw [hlog'.visits, hlog.visits, List.append_assoc]
  · rw [List.map_append]
    exact hlog.complete.append hlog'.complete
  · intro v hv
    rcases List.mem_append.mp hv with hv | hv
    · exact hlog.good v hv
    · exact hlog'.good v hv

/-- A call that was made, what came of it, and its visit. -/
theorem Onward.visited {outer : List Call} {c : Call} {p q : Progress} {before : Nat}
    {after : Option Nat} (h : Onward good { p with calls := p.calls ++ [(outer, c)] } q)
    (hgood : good ⟨outer, c, p.depth, p.depth, before, after⟩) :
    Onward good p
      { q with visits := q.visits ++ [⟨outer, c, p.depth, q.depth, before, after⟩] } := by
  obtain ⟨cs, vs, hlog⟩ := h.log
  have hdepth : q.depth = p.depth := h.depth
  refine ⟨hdepth, (outer, c) :: cs, vs ++ [⟨outer, c, p.depth, q.depth, before, after⟩], ?_, ?_,
    ?_, ?_⟩
  · exact hlog.calls.trans (List.append_assoc ..)
  · exact (congrArg (· ++ _) hlog.visits).trans (List.append_assoc ..)
  · rw [List.map_append]
    exact (List.perm_append_singleton _ _).trans (hlog.complete.cons _)
  · intro v hv
    rcases List.mem_append.mp hv with hv | hv
    · exact hlog.good v hv
    · obtain rfl := List.mem_singleton.mp hv
      rwa [hdepth]

/-- A part of the descent from `p` on ends as the reading does. -/
inductive Ends (good : Visit → Prop) (p : Progress) :
    Except (Located Fault) (α × Draft) → EStateM.Result Stop Progress α → Prop where
  | ok {a : α} {q : Progress} (h : Onward good p q) : Ends good p (.ok (a, q.draft)) (.ok a q)
  | error {e : Located Fault} {q : Progress} (h : Onward good p q) :
      Ends good p (.error e) (.error (.fault e) q)

/-- From where the counter stands at `n`, a part of the descent comes to the same end as the
reading, with good visits on the way. The counter is at `n` again then. -/
def Follows (good : Visit → Prop) (n : Nat) (x : Descent α) (r : Reading α) : Prop :=
  ∀ p : Progress, p.depth = n → Ends good p (r.onto p.draft) (x p)

theorem follows_ofReading (r : Reading α) : Follows good n (ofReading r) r := by
  intro p _
  rw [ofReading]
  rcases r.onto p.draft with e | ⟨a, d⟩
  · exact .error (.refl p)
  · have honward : Onward good p { p with draft := d } := .of_eq rfl rfl rfl
    exact .ok honward

theorem follows_pure (a : α) : Follows good n (pure a : Descent α) (pure a) :=
  fun p _ => .ok (.refl p)

theorem Follows.bind {x : Descent α} {r : Reading α} {f : α → Descent β} {g : α → Reading β}
    (h : Follows good n x r) (hfg : ∀ a, Follows good n (f a) (g a)) :
    Follows good n (x >>= f) (r >>= g) := by
  intro p hp
  have hx := h p hp
  rw [Reading.onto_bind, show (x >>= f) p = EStateM.bind x f p from rfl, EStateM.bind]
  generalize r.onto p.draft = end₁, x p = end₂ at hx
  cases hx with
  | error honward => exact .error honward
  | @ok a q honward =>
      have hrest := hfg a q (honward.depth.trans hp)
      change Ends good p ((g a).onto q.draft) (f a q)
      generalize (g a).onto q.draft = end₁, f a q = end₂ at hrest
      cases hrest with
      | ok honward' => exact .ok (honward.trans honward')
      | error honward' => exact .error (honward.trans honward')

/-- A reading in the same place of both. -/
theorem follows_lift_bind (r : Reading α) {f : α → Descent β} {g : α → Reading β}
    (hfg : ∀ a, Follows good n (f a) (g a)) :
    Follows good n ((monadLift r : Descent α) >>= f) ((monadLift r : Reading α) >>= g) :=
  (follows_ofReading r).bind hfg

theorem follows_deeper {t : Token} {x : Descent α} {r : Reading α} (hn : n < maxLevel)
    (h : Follows good (n + 1) x r) : Follows good n (deeper t x) r := by
  intro p hp
  have hx := h { p with depth := p.depth + 1 } (congrArg (· + 1) hp)
  have hdepth : ¬ maxLevel ≤ p.depth := by omega
  rw [deeper, if_neg hdepth]
  have hback {q : Progress} (h : Onward good { p with depth := p.depth + 1 } q) :
      Onward good p { q with depth := q.depth - 1 } := by
    obtain ⟨cs, vs, hlog⟩ := h.log
    refine ⟨?_, cs, vs, hlog.calls, hlog.visits, hlog.complete, hlog.good⟩
    rw [h.depth]
    exact Nat.add_sub_cancel p.depth 1
  generalize r.onto p.draft = end₁, x { p with depth := p.depth + 1 } = end₂ at hx
  cases hx with
  | ok honward => exact .ok (hback honward)
  | error honward => exact .error (hback honward)

theorem follows_deeper_limit (t : Token) (x : Descent α) :
    Follows good maxLevel (deeper t x) (.fail t.pos (.grammar .nestingTooDeep)) := by
  intro p hp
  rw [deeper, if_pos (Nat.le_of_eq hp.symm)]
  exact .error (.refl p)

/-- A call is visited with what it leaves of the tokens. -/
theorem Follows.noted {outer : List Call} {c : Call} {s : TokenStream} {x : Descent TokenStream}
    {r : Reading TokenStream} (hfailed : good ⟨outer, c, n, n, s.length, none⟩)
    (hread : ∀ rest, r.outcome = .ok rest → good ⟨outer, c, n, n, s.length, some rest.length⟩)
    (h : Follows good n x r) : Follows good n (noted outer c s x) r := by
  intro p hp
  subst hp
  have hx := h { p with calls := p.calls ++ [(outer, c)] } rfl
  rw [Descent.noted]
  generalize hend : r.onto p.draft = end₁, x { p with calls := _ } = end₂ at hx
  cases hx with
  | ok honward => exact .ok (honward.visited (hread _ (Reading.outcome_of_onto hend)))
  | error honward => exact .error (honward.visited hfailed)

end Follows

section Functions

variable {good : Visit → Prop} {n : Nat}

theorem follows_statements (terminators : List TokenKind) {st : TokenStream → Descent TokenStream}
    {st' : Reader} (h : ∀ s, Follows good n (st s) (st' s)) (s : TokenStream) :
    Follows good n (statements terminators st s) (statements terminators st' s) := by
  induction hlength : s.length using Nat.strongRecOn generalizing s with
  | ind k ih =>
      rw [statements, statements]
      refine follows_lift_bind _ fun t => ?_
      by_cases hends : ends terminators t.kind = true
      · rw [if_pos hends, if_pos hends]
        exact follows_pure s
      · rw [if_neg hends, if_neg hends]
        refine (h s).bind fun rest => ?_
        by_cases hshorter : rest.length < s.length
        · rw [if_pos hshorter, if_pos hshorter]
          exact ih rest.length (hlength ▸ hshorter) rest rfl
        · rw [if_neg hshorter, if_neg hshorter]
          exact follows_pure rest

theorem follows_carryOn (power : Nat) {right : Nat → TokenStream → Descent TokenStream}
    {right' : Nat → Reader}
    (h : ∀ higher, power < higher → higher ∈ [2, 4, 6, 8, 10] →
      ∀ s, Follows good n (right higher s) (right' higher s)) (s : TokenStream) :
    Follows good n (carryOn power right s) (carryOn power right' s) := by
  induction hlength : s.length using Nat.strongRecOn generalizing s with
  | ind k ih =>
      rw [carryOn, carryOn]
      refine follows_lift_bind _ fun t => ?_
      cases hpower : Grammar.power? t.kind with
      | none => exact follows_pure s
      | some x =>
          obtain ⟨op, hop⟩ := exists_token_of_power? hpower
          rw [hop, power?_token] at hpower
          obtain rfl := Option.some.inj hpower
          by_cases hstop : 2 * op.tightness + 1 < power
          · simp only [if_pos hstop]
            exact follows_pure s
          · simp only [if_neg hstop]
            have hhigher : 2 * (op.tightness + 1) ∈ [2, 4, 6, 8, 10] := by
              cases op <;> decide
            refine (h _ (by omega) hhigher s.tail).bind fun rest => ?_
            refine follows_lift_bind _ fun _ => ?_
            by_cases hshorter : rest.length < s.length
            · rw [if_pos hshorter, if_pos hshorter]
              exact ih rest.length (hlength ▸ hshorter) rest rfl
            · rw [if_neg hshorter, if_neg hshorter]
              exact follows_pure rest

/-- If all functions that are called follow readers, the function follows the same combination
of these readers. -/
theorem follows_respond {callee : Call → TokenStream → Descent TokenStream} {reader : Call → Reader}
    {down : Token → Reading TokenStream → Reading TokenStream} (c : Call) (hc : c.nests = false)
    (h : ∀ c', c.Calls c' → ∀ s, Follows good n (callee c' s) (reader c' s)) (s : TokenStream) :
    Follows good n (respond deeper callee c s) (respond down reader c s) := by
  cases c with
  | nestedStatement | nestedOperand => cases hc
  | program =>
      refine (follows_statements [] (h .statement .program) s).bind fun rest => ?_
      exact follows_lift_bind _ fun _ => follows_pure _
  | statement => exact follows_lift_bind _ fun x => h _ (.statement x.1) x.2
  | statementAt t =>
      simp only [respond]
      split
      · exact follows_lift_bind _ fun x => h _ (.declaration t x.1) x.2
      · exact h _ (.declaration t .integer) s
      · exact h _ (.declaration t .string) s
      · exact h _ (.assignment t) s
      · refine (h _ (.print t) s).bind fun rest => ?_
        refine follows_lift_bind _ fun _ => ?_
        exact follows_lift_bind _ fun _ => follows_pure _
      · exact h _ (.conditional t) s
      · exact h _ (.loop t) s
      · exact follows_ofReading _
  | declaration kind =>
      refine follows_lift_bind _ fun x => ?_
      refine follows_lift_bind _ fun _ => ?_
      exact follows_lift_bind _ fun _ => follows_pure _
  | assignment name =>
      refine follows_lift_bind _ fun _ => ?_
      refine follows_lift_bind _ fun x => ?_
      refine (h _ (.value name) x.2).bind fun rest => ?_
      refine follows_lift_bind _ fun _ => ?_
      exact follows_lift_bind _ fun _ => follows_pure _
  | conditional t =>
      refine (h _ (.branchCondition t) s).bind fun rest => ?_
      refine follows_lift_bind _ fun _ => ?_
      refine (h _ (.branchBlock t _) rest).bind fun rest => ?_
      refine follows_lift_bind _ fun next => ?_
      by_cases hnext : next.kind = .keyword .otherwise
      · rw [if_pos hnext, if_pos hnext]
        refine follows_lift_bind _ fun _ => ?_
        refine (h _ (.branchBlock t _) rest.tail).bind fun rest => ?_
        exact h _ (.branchClosing t) rest
      · rw [if_neg hnext, if_neg hnext]
        exact h _ (.branchClosing t) rest
  | loop t =>
      refine follows_lift_bind _ fun _ => ?_
      refine (h _ (.loopCondition t) s).bind fun rest => ?_
      refine follows_lift_bind _ fun _ => ?_
      refine (h _ (.loopBlock t _) rest).bind fun rest => ?_
      exact h _ (.loopClosing t) rest
  | block terminators => exact follows_statements terminators (h .statement (.block terminators)) s
  | closing =>
      refine follows_lift_bind _ fun x => ?_
      refine follows_lift_bind _ fun _ => ?_
      exact follows_lift_bind _ fun _ => follows_pure _
  | expression => exact h _ .expression s
  | climb power =>
      refine follows_lift_bind _ fun x => ?_
      refine (h _ (.operand power x.1) x.2).bind fun rest => ?_
      exact follows_carryOn power (fun higher hlt hmem => h _ (.right power higher hlt hmem)) rest
  | operandAt t =>
      simp only [respond]
      split
      · exact follows_lift_bind _ fun _ => follows_pure _
      · exact follows_lift_bind _ fun _ => follows_pure _
      · exact follows_lift_bind _ fun _ => follows_pure _
      · refine (h _ (.group t) s).bind fun rest => ?_
        exact follows_lift_bind _ fun _ => follows_pure _
      · rename_i hkind
        refine (h _ (.unary t (.inl hkind)) s).bind fun rest => ?_
        exact follows_lift_bind _ fun _ => follows_pure _
      · rename_i hkind
        refine (h _ (.unary t (.inr hkind)) s).bind fun rest => ?_
        exact follows_lift_bind _ fun _ => follows_pure _
      · exact follows_ofReading _

end Functions

section Readers

/-- A conditional behind its first token. -/
def conditional (t : Token) (level : Nat) (s : TokenStream) : Reading TokenStream := do
  let rest ← expression level s
  Reading.report t.pos .branch
  let rest ← block [.keyword .otherwise, .keyword .close] (statement level) rest
  let rest ← alternative (statement level) rest
  closing rest

/-- A loop behind its first token. -/
def loop (t : Token) (level : Nat) (s : TokenStream) : Reading TokenStream := do
  Reading.report t.pos .loop
  let rest ← expression level s
  Reading.report t.pos .branch
  let rest ← block [.keyword .close] (statement level) rest
  closing rest

/-- A statement behind its first token. -/
def statementAt (t : Token) (level : Nat) (s : TokenStream) : Reading TokenStream :=
  match t.kind with
  | .keyword .declare => do
    let (kind, rest) ← declaredKind s
    declaration kind rest
  | .keyword .integer => declaration .integer s
  | .keyword .string => declaration .string s
  | .identifier => assignment t level s
  | .keyword .print => do
    let rest ← expression level s
    Reading.report t.pos .print
    let (_, rest) ← expect .semicolon rest
    return rest
  | .keyword .branch => conditional t level s
  | .keyword .loop => loop t level s
  | actual => .fail t.pos (.grammar (.expectedStatement actual))

/-- An operand behind its first token. -/
def operandAt (t : Token) (level : Nat) (s : TokenStream) : Reading TokenStream :=
  match t.kind with
  | .identifier => do
    Reading.report t.pos (.read t.text)
    return s
  | .intLiteral => do
    Reading.report t.pos (.integer t.text)
    return s
  | .strLiteral => do
    Reading.report t.pos (.string t.text)
    return s
  | .lparen => do
    let rest ← expression level s
    let (_, rest) ← expect .rparen rest
    return rest
  | .minus => do
    let rest ← climb level 11 s
    Reading.report t.pos (.operator Operator.negate.symbol)
    return rest
  | .bang => do
    let rest ← climb level 11 s
    Reading.report t.pos (.operator Operator.not.symbol)
    return rest
  | actual => .fail t.pos (.grammar (.expectedExpression actual))

/-- One level deeper, if one is left of these. -/
def within (t : Token) (r : Nat → Reader) : Nat → Reader
  | 0, _ => .fail t.pos (.grammar .nestingTooDeep)
  | level + 1, s => r level s

/-- What the grammar reads for a call, with the given number of levels left. -/
def reading (level : Nat) : Call → Reader
  | .program => fun s => do
    let rest ← block [] (statement level) s
    let (_, rest) ← expect .eof rest
    return rest
  | .statement => statement level
  | .nestedStatement t => within t (statementAt t) level
  | .statementAt t => statementAt t level
  | .declaration kind => declaration kind
  | .assignment name => assignment name level
  | .conditional t => conditional t level
  | .loop t => loop t level
  | .block terminators => block terminators (statement level)
  | .closing => closing
  | .expression => expression level
  | .climb power => climb level power
  | .nestedOperand t => within t (operandAt t) level
  | .operandAt t => operandAt t level

theorem statement_eq (level : Nat) (s : TokenStream) :
    statement level s = advance s >>= fun x => within x.1 (statementAt x.1) level x.2 := by
  cases level with
  | zero => rfl
  | succ level => rfl

theorem operand_eq (level : Nat) (s : TokenStream) :
    operand level s = advance s >>= fun x => within x.1 (operandAt x.1) level x.2 := by
  cases level with
  | zero => rfl
  | succ level => rfl

theorem statements_eq_block (terminators : List TokenKind) (st : Reader) (s : TokenStream) :
    statements terminators st s = block terminators st s := by
  induction hlength : s.length using Nat.strongRecOn generalizing s with
  | ind k ih =>
      rw [statements, block]
      simp only [monadLift_self]
      refine congrArg _ (funext fun t => ?_)
      refine if_congr Iff.rfl rfl (congrArg _ (funext fun rest => ?_))
      by_cases hshorter : rest.length < s.length
      · rw [if_pos hshorter, if_pos hshorter]
        exact ih rest.length (hlength ▸ hshorter) rest rfl
      · rw [if_neg hshorter, if_neg hshorter]

theorem alternative_bind_closing (st : Reader) (s : TokenStream) :
    alternative st s >>= closing = (do
      let t ← peek s
      if t.kind = .keyword .otherwise then
        Reading.report t.pos .otherwise
        let rest ← block [.keyword .close] st s.tail
        closing rest
      else closing s) := by
  rw [alternative, bind_assoc]
  refine congrArg _ (funext fun t => ?_)
  by_cases ht : t.kind = .keyword .otherwise
  · rw [if_pos ht, if_pos ht, bind_assoc]
  · rw [if_neg ht, if_neg ht, pure_bind]

/-- Each reader is that combination of the others which the function makes of its callees. -/
theorem reading_eq_respond (level : Nat) (c : Call) (hc : c.nests = false)
    (hpower : c.Possible) (down : Token → Reading TokenStream → Reading TokenStream)
    (s : TokenStream) :
    reading level c s = respond down (reading level) c s := by
  cases c with
  | nestedStatement | nestedOperand => cases hc
  | program =>
      simp only [respond, statements_eq_block, monadLift_self]
      rfl
  | statement => exact statement_eq level s
  | statementAt t => rfl
  | declaration kind => rfl
  | assignment name => rfl
  | conditional t =>
      change conditional t level s = _
      simp only [conditional, alternative_bind_closing]
      rfl
  | loop t => rfl
  | block terminators => exact (statements_eq_block terminators _ s).symm
  | closing => rfl
  | expression => rfl
  | climb power =>
      have hclimb := climb_eq_carryOn level power (hpower power rfl) s
      rw [operand_eq, bind_assoc] at hclimb
      exact hclimb
  | operandAt t => rfl

end Readers

end Descent

end StackLang
