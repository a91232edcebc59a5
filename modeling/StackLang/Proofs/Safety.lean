import StackLang.Proofs.Agreement
import StackLang.Proofs.Grammar.Loops
import StackLang.Proofs.Token.Cursor
import StackLang.Proofs.Tree.Faults

/-!
# Texts cannot upset the inner workings

Whatever text is compiled, and whatever program comes of it, the parts rely on one
another and are never let down. Every round of the loops that read takes tokens, so
reading comes to an end. It reports known operators and well-nested constructs, so a
draft that follows is coherent at any time and refuses nothing for a lack of balance.
Every statement leaves the openings as they were. And a run faults only where the meaning
of the tree does, so it never finds its stack, its jumps or its variables in disorder.
-/

namespace StackLang

open StackLang.Tree

namespace Grammar

theorem Begun.known {es : List (Located Event)} (h : Begun es) (e : Located Event) (he : e ∈ es) :
    e.item.Known := by
  obtain ⟨ns, more, hns, hknown⟩ := h
  by_cases hcontrol : e.item.isControl = true
  · rcases e with ⟨pos, event⟩
    cases event with
    | operator spelling => cases hcontrol
    | _ => trivial
  · have hmem : e ∈ (Nest.eventsAll ns).filter fun e => !e.item.isControl := by
      rw [← hns]
      exact List.mem_filter.mpr ⟨List.mem_append_left more he, by simpa using hcontrol⟩
    rw [Nest.filter_eventsAll] at hmem
    obtain ⟨p, hp, rfl⟩ := List.mem_map.mp hmem
    exact hknown p hp

/-- Where events that are well nested so far are refused, a plain event with a known
operator is to blame. -/
theorem Begun.refused {es : List (Located Event)} (h : Begun es) (cause : Located DraftError)
    (hcause : Draft.empty.applyAll es = .error cause) :
    ∃ p : Plain, p.event.Known ∧ p.Refused cause.item := by
  obtain ⟨ns, more, hns, hknown⟩ := h
  have hall := Draft.applyAll_append_of_error _ es more cause hcause
  rw [hns] at hall
  have hlays := Nest.laysAll ns Draft.empty Draft.settled_empty
  cases hstore : Draft.empty.store.afterAll? (Nest.plainsAll ns) with
  | none =>
      obtain ⟨cause', hcause', p, hp, hrefused⟩ := hlays.refuses hstore
      obtain rfl : cause = cause' := Except.error.inj (hall.symm.trans hcause')
      exact ⟨p, hknown p hp, hrefused⟩
  | some σ =>
      rw [hlays.takes σ hstore σ (Store.Within.refl σ)] at hall
      cases hall

/-- What is reported is well nested, whether the tokens are read to their end or not. -/
theorem begun_program (s : TokenStream) : Begun (program s).events := by
  have hread := satisfies_program s
  rw [Reading.Satisfies] at hread
  split at hread
  · obtain ⟨ts, ss, rest, -, -, -, hevents, -⟩ := hread
    rw [hevents]
    exact begun_events ss
  · exact hread

theorem begun_readSource (source : String) : Begun (readSource source).events := begun_program _

/-- Behind all events of a program nothing is open. -/
theorem openings_of_program (s : TokenStream) (hread : (program s).outcome = .ok ()) (d : Draft)
    (hd : Draft.empty.applyAll (program s).events = .ok d) : d.openings = [] := by
  have hsatisfies := satisfies_program s
  rw [Reading.Satisfies, hread] at hsatisfies
  obtain ⟨ts, ss, rest, -, -, -, hevents, -⟩ := hsatisfies
  rw [hevents] at hd
  exact Nest.openings_of_applyAll _ _ d Draft.settled_empty hd

/-- Where the tokens of a program are refused, a draft refuses what was reported of them,
or the reader stops. -/
theorem error_of_compile (s : TokenStream) (e : Located Fault)
    (h : (program s).compile = .error e) :
    (∃ cause, Draft.empty.applyAll (program s).events = .error cause ∧ e = cause.map .draft) ∨
      ((∃ d, Draft.empty.applyAll (program s).events = .ok d) ∧
        (program s).outcome = .error e) := by
  rw [Reading.compile] at h
  cases hd : Draft.empty.applyAll (program s).events with
  | error cause =>
      rw [hd] at h
      exact .inl ⟨cause, rfl, (Except.error.inj h).symm⟩
  | ok d =>
      cases houtcome : (program s).outcome with
      | error f =>
          rw [hd, houtcome] at h
          exact .inr ⟨⟨d, rfl⟩, congrArg Except.error (Except.error.inj h)⟩
      | ok _ =>
          rw [hd, houtcome] at h
          simp [Draft.finish, openings_of_program s houtcome d hd, Draft.unterminated?,
            Except.mapError] at h

/-- A statement leaves the openings of a draft as it found them. -/
theorem openings_of_statement (level : Nat) (s rest : TokenStream) (es : List (Located Event))
    (hread : statement level s = ⟨es, .ok rest⟩) (d d' : Draft) (hd : d.Settled)
    (hd' : d.applyAll es = .ok d') : d'.openings = d.openings := by
  have hsatisfies := satisfies_statement level s
  rw [hread] at hsatisfies
  obtain ⟨ts, t, -, -, rfl, -⟩ := hsatisfies
  exact Nest.openings_of_applyAll t.nests d d' hd hd'

/-- The places where a statement may start while a text is read: the stream there, with
the levels that are left, and the draft so far. -/
inductive Starts (source : String) : Nat → TokenStream → Draft → Prop where
  | first : Starts source maxLevel (TokenStream.ofSource source).significant Draft.empty
  /-- Behind another statement. -/
  | next {level : Nat} {s rest : TokenStream} {es : List (Located Event)} {d d' : Draft}
      (h : Starts source level s d) (hread : statement level s = ⟨es, .ok rest⟩)
      (hd : d.applyAll es = .ok d') : Starts source level rest d'
  /-- In a conditional. -/
  | branch {level : Nat} {s rest : TokenStream} {es : List (Located Event)} {d d' : Draft}
      (h : Starts source (level + 1) s d) (hs : s.head.kind = .keyword .branch)
      (hread : expression level s.tail = ⟨es, .ok rest⟩)
      (hd : d.applyAll (es ++ [⟨s.head.pos, .branch⟩]) = .ok d') : Starts source level rest d'
  /-- In the second branch of a conditional. -/
  | otherwise {level : Nat} {s rest last : TokenStream} {es fs : List (Located Event)}
      {d d' : Draft} (h : Starts source (level + 1) s d) (hs : s.head.kind = .keyword .branch)
      (hread : expression level s.tail = ⟨es, .ok rest⟩)
      (hbody : block [.keyword .otherwise, .keyword .close] (statement level) rest =
        ⟨fs, .ok last⟩)
      (hlast : last.head.kind = .keyword .otherwise)
      (hd : d.applyAll (es ++ ⟨s.head.pos, .branch⟩ :: fs ++ [⟨last.head.pos, .otherwise⟩]) =
        .ok d') : Starts source level last.tail d'
  /-- In a loop. -/
  | loop {level : Nat} {s rest : TokenStream} {es : List (Located Event)} {d d' : Draft}
      (h : Starts source (level + 1) s d) (hs : s.head.kind = .keyword .loop)
      (hread : expression level s.tail = ⟨es, .ok rest⟩)
      (hd : d.applyAll (⟨s.head.pos, .loop⟩ :: es ++ [⟨s.head.pos, .branch⟩]) = .ok d') :
      Starts source level rest d'

/-- Behind a condition, or at the start of a second branch, no loop head lies on top of
the openings. -/
theorem settled_of_concat (d d' : Draft) (es : List (Located Event)) (e : Located Event)
    (he : e.item = .branch ∨ e.item = .otherwise) (h : d.applyAll (es ++ [e]) = .ok d') :
    d'.Settled := by
  obtain ⟨d₁, -, hlast⟩ := Draft.exists_of_applyAll_append h
  obtain ⟨d₂, happly, hnil⟩ := Draft.exists_of_applyAll_cons hlast
  obtain rfl : d₂ = d' := Except.ok.inj hnil
  cases d₁.changes_of_apply d₂ e happly with
  | branch pos => exact d₁.settled_openWith .branch pos _ (by simp)
  | otherwise => exact Draft.settled_of_cons _ _ _ rfl (by simp)
  | plain p =>
      have hplain := p.isControl_located
      rcases he with he | he <;> simp [he] at hplain
  | loop | close | closeLoop => simp at he

theorem Starts.settled {source : String} {level : Nat} {s : TokenStream} {d : Draft}
    (h : Starts source level s d) : d.Settled := by
  induction h with
  | first => exact Draft.settled_empty
  | next _ hread hd ih =>
      rw [Draft.Settled, openings_of_statement _ _ _ _ hread _ _ ih hd]
      exact ih
  | branch _ _ _ hd _ => exact settled_of_concat _ _ _ _ (.inl rfl) hd
  | otherwise _ _ _ _ _ hd _ => exact settled_of_concat _ _ _ _ (.inr rfl) hd
  | loop _ _ _ hd _ => exact settled_of_concat _ _ _ _ (.inl rfl) hd

end Grammar

namespace Program

/-- A text is refused by the reader, or because of a plain event with a known operator. -/
theorem cause_of_error (source : String) (e : Located Fault) (h : ofSource source = .error e) :
    e.item.OfReading ∨
      ∃ (p : Plain) (cause : DraftError), p.event.Known ∧ p.Refused cause ∧
        e.item = .draft cause := by
  rcases Grammar.error_of_compile _ e h with ⟨cause, hcause, rfl⟩ | ⟨-, houtcome⟩
  · obtain ⟨p, hknown, hrefused⟩ := (Grammar.begun_readSource source).refused cause hcause
    exact .inr ⟨p, cause.item, hknown, hrefused, rfl⟩
  · exact .inl (Grammar.ofReading_of_program _ e houtcome)

/-- The drafts on the way are no larger than the text is long. -/
theorem size_le_length (source : String) (es : List (Located Event))
    (hes : es <+: (Grammar.readSource source).events) (d : Draft)
    (hd : Draft.empty.applyAll es = .ok d) :
    d.code.size ≤ source.length ∧ d.store.size ≤ source.length := by
  have hweight : Event.weightAll es ≤ source.length := by
    obtain ⟨more, hmore⟩ := hes
    calc Event.weightAll es
        ≤ Event.weightAll es + Event.weightAll more := Nat.le_add_right _ _
      _ = Event.weightAll (Grammar.readSource source).events := by
          rw [← Event.weightAll_append, hmore]
      _ ≤ (TokenStream.ofSource source).significant.weight := Grammar.weightAll_events_program _
      _ ≤ source.length := TokenStream.weight_ofSource_le source
  obtain ⟨hcode, hstore⟩ := Draft.empty.size_of_applyAll d es hd
  have hempty : Draft.empty.code.size = 0 ∧ Draft.empty.store.size = 0 := ⟨rfl, rfl⟩
  omega

/-- Nothing that the inner workings rely on can fail, from the first character of a text
to the last step of its program. -/
structure Faultless (source : String) : Prop where
  /-- The line and the column of every place fit in 32 bits. -/
  places : ∀ before after, source.toList = before ++ after →
    (Position.start.after before).line < 2 ^ 32 ∧ (Position.start.after before).column < 2 ^ 32
  /-- A literal has both of its quotes, a comment both of its slashes. -/
  spelled : ∀ l ∈ lexemes source.toList, l.Spelled
  /-- The cursor is always at a token of the list, and it is the one that is read next. -/
  cursor : ∀ n, (TokenStream.ofSource source).cursor n <:+ (TokenStream.ofSource source).toList ∧
    ((TokenStream.ofSource source).cursor n).head? =
      some ((TokenStream.ofSource source).significant.nth n)
  /-- Every statement and every operand on the right of an operator takes tokens. -/
  progress : ∀ level, Grammar.Consumes (Grammar.statement level) ∧
    ∀ tighter, tighter <:+ Grammar.tiers →
      Grammar.Consumes (Grammar.binary (Grammar.operand level) tighter)
  /-- So the loops of the reader end, with nothing in them that watches over the tokens that are
  left: written in that way they have one solution, which is the loop that is read by. -/
  loops : ∀ level terminators r,
    (∀ s, r s = Grammar.round terminators (Grammar.statement level) r s) ↔
      r = Grammar.block terminators (Grammar.statement level)
  chains : ∀ level tier tighter r, tighter <:+ Grammar.tiers →
    ((∀ s, r s = Grammar.link tier (Grammar.binary (Grammar.operand level) tighter) r s) ↔
      r = Grammar.chain tier (Grammar.binary (Grammar.operand level) tighter))
  known : ∀ e ∈ (Grammar.readSource source).events, e.item.Known
  /-- At any time, what awaits a target is a jump, names have variables, and there is room
  for another index of 32 bits. -/
  drafts : ∀ es d, es <+: (Grammar.readSource source).events → Draft.empty.applyAll es = .ok d →
    d.Coherent ∧ (∀ name i, d.store.find? name = some i → ∃ x, d.store.get? i = some x) ∧
      d.code.size < 2 ^ 32 - 1 ∧ d.store.size < 2 ^ 32 - 1
  /-- Statements leave the openings as they find them. -/
  statements : ∀ level s d, Grammar.Starts source level s d →
    ∀ es rest d', Grammar.statement level s = ⟨es, .ok rest⟩ → d.applyAll es = .ok d' →
      d'.openings = d.openings
  /-- A text is never refused for a construct out of place or an operator unheard of. -/
  refused : ∀ e, ofSource source = .error e →
    (∀ i, e.item ≠ .draft (.unbalanced i)) ∧ ∀ symbol, e.item ≠ .draft (.unknownOperator symbol)
  runs : ∀ p, ofSource source = .ok p → ∀ ρ limit n f,
    ((Machine.start (p.store.holding ρ) limit).run p n).fault = some f → ¬ f.item.Internal

/-- The inner workings are safe from every text that is short enough for its places to be
counted. -/
theorem faultless_of_length_lt (source : String) (h : source.length < 2 ^ 32 - 1) :
    Faultless source where
  places before after hsource := by
    have hlength : before.length ≤ source.length := by
      rw [← String.length_toList, hsource, List.length_append]
      exact Nat.le_add_right _ _
    obtain ⟨hline, hcolumn⟩ := Position.start.after_le (Nat.le_refl 1) before
    have hstart : Position.start.line = 1 ∧ Position.start.column = 1 := ⟨rfl, rfl⟩
    omega
  spelled := spelled_of_mem_lexemes source.toList
  cursor n := ⟨TokenStream.cursor_suffix _ n, TokenStream.head?_cursor source n⟩
  progress level := ⟨Grammar.consumes_statement level, fun _ => Grammar.consumes_binary level⟩
  loops level terminators := Grammar.eq_block_iff terminators (Grammar.consumes_statement level)
  chains level tier _ r htighter :=
    Grammar.eq_chain_iff tier (Grammar.consumes_binary level htighter) r
  known := (Grammar.begun_readSource source).known
  drafts es d hes hd := by
    obtain ⟨hcode, hstore⟩ := size_le_length source es hes d hd
    refine ⟨Draft.empty.coherent_of_applyAll d es hd Draft.coherent_empty, ?_,
      Nat.lt_of_le_of_lt hcode h, Nat.lt_of_le_of_lt hstore h⟩
    intro name i hname
    obtain ⟨x, hx, -⟩ := d.store.get?_of_find?_eq_some name i hname
    exact ⟨x, hx⟩
  statements level s d hstarts es rest d' hread hd' :=
    Grammar.openings_of_statement level s rest es hread d d' hstarts.settled hd'
  refused e he := by
    rcases cause_of_error source e he with hreading | ⟨p, cause, hknown, hrefused, hcause⟩
    · refine ⟨fun i hitem => ?_, fun symbol hitem => ?_⟩
      · rw [hitem] at hreading
        exact hreading
      · rw [hitem] at hreading
        exact hreading
    · rw [hcause]
      refine ⟨fun i hitem => hrefused.ne_unbalanced i (Fault.draft.inj hitem), ?_⟩
      intro symbol hitem
      exact hrefused.ne_unknownOperator hknown symbol (Fault.draft.inj hitem)
  runs p hp ρ limit n f hfault := by
    obtain ⟨ss, hss, -⟩ :=
      Grammar.exists_tree_of_readSource source (Reading.outcome_of_compile hp)
    obtain ⟨s', c, stack, hfaults, -⟩ :=
      (agrees_of_derivesAll source p hp ss hss ρ limit).faulted n f hfault
    exact Statement.not_internal_of_faults ss _ f s' hfaults

theorem faultless_of_length_lt_countdown :
    countdown.length < 2 ^ 32 - 1 ∧ Faultless countdown :=
  ⟨by decide, faultless_of_length_lt countdown (by decide)⟩

end Program

end StackLang
