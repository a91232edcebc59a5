import StackLang.Proofs.Grammar.Locality
import StackLang.Proofs.Safety
import StackLang.Proofs.Token.Tiling

/-!
# Faults are found from left to right

A text is refused at one of its significant tokens, and the tokens up to that one are all
that counts: none of those before it is invalid, and every text that starts with the same
tokens is refused with the same fault, whatever follows.

The readers do not look ahead, and what they report late is never refused by a draft. So a
fault lies beyond every cut, unless it is found in the tokens before the cut alone; and the
positions of tokens increase, so it is clear on which side of a cut a position lies.
-/

namespace StackLang

variable {far : Position → Prop}

namespace Draft

/-- Where constructs match and operators are known, only doubtful events are refused. -/
theorem isDoubtful_of_take (d : Draft) (p : Position) (e : Event) (cause : DraftError)
    (h : d.take p e = .error cause) (hbalanced : ∀ i, cause ≠ .unbalanced i)
    (hknown : ∀ symbol, cause ≠ .unknownOperator symbol) : e.isDoubtful = true := by
  cases e with
  | declare | target | read | integer => rfl
  | operator symbol =>
      rw [take, operator] at h
      split at h
      · exact absurd (Except.error.inj h).symm (hknown symbol)
      · cases h
  | otherwise =>
      rw [take, otherwise] at h
      split at h
      · cases h
      · exact absurd (Except.error.inj h).symm (hbalanced _)
  | close =>
      rw [take, close] at h
      split at h
      · exact absurd (Except.error.inj h).symm (hbalanced _)
      · cases h
      · cases h
  | _ => cases h

theorem exists_doubtful_of_applyAll (d : Draft) (es : List (Located Event))
    (cause : Located DraftError) (h : d.applyAll es = .error cause)
    (hbalanced : ∀ i, cause.item ≠ .unbalanced i)
    (hknown : ∀ symbol, cause.item ≠ .unknownOperator symbol) :
    ∃ e ∈ es, e.item.isDoubtful = true ∧ e.pos = cause.pos := by
  induction es generalizing d with
  | nil => cases h
  | cons e es ih =>
      rw [applyAll, apply] at h
      cases htake : d.take e.pos e.item with
      | error reason =>
          rw [htake] at h
          obtain rfl := Except.error.inj h
          exact ⟨e, List.mem_cons_self, d.isDoubtful_of_take _ _ _ htake hbalanced hknown, rfl⟩
      | ok d' =>
          rw [htake] at h
          obtain ⟨e', he', hdoubtful, hpos⟩ := ih d' h
          exact ⟨e', List.mem_cons_of_mem e he', hdoubtful, hpos⟩

end Draft

namespace Reading

theorem compile_of_refused {r : Reading Unit} {cause : Located DraftError}
    (h : Draft.empty.applyAll r.events = .error cause) :
    r.compile = .error (cause.map .draft) := by
  rw [compile, h]

theorem compile_of_stopped {r : Reading Unit} {d : Draft} {e : Located Fault}
    (h : Draft.empty.applyAll r.events = .ok d) (houtcome : r.outcome = .error e) :
    r.compile = .error e := by
  rw [compile, h, houtcome]

/-- What a draft refuses beyond the cut lies there. -/
theorem Beyond.refused {α : Type} {F : α → Prop} {x : Reading α} (h : x.Beyond far F) (d : Draft)
    (cause : Located DraftError) (hcause : d.applyAll x.events = .error cause)
    (hbalanced : ∀ i, cause.item ≠ .unbalanced i)
    (hknown : ∀ symbol, cause.item ≠ .unknownOperator symbol) : far cause.pos := by
  obtain ⟨e, he, hdoubtful, hpos⟩ :=
    d.exists_doubtful_of_applyAll _ cause hcause hbalanced hknown
  exact hpos ▸ h.events e he hdoubtful

variable {α : Type} {P : Bool → α → α → Prop} {near : Bool} {x y : Reading α}

theorem Agree.refused (h : x.Agree far P near y) (cause : Located DraftError)
    (hcause : Draft.empty.applyAll x.events = .error cause)
    (hbalanced : ∀ i, cause.item ≠ .unbalanced i)
    (hknown : ∀ symbol, cause.item ≠ .unknownOperator symbol) :
    far cause.pos ∨ near = true ∧ Draft.empty.applyAll y.events = .error cause := by
  cases h with
  | together h => exact .inr ⟨rfl, hcause⟩
  | beyond h => exact .inl (h.refused _ cause hcause hbalanced hknown)
  | @parted es x y hes h =>
      -- The refused event was reported before the look beyond the cut, or behind it.
      cases hd : Draft.empty.applyAll es with
      | error cause' =>
          rw [Draft.applyAll_append_of_error _ es x.events cause' hd] at hcause
          obtain rfl := Except.error.inj hcause
          obtain ⟨more, hmore⟩ := hes
          exact .inr ⟨rfl, hmore ▸ Draft.applyAll_append_of_error _ es more cause' hd⟩
      | ok d =>
          rw [Draft.applyAll_append_of_ok _ d es x.events hd] at hcause
          exact .inl (h.refused d cause hcause hbalanced hknown)

theorem Agree.stopped (h : x.Agree far P near y) (e : Located Fault)
    (he : x.outcome = .error e) :
    far e.pos ∨ near = true ∧ y.events = x.events ∧ y.outcome = .error e := by
  cases h with
  | @together es o o' h =>
      cases h with
      | error h => exact .inr ⟨rfl, rfl, h ▸ he⟩
      | ok h => cases he
  | parted hes h => exact .inl (h.error e he)
  | beyond h => exact .inl (h.error e he)

end Reading

namespace TokenStream

theorem pairwise_significant (source : String) :
    (ofSource source).significant.toList.Pairwise fun t u => t.pos.Precedes u.pos := by
  refine (pairwise_ofSource source).sublist ?_
  exact List.filter_sublist.append (List.Sublist.refl _)

/-- Tokens on different sides of a cut stand at different positions. -/
theorem pos_ne_of_mem (source : String) (n : Nat) (t u : Token)
    (ht : t ∈ (ofSource source).significant.toList.take n)
    (hu : u ∈ (ofSource source).significant.toList.drop n) : t.pos ≠ u.pos := by
  have h := pairwise_significant source
  rw [← List.take_append_drop n (ofSource source).significant.toList, List.pairwise_append] at h
  exact (h.2.2 t ht u hu).ne

theorem kind_ne_eof_significant (source : String) (t : Token)
    (h : t ∈ (ofSource source).significant.tokens) : t.kind ≠ .eof :=
  kind_ne_eof source t (mem_tokens_of_mem_significant _ t h)

theorem mem_take_of_getElem? {ts : List Token} {k : Nat} {t : Token} (h : ts[k]? = some t) :
    t ∈ ts.take (k + 1) :=
  List.mem_of_getElem? ((List.getElem?_take_of_lt (Nat.lt_succ_self k)).trans h)

theorem mem_drop_of_getElem? {ts : List Token} {n k : Nat} {t : Token} (h : ts[k]? = some t)
    (hk : n ≤ k) : t ∈ ts.drop n := by
  refine List.mem_of_getElem? (i := k - n) ?_
  rw [List.getElem?_drop, Nat.add_sub_cancel' hk]
  exact h

variable {s u : TokenStream} {ts : List Token}

theorem length_toList (s : TokenStream) : s.toList.length = s.tokens.length + 1 :=
  List.length_append

theorem take_toList {n : Nat} (hn : n ≤ s.tokens.length) : s.toList.take n = s.tokens.take n :=
  List.take_append_of_le_length hn

theorem exists_splits_of_prefix (h : ts <+: s.tokens) : ∃ rest, s.Splits ts rest := by
  obtain ⟨us, hus⟩ := h
  exact ⟨ofTokens us s.stop, hus.symm, rfl⟩

theorem prefix_tokens (h : ts <+: s.toList) (hts : ∀ t ∈ ts, t.kind ≠ .eof) : ts <+: s.tokens := by
  rcases List.prefix_concat_iff.mp h with rfl | h
  · exact absurd rfl (hts s.eof (List.mem_append_right _ (List.mem_singleton_self _)))
  · exact h

/-- A text with all tokens of another, the end of file too, has no others. -/
theorem eq_of_toList_prefix (h : s.toList <+: u.toList) (hu : ∀ t ∈ u.tokens, t.kind ≠ .eof) :
    u = s := by
  rcases List.prefix_concat_iff.mp h with heq | h
  · obtain ⟨htokens, heof⟩ := List.append_inj' heq rfl
    have hstop : s.stop = u.stop := congrArg Token.pos (List.singleton_inj.mp heof)
    rw [u.eq_ofTokens, ← htokens, ← hstop, ← s.eq_ofTokens]
  · have hmem : s.eof ∈ u.tokens :=
      h.mem (List.mem_append_right _ (List.mem_singleton_self _))
    exact absurd rfl (hu s.eof hmem)

end TokenStream

namespace Grammar

variable {tail tail' : TokenStream} {near : Bool} {s u : TokenStream} {e : Located Fault}

/-- A fault lies beyond the cut, or every stream with the same tokens before it has it. -/
theorem far_or_compile_eq (h : Ahead far tail tail' near s u)
    (he : (program s).compile = .error e) :
    far e.pos ∨ near = true ∧ (program u).compile = .error e := by
  have hagree := agree_program h
  rcases error_of_compile s e he with ⟨cause, hcause, rfl⟩ | ⟨⟨d, hd⟩, houtcome⟩
  · obtain ⟨p, hknown, hrefused⟩ := (begun_program s).refused cause hcause
    rcases hagree.refused cause hcause hrefused.ne_unbalanced
      (hrefused.ne_unknownOperator hknown) with hfar | ⟨hnear, hcause'⟩
    · exact .inl hfar
    · exact .inr ⟨hnear, Reading.compile_of_refused hcause'⟩
  · rcases hagree.stopped e houtcome with hfar | ⟨hnear, hevents, houtcome'⟩
    · exact .inl hfar
    · exact .inr ⟨hnear, Reading.compile_of_stopped (hevents ▸ hd) houtcome'⟩

theorem exists_token_of_compile (he : (program s).compile = .error e) :
    ∃ t ∈ s.toList, e.pos = t.pos := by
  have hahead : Ahead (fun p => ∃ t ∈ s.toList, p = t.pos) s s false s s :=
    .beyond fun t ht => ⟨t, ht, rfl⟩
  rcases far_or_compile_eq hahead he with hfar | ⟨hnear, -⟩
  · exact hfar
  · cases hnear

/-- Cut behind the first `n` tokens. -/
theorem exists_behind_or_compile_eq (n : Nat) (hn : n ≤ s.tokens.length)
    (h : s.tokens.take n <+: u.tokens) (he : (program s).compile = .error e) :
    (∃ t ∈ s.toList.drop n, e.pos = t.pos) ∨ (program u).compile = .error e := by
  obtain ⟨rest, hrest⟩ := u.exists_splits_of_prefix h
  have hsplits : s.Splits (s.tokens.take n) (.ofTokens (s.tokens.drop n) s.stop) :=
    ⟨(List.take_append_drop n s.tokens).symm, rfl⟩
  have hdrop : (TokenStream.ofTokens (s.tokens.drop n) s.stop).toList = s.toList.drop n :=
    (List.drop_append_of_le_length hn).symm
  have hbeyond : (TokenStream.ofTokens (s.tokens.drop n) s.stop).Beyond
      fun p => ∃ t ∈ s.toList.drop n, p = t.pos := fun t ht => ⟨t, hdrop ▸ ht, rfl⟩
  rcases far_or_compile_eq (.near _ hsplits hrest (.inl hbeyond)) he with hfar | ⟨-, hu⟩
  · exact .inl hfar
  · exact .inr hu

/-- No reader gets past an invalid token. -/
theorem exists_token_of_invalid (ts : List Token) (hts : ts <+: s.tokens) (t : Token) (ht : t ∈ ts)
    (hinvalid : t.kind.isError = true) (he : (program s).compile = .error e) :
    ∃ u ∈ ts, e.pos = u.pos := by
  obtain ⟨rest, hrest⟩ := s.exists_splits_of_prefix hts
  -- The tokens `ts` alone have the same fault, wherever their stream is said to end.
  have hshort : (TokenStream.ofTokens ts t.pos).Splits ts (.ofTokens [] t.pos) :=
    ⟨(List.append_nil ts).symm, rfl⟩
  have hahead : Ahead (fun _ => False) rest (.ofTokens [] t.pos) true s (.ofTokens ts t.pos) :=
    .near ts hrest hshort (.inr ⟨t, ht, hinvalid⟩)
  rcases far_or_compile_eq hahead he with hfar | ⟨-, he'⟩
  · exact hfar.elim
  · obtain ⟨u, hu, hpos⟩ := exists_token_of_compile he'
    rcases List.mem_append.mp hu with hu | hu
    · exact ⟨u, hu, hpos⟩
    · obtain rfl := List.mem_singleton.mp hu
      exact ⟨t, ht, hpos⟩

end Grammar

namespace Program

/-- The significant tokens of a text and its end. -/
abbrev tokens (source : String) : List Token := (TokenStream.ofSource source).significant.toList

/-- Token number `k` of a text is to blame for its fault, and what follows it does not
matter. -/
structure BlamesToken (source : String) (e : Located Fault) (k : Nat) : Prop where
  place : ∃ t, (tokens source)[k]? = some t ∧ e.pos = t.pos
  /-- The tokens before are valid. -/
  valid : ∀ i t, i < k → (tokens source)[i]? = some t → t.kind.isError = false
  /-- Texts with the same tokens up to this one have the same fault. -/
  same : ∀ source', (tokens source).take (k + 1) <+: tokens source' → ofSource source' = .error e
  /-- No program starts with these tokens. -/
  refused : ∀ source' p, ofSource source' = .ok p →
    ¬ (tokens source).take (k + 1) <+: tokens source'

variable {source source' : String} {e : Located Fault} {k : Nat} {t : Token}

theorem isError_eq_false_of_lt (he : ofSource source = .error e)
    (ht : (tokens source)[k]? = some t) (hpos : e.pos = t.pos) (i : Nat) (u : Token) (hi : i < k)
    (hu : (tokens source)[i]? = some u) : u.kind.isError = false := by
  have hlength : i + 1 ≤ (TokenStream.ofSource source).significant.tokens.length := by
    have hk := (List.getElem?_eq_some_iff.mp ht).1
    rw [TokenStream.length_toList] at hk
    omega
  cases hinvalid : u.kind.isError with
  | false => rfl
  | true =>
      have hmem := TokenStream.mem_take_of_getElem? hu
      rw [TokenStream.take_toList hlength] at hmem
      obtain ⟨v, hv, hposv⟩ :=
        Grammar.exists_token_of_invalid _ (List.take_prefix _ _) u hmem hinvalid he
      rw [← TokenStream.take_toList hlength] at hv
      exact absurd (hposv.symm.trans hpos)
        (TokenStream.pos_ne_of_mem source _ v t hv (TokenStream.mem_drop_of_getElem? ht hi))

theorem ofSource_of_prefix (he : ofSource source = .error e) (ht : (tokens source)[k]? = some t)
    (hpos : e.pos = t.pos) (h : (tokens source).take (k + 1) <+: tokens source') :
    ofSource source' = .error e := by
  rcases Nat.lt_or_ge k (TokenStream.ofSource source).significant.tokens.length with hlt | hge
  · rw [tokens, TokenStream.take_toList hlt] at h
    have hprefix := TokenStream.prefix_tokens h fun t ht =>
      TokenStream.kind_ne_eof_significant source t (List.mem_of_mem_take ht)
    rcases Grammar.exists_behind_or_compile_eq (k + 1) hlt hprefix he with ⟨u, hu, hposu⟩ | he'
    · exact absurd (hpos.symm.trans hposu)
        (TokenStream.pos_ne_of_mem source _ t u (TokenStream.mem_take_of_getElem? ht) hu)
    · exact he'
  · -- The fault lies at the end, so all tokens are shared.
    have hall : (tokens source).length ≤ k + 1 :=
      (TokenStream.length_toList _).trans_le (Nat.succ_le_succ hge)
    rw [List.take_of_length_le hall] at h
    rw [ofSource, Grammar.readSource,
      TokenStream.eq_of_toList_prefix h (TokenStream.kind_ne_eof_significant source')]
    exact he

/-- Faults are found from left to right. -/
theorem blamesToken_of_error (source : String) (e : Located Fault)
    (he : ofSource source = .error e) : ∃ k, BlamesToken source e k := by
  obtain ⟨t, ht, hpos⟩ := Grammar.exists_token_of_compile he
  obtain ⟨k, hk⟩ := List.mem_iff_getElem?.mp ht
  have hsame (source' : String) (h : (tokens source).take (k + 1) <+: tokens source') :
      ofSource source' = .error e := ofSource_of_prefix he hk hpos h
  refine ⟨k, ⟨t, hk, hpos⟩, isError_eq_false_of_lt he hk hpos, hsame, ?_⟩
  intro source' p hp h
  rw [hsame source' h] at hp
  cases hp

instance (x : Except (Located Fault) Program) (e : Located Fault) : Decidable (x = .error e) :=
  match x with
  | .error e' => decidable_of_iff (e' = e) ⟨congrArg Except.error, Except.error.inj⟩
  | .ok _ => .isFalse nofun

/-- An undeclared variable, with an invalid number and an unclosed string behind it. -/
def strayName : String := "string a;\na := b + 12y; \"c"

theorem blamesToken_of_error_strayName :
    ofSource strayName = .error ⟨⟨2, 6⟩, .draft (.undeclaredVariable "b")⟩ ∧
      ∃ k, BlamesToken strayName ⟨⟨2, 6⟩, .draft (.undeclaredVariable "b")⟩ k := by
  have he : ofSource strayName = .error ⟨⟨2, 6⟩, .draft (.undeclaredVariable "b")⟩ := by
    decide +kernel
  exact ⟨he, blamesToken_of_error _ _ he⟩

end Program

end StackLang
