import StackLang.Proofs.Draft.Layout
import StackLang.Proofs.Grammar.Soundness
import StackLang.Proofs.Token.Scan

/-!
# The texts that are programs

A text compiles if and only if its tokens derive a tree, the tree is scoped and in the
range of the integers, and it is not too deep. The grammar decides the first and the
last: it reads every tree up to the greatest depth, and nothing else. The draft decides
the rest: it takes the events of a tree if and only if the store admits what the tree
mentions.
-/

namespace StackLang

namespace Tree

/-- The tokens `ts` are valid, and the numerals among the mentions `ms` are literals
among them. -/
structure Covers (ts : List Token) (ms : List Mention) : Prop where
  valid : ∀ t ∈ ts, t.kind.isError = false
  literal : ∀ text, .numeral text ∈ ms → ∃ t ∈ ts, t.kind = .intLiteral ∧ t.text = text

namespace Covers

theorem nil : Covers [] [] := ⟨by simp, by simp⟩

theorem append {ts us : List Token} {ms ns : List Mention} (h : Covers ts ms)
    (h' : Covers us ns) : Covers (ts ++ us) (ms ++ ns) where
  valid t ht := by
    rcases List.mem_append.mp ht with ht | ht
    · exact h.valid t ht
    · exact h'.valid t ht
  literal text htext := by
    rcases List.mem_append.mp htext with htext | htext
    · obtain ⟨t, ht, hliteral⟩ := h.literal text htext
      exact ⟨t, List.mem_append_left _ ht, hliteral⟩
    · obtain ⟨t, ht, hliteral⟩ := h'.literal text htext
      exact ⟨t, List.mem_append_right _ ht, hliteral⟩

/-- A token that is no literal adds nothing but itself. -/
theorem cons {ts : List Token} {ms : List Mention} (h : Covers ts ms) (t : Token)
    (ht : t.kind.isError = false) : Covers (t :: ts) ms where
  valid := by
    intro u hu
    rcases List.mem_cons.mp hu with rfl | hu
    · exact ht
    · exact h.valid u hu
  literal text htext := by
    obtain ⟨u, hu, hliteral⟩ := h.literal text htext
    exact ⟨u, List.mem_cons_of_mem t hu, hliteral⟩

theorem cons_mention {ts : List Token} {ms : List Mention} (h : Covers ts ms) (m : Mention)
    (hm : ∀ text, m ≠ .numeral text) : Covers ts (m :: ms) where
  valid := h.valid
  literal text htext := by
    rcases List.mem_cons.mp htext with rfl | htext
    · exact absurd rfl (hm text)
    · exact h.literal text htext

theorem concat {ts : List Token} {ms : List Mention} (h : Covers ts ms) (t : Token)
    (ht : t.kind.isError = false) : Covers (ts ++ [t]) ms := by
  have hlast := h.append (nil.cons t ht)
  rwa [List.append_nil] at hlast

/-- The tokens that close a construct. -/
theorem closed {ts : List Token} {ms : List Mention} (h : Covers ts ms) (close semi : Token)
    (hclose : close.kind = .keyword .close) (hsemi : semi.kind = .semicolon) :
    Covers (ts ++ [close, semi]) ms := by
  have hlast := h.append ((nil.cons semi (by rw [hsemi]; rfl)).cons close (by rw [hclose]; rfl))
  rwa [List.append_nil] at hlast

end Covers

theorem Expression.Derives.covers {n : Nat} {ts : List Token} {e : Expression}
    (h : e.Derives n ts) : Covers ts e.mentions := by
  induction h with
  | read t ht =>
      exact (Covers.nil.cons t (by rw [ht]; rfl)).cons_mention _ (by simp)
  | integer t ht =>
      refine ⟨by simp [ht, TokenKind.isError], ?_⟩
      intro text htext
      obtain rfl : text = t.text := by simpa [Expression.mentions] using htext
      exact ⟨t, List.mem_singleton_self t, ht, rfl⟩
  | string t ht => exact Covers.nil.cons t (by rw [ht]; rfl)
  | group l r hl hr inner ih => exact (ih.concat r (by rw [hr]; rfl)).cons l (by rw [hl]; rfl)
  | unary op t ht operand ih => exact ih.cons t (by rw [ht]; cases op <;> rfl)
  | binary op t ht left right ihl ihr =>
      exact ihl.append (ihr.cons t (by rw [ht]; cases op <;> rfl))
  | tighter h ih => exact ih

namespace Statement

mutual

theorem Derives.covers {ts : List Token} {s : Statement} : Derives ts s → Covers ts s.mentions
  | .declare kind k name semi hk hname hsemi => by
      refine Covers.cons_mention ?_ _ (by simp)
      exact ((Covers.nil.cons semi (by rw [hsemi]; rfl)).cons name (by rw [hname]; rfl)).cons k
        (by rw [hk]; rfl)
  | .declareLong kind d k name semi hd hk hname hsemi => by
      have hshort := Derives.covers (.declare kind k name semi hk hname hsemi)
      exact hshort.cons d (by rw [hd]; rfl)
  | .assign name t semi hname ht hsemi hvalue => by
      refine Covers.cons_mention ?_ _ (by simp)
      exact ((hvalue.covers.concat semi (by rw [hsemi]; rfl)).cons t (by rw [ht]; rfl)).cons name
        (by rw [hname]; rfl)
  | .print t semi ht hsemi hvalue =>
      (hvalue.covers.concat semi (by rw [hsemi]; rfl)).cons t (by rw [ht]; rfl)
  | .branch t close semi ht hclose hsemi hcondition hbody => by
      have hblock := hbody.covers.closed close semi hclose hsemi
      exact (hcondition.covers.append hblock).cons t (by rw [ht]; rfl)
  | .choice t middle close semi ht hmiddle hclose hsemi hcondition hbody hother => by
      have hblock := hother.covers.closed close semi hclose hsemi
      have hsecond := hblock.cons middle (by rw [hmiddle]; rfl)
      exact (hcondition.covers.append (hbody.covers.append hsecond)).cons t (by rw [ht]; rfl)
  | .loop t close semi ht hclose hsemi hcondition hbody => by
      have hblock := hbody.covers.closed close semi hclose hsemi
      exact (hcondition.covers.append hblock).cons t (by rw [ht]; rfl)

theorem DerivesAll.covers {ts : List Token} {ss : List Statement} :
    DerivesAll ts ss → Covers ts (mentionsAll ss)
  | .nil => Covers.nil
  | .cons first rest => first.covers.append rest.covers

end

/-- The tokens decide the events, whatever tree is derived from them. -/
theorem DerivesAll.events_eq {ts : List Token} {ss ss' : List Statement} (h : DerivesAll ts ss)
    (h' : DerivesAll ts ss') : events ss = events ss' := by
  have hread := @Grammar.block_of_derivesAll .start ss ts h (max (depthAll ss) (depthAll ss'))
    (Nat.le_max_left _ _)
  rw [Grammar.block_of_derivesAll h' _ (Nat.le_max_right _ _)] at hread
  exact (congrArg Reading.events hread).symm

end Statement

/-- The tokens of a text derive a program if those before its end derive statements. -/
theorem derivesProgram_toList_iff (s : TokenStream) (ss : List Statement) :
    DerivesProgram s.toList ss ↔ Statement.DerivesAll s.tokens ss := by
  constructor
  · rintro ⟨ts, eof, htokens, -, hss⟩
    obtain ⟨rfl, -⟩ := List.append_inj' htokens rfl
    exact hss
  · exact fun hss => ⟨s.tokens, s.eof, rfl, rfl, hss⟩

end Tree

open StackLang.Tree

namespace Reading

theorem outcome_of_compile {r : Reading Unit} {p : Program} (h : r.compile = .ok p) :
    r.outcome = .ok () := by
  rw [compile] at h
  split at h
  · simp at h
  · split at h
    · simp at h
    · assumption

/-- A program that a reading compiles to is what its events leave. -/
theorem finish_of_compile {r : Reading Unit} {p : Program} (h : r.compile = .ok p) :
    (r.events.foldl Draft.absorb Draft.empty).finish = .ok p := by
  rw [compile] at h
  split at h
  · cases h
  · next d hd =>
    rw [Draft.foldl_absorb_of_applyAll _ _ _ hd]
    split at h
    · cases h
    · cases hfinish : d.finish with
      | error cause => simp [hfinish, Except.mapError] at h
      | ok q => simpa [hfinish, Except.mapError] using h

/-- What the events of a tree compile to. The store has to admit what the tree mentions.
-/
theorem compile_events_iff (ss : List Statement) (p : Program) :
    (⟨Statement.events ss, .ok ()⟩ : Reading Unit).compile = .ok p ↔
      ∃ τ, (Statement.mentionsAll ss).foldlM Store.admit? Store.empty = some τ ∧
        p = ⟨Chain.empty.append (Nest.codeAll τ 0 (Statement.nestsAll ss)), τ⟩ := by
  have hlays := Nest.laysAll (Statement.nestsAll ss) Draft.empty Draft.settled_empty
  have hstore : Draft.empty.store.afterAll? (Nest.plainsAll (Statement.nestsAll ss)) =
      (Statement.mentionsAll ss).foldlM Store.admit? Store.empty :=
    Statement.afterAll?_plains Store.empty ss
  rw [compile, Statement.events]
  cases hτ : (Statement.mentionsAll ss).foldlM Store.admit? Store.empty with
  | none =>
      obtain ⟨cause, hcause, -⟩ := hlays.refuses (hstore.trans hτ)
      simp [hcause]
  | some τ =>
      rw [hlays.takes τ (hstore.trans hτ) τ (Store.Within.refl τ)]
      simp only [Option.some.injEq, exists_eq_left']
      exact ⟨fun h => (Except.ok.inj h).symm, fun h => h ▸ rfl⟩

end Reading

namespace Grammar

theorem readSource_of_derivesAll (source : String) (ss : List Statement)
    (hss : Statement.DerivesAll (TokenStream.ofSource source).significant.tokens ss)
    (hdepth : Statement.depthAll ss ≤ maxLevel) :
    readSource source = ⟨Statement.events ss, .ok ()⟩ := by
  rw [readSource, TokenStream.eq_ofTokens (TokenStream.ofSource source).significant]
  exact program_of_derivesAll hss hdepth

/-- A text that is read to its end has a tree, and the events are those of the tree. -/
theorem exists_tree_of_readSource (source : String) (h : (readSource source).outcome = .ok ()) :
    ∃ ss, Statement.DerivesAll (TokenStream.ofSource source).significant.tokens ss ∧
      Statement.depthAll ss ≤ maxLevel ∧ readSource source = ⟨Statement.events ss, .ok ()⟩ := by
  have hread := satisfies_program (TokenStream.ofSource source).significant
  rw [← readSource, Reading.Satisfies, h] at hread
  obtain ⟨ts, ss, rest, hsplits, heof, hss, hevents, hdepth⟩ := hread
  -- Only the end of the text counts as the end, so nothing is left behind the statements.
  have hrest : rest.tokens = [] := by
    cases htokens : rest.tokens with
    | nil => rfl
    | cons t more =>
        have hmem : t ∈ (TokenStream.ofSource source).significant.tokens := by
          rw [hsplits.1, htokens]
          exact List.mem_append_right ts List.mem_cons_self
        have hhead : rest.head = t := by rw [TokenStream.head, htokens]; rfl
        rw [hhead] at heof
        exact absurd heof (TokenStream.kind_ne_eof source t
          (TokenStream.mem_tokens_of_mem_significant _ t hmem))
  have htokens : (TokenStream.ofSource source).significant.tokens = ts := by
    rw [hsplits.1, hrest, List.append_nil]
  exact ⟨ss, htokens ▸ hss, hdepth, readSource_of_derivesAll source ss (htokens ▸ hss) hdepth⟩

end Grammar

namespace Program

/-- The program of a text is that of any tree of its tokens. -/
theorem ofSource_of_derivesAll (source : String) (p : Program) (h : ofSource source = .ok p)
    (ss : List Statement)
    (hss : Statement.DerivesAll (TokenStream.ofSource source).significant.tokens ss) :
    ∃ τ, (Statement.mentionsAll ss).foldlM Store.admit? Store.empty = some τ ∧
      p = ⟨Chain.empty.append (Nest.codeAll τ 0 (Statement.nestsAll ss)), τ⟩ := by
  obtain ⟨ss', hss', -, hread⟩ :=
    Grammar.exists_tree_of_readSource source (Reading.outcome_of_compile h)
  rw [ofSource, hread, hss'.events_eq hss] at h
  exact (Reading.compile_events_iff ss p).mp h

theorem isNumeral_of_derivesAll (source : String) (ss : List Statement)
    (hss : Statement.DerivesAll (TokenStream.ofSource source).significant.tokens ss)
    (text : String) (htext : .numeral text ∈ Statement.mentionsAll ss) :
    Decimal.IsNumeral text := by
  obtain ⟨t, ht, hkind, rfl⟩ := hss.covers.literal text htext
  exact TokenStream.isNumeral_of_intLiteral source t
    (TokenStream.mem_tokens_of_mem_significant _ t ht) hkind

theorem readable_iff (source : String) (ss : List Statement)
    (hss : Statement.DerivesAll (TokenStream.ofSource source).significant.tokens ss)
    (text : String) (htext : .numeral text ∈ Statement.mentionsAll ss) :
    Decimal.readInt64? text.toList ≠ none ↔ Decimal.value text.toList ≤ 2 ^ 63 - 1 := by
  rw [Decimal.readInt64?_of_isNumeral (isNumeral_of_derivesAll source ss hss text htext)]
  simp

/-- A text is a program if and only if its tokens are valid and derive statements whose
names are declared once and before they are used, whose literals are in the range of the
integers, and which are nested at most 256 levels deep. -/
theorem accepted_iff (source : String) :
    (∃ p, ofSource source = .ok p) ↔
      (∀ t ∈ (TokenStream.ofSource source).tokens, t.kind.isError = false) ∧
        ∃ ss, DerivesProgram (TokenStream.ofSource source).significant.toList ss ∧
          Scoped (Statement.mentionsAll ss) ∧
          (∀ text, .numeral text ∈ Statement.mentionsAll ss →
            Decimal.value text.toList ≤ 2 ^ 63 - 1) ∧
          Statement.depthAll ss ≤ 256 := by
  constructor
  · rintro ⟨p, hp⟩
    obtain ⟨ss, hss, hdepth, -⟩ :=
      Grammar.exists_tree_of_readSource source (Reading.outcome_of_compile hp)
    obtain ⟨τ, hτ, -⟩ := ofSource_of_derivesAll source p hp ss hss
    obtain ⟨hscoped, hrange⟩ := (Store.foldlM_admit?_empty_iff _).mp ⟨τ, hτ⟩
    refine ⟨?_, ss, (derivesProgram_toList_iff _ ss).mpr hss, hscoped, ?_, hdepth⟩
    · intro t ht
      by_cases htrivia : t.kind.isTrivia = true
      · exact t.kind.isError_of_isTrivia htrivia
      · exact hss.covers.valid t (List.mem_filter.mpr ⟨ht, by simpa using htrivia⟩)
    · exact fun text htext => (readable_iff source ss hss text htext).mp (hrange text htext)
  · rintro ⟨-, ss, hderives, hscoped, hrange, hdepth⟩
    have hss := (derivesProgram_toList_iff _ ss).mp hderives
    obtain ⟨τ, hτ⟩ := (Store.foldlM_admit?_empty_iff (Statement.mentionsAll ss)).mpr
      ⟨hscoped, fun text htext =>
        (readable_iff source ss hss text htext).mpr (hrange text htext)⟩
    refine ⟨⟨Chain.empty.append (Nest.codeAll τ 0 (Statement.nestsAll ss)), τ⟩, ?_⟩
    rw [ofSource, Grammar.readSource_of_derivesAll source ss hss hdepth]
    exact (Reading.compile_events_iff ss _).mpr ⟨τ, hτ, rfl⟩

end Program

end StackLang
