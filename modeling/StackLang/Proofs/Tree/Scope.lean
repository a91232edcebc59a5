import Mathlib.Algebra.Order.Group.Nat
import StackLang.Proofs.Decimal
import StackLang.Proofs.Tree.Meaning

/-!
# Names and numerals of trees

Whether a draft takes the plain events of a tree depends on the mentions of the tree
alone: a name has to be declared before it is used and must not be declared twice, and a
numeral has to denote a 64-bit integer. `admit?` is what one mention does to a store.
Going through all mentions succeeds exactly if the tree is `Scoped` and its numerals can
be read, and it leaves the declared variables in the order of the text.
-/

namespace StackLang

namespace Tree

/-- Some declaration among the mentions is of the name. -/
def Declared (name : String) (ms : List Mention) : Prop := ∃ kind, .declares kind name ∈ ms

/-- Every name is declared before it is used, and none is declared twice. -/
structure Scoped (ms : List Mention) : Prop where
  declared : ∀ before name after, ms = before ++ .uses name :: after → Declared name before
  once : ∀ before kind name after, ms = before ++ .declares kind name :: after →
    ¬ Declared name before

end Tree

open StackLang.Tree

/-- What an event says about names and numerals. -/
def Event.mention? : Event → Option Mention
  | .declare kind name => some (.declares kind name)
  | .target name => some (.uses name)
  | .read name => some (.uses name)
  | .integer text => some (.numeral text)
  | _ => none

/-- The spelling of an operator event is that of an operator. -/
def Event.Known : Event → Prop
  | .operator spelling => Operator.ofSymbol? spelling ≠ none
  | _ => True

/-- A known operator is not refused. -/
theorem Plain.Refused.ne_unknownOperator {e : Plain} {cause : DraftError} (h : e.Refused cause)
    (hknown : e.event.Known) (symbol : String) : cause ≠ .unknownOperator symbol := by
  rintro rfl
  obtain ⟨⟨σ, hσ⟩, hrefusal⟩ := h
  cases hevent : e.event with
  | operator spelling =>
      rw [hevent] at hknown hσ
      exact absurd (by simpa [Store.after?] using hσ) hknown
  | _ => simp [hevent, Event.refusal?] at hrefusal

namespace Store

/-- The store behind a mention; `none` if it has to be refused. -/
def admit? (σ : Store) : Mention → Option Store
  | .declares kind name => if σ.find? name = none then some (σ.add name kind) else none
  | .uses name => if σ.find? name = none then none else some σ
  | .numeral text => if Decimal.readInt64? text.toList = none then none else some σ

theorem after?_eq_admit? (σ : Store) (e : Event) (he : e.Known) :
    σ.after? e = (e.mention?.elim (some σ) σ.admit?) := by
  cases e with
  | operator spelling => exact if_neg he
  | declare | target | read | integer => rfl
  | string | assign | print | branch | otherwise | loop | close => rfl

/-- Plain events are taken like the mentions in them. -/
theorem afterAll?_eq_foldlM (σ : Store) (ps : List Plain) (h : ∀ e ∈ ps, e.event.Known) :
    σ.afterAll? ps = (ps.filterMap fun e => e.event.mention?).foldlM admit? σ := by
  induction ps generalizing σ with
  | nil => rfl
  | cons e ps ih =>
      have he : e.event.Known := h e (by simp)
      have hps : ∀ e ∈ ps, e.event.Known := fun e' he' => h e' (by simp [he'])
      rw [afterAll?_cons, after?_eq_admit? σ e.event he, List.filterMap_cons]
      cases e.event.mention? with
      | none => exact ih σ hps
      | some m =>
          rw [List.foldlM_cons]
          cases hm : σ.admit? m with
          | none => simp [hm]
          | some τ => simpa [hm] using ih τ hps

/-- A mention leaves the store as it is, unless it declares a new name. -/
theorem admit?_cases (σ τ : Store) (m : Mention) (h : σ.admit? m = some τ) :
    (∃ kind name, m = .declares kind name ∧ σ.find? name = none ∧ τ = σ.add name kind) ∨
    (∃ name, m = .uses name ∧ σ.find? name ≠ none ∧ τ = σ) ∨
    (∃ text, m = .numeral text ∧ Decimal.readInt64? text.toList ≠ none ∧ τ = σ) := by
  cases m with
  | declares kind name =>
      simp only [admit?, Option.ite_none_right_eq_some, Option.some.injEq] at h
      exact .inl ⟨kind, name, rfl, h.1, h.2.symm⟩
  | uses name =>
      simp only [admit?, Option.ite_none_left_eq_some, Option.some.injEq] at h
      exact .inr (.inl ⟨name, rfl, h.1, h.2.symm⟩)
  | numeral text =>
      simp only [admit?, Option.ite_none_left_eq_some, Option.some.injEq] at h
      exact .inr (.inr ⟨text, rfl, h.1, h.2.symm⟩)

theorem within_of_admit? (σ τ : Store) (m : Mention) (h : σ.admit? m = some τ) : σ.Within τ := by
  rcases σ.admit?_cases τ m h with ⟨kind, name, -, -, rfl⟩ | ⟨name, -, -, rfl⟩ | ⟨text, -, -, rfl⟩
  · exact Within.add σ name kind
  · exact Within.refl _
  · exact Within.refl _

/-- The names behind a mention are those before it, and the one it declares. -/
theorem find?_of_admit? (σ τ : Store) (m : Mention) (h : σ.admit? m = some τ) (name : String) :
    τ.find? name = none ↔ σ.find? name = none ∧ ¬ Declared name [m] := by
  rcases σ.admit?_cases τ m h with ⟨kind, other, rfl, -, rfl⟩ | ⟨other, rfl, -, rfl⟩ |
    ⟨text, rfl, -, rfl⟩
  · simp [find?_eq_none_iff, not_or, Declared]
  · simp [Declared]
  · simp [Declared]

/-- A mention can stand behind the mentions `before`, where the names of `σ` are declared
already. -/
def Fits (σ : Store) (before : List Mention) : Mention → Prop
  | .declares _ name => σ.find? name = none ∧ ¬ Declared name before
  | .uses name => ¬ (σ.find? name = none ∧ ¬ Declared name before)
  | .numeral text => Decimal.readInt64? text.toList ≠ none

theorem fits_nil_iff (σ : Store) (m : Mention) : σ.Fits [] m ↔ ∃ τ, σ.admit? m = some τ := by
  rw [← Option.ne_none_iff_exists']
  cases m with
  | declares kind name => simp [Fits, admit?, Declared]
  | uses name => simp [Fits, admit?, Declared]
  | numeral text => simp [Fits, admit?]

theorem fits_cons_iff (σ τ : Store) (m : Mention) (h : σ.admit? m = some τ)
    (before : List Mention) (m' : Mention) : σ.Fits (m :: before) m' ↔ τ.Fits before m' := by
  have hdeclared (name : String) :
      Declared name (m :: before) ↔ Declared name [m] ∨ Declared name before := by
    simp [Declared, exists_or]
  cases m' with
  | declares kind name =>
      simp only [Fits, hdeclared, find?_of_admit? σ τ m h, not_or, and_assoc]
  | uses name => simp only [Fits, hdeclared, find?_of_admit? σ τ m h, not_or, and_assoc]
  | numeral text => rfl

/-- All mentions are admitted if each of them fits behind those before it. -/
theorem foldlM_admit?_iff (σ : Store) (ms : List Mention) :
    (∃ τ, ms.foldlM admit? σ = some τ) ↔
      ∀ before m after, ms = before ++ m :: after → σ.Fits before m := by
  induction ms generalizing σ with
  | nil => simp [pure]
  | cons m ms ih =>
      rw [List.foldlM_cons]
      constructor
      · rintro ⟨υ, hυ⟩ before m' after hms
        obtain ⟨τ, hτ, hrest⟩ := Option.bind_eq_some_iff.mp hυ
        rcases before with _ | ⟨first, before⟩
        · obtain ⟨rfl, -⟩ := List.cons.inj hms
          exact (fits_nil_iff σ m).mpr ⟨τ, hτ⟩
        · obtain ⟨rfl, htail⟩ := List.cons.inj hms
          exact (fits_cons_iff σ τ m hτ before m').mpr ((ih τ).mp ⟨υ, hrest⟩ before m' after htail)
      · intro h
        obtain ⟨τ, hτ⟩ := (fits_nil_iff σ m).mp (h [] m ms rfl)
        obtain ⟨υ, hυ⟩ := (ih τ).mpr fun before m' after hms =>
          (fits_cons_iff σ τ m hτ before m').mp (h (m :: before) m' after (by rw [hms]; rfl))
        exact ⟨υ, Option.bind_eq_some_iff.mpr ⟨τ, hτ, hυ⟩⟩

/-- A program without variables yet admits exactly the mentions that are in order. -/
theorem foldlM_admit?_empty_iff (ms : List Mention) :
    (∃ τ, ms.foldlM admit? empty = some τ) ↔
      Scoped ms ∧ ∀ text, .numeral text ∈ ms → Decimal.readInt64? text.toList ≠ none := by
  have hfind (name : String) : empty.find? name = none := by
    rw [find?_eq_none_iff]
    exact List.not_mem_nil
  rw [foldlM_admit?_iff]
  constructor
  · intro h
    refine ⟨⟨?_, ?_⟩, ?_⟩
    · intro before name after hms
      simpa [Fits, hfind] using h before _ after hms
    · intro before kind name after hms
      simpa [Fits, hfind] using h before _ after hms
    · intro text htext
      obtain ⟨before, after, hms⟩ := List.append_of_mem htext
      exact h before _ after hms
  · rintro ⟨hscoped, hnumerals⟩ before m after hms
    cases m with
    | declares kind name => exact ⟨hfind name, hscoped.once before kind name after hms⟩
    | uses name => exact fun hnot => hnot.2 (hscoped.declared before name after hms)
    | numeral text => exact hnumerals text (by simp [hms])

/-- The names and kinds of the variables, in order. -/
def declarations (σ : Store) : List (String × VariableKind) :=
  σ.slots.toList.map fun x => (x.name, x.kind)

theorem declarations_of_foldlM (σ τ : Store) (ms : List Mention)
    (h : ms.foldlM admit? σ = some τ) :
    τ.declarations = σ.declarations ++ ms.filterMap Mention.declaration? := by
  induction ms generalizing σ with
  | nil =>
      obtain rfl := Option.some.inj h
      simp
  | cons m ms ih =>
      rw [List.foldlM_cons] at h
      obtain ⟨υ, hυ, hrest⟩ := Option.bind_eq_some_iff.mp h
      rw [ih υ hrest]
      rcases σ.admit?_cases υ m hυ with ⟨kind, name, rfl, -, rfl⟩ | ⟨name, rfl, -, rfl⟩ |
        ⟨text, rfl, -, rfl⟩
      · simp [declarations, Mention.declaration?]
      · simp [Mention.declaration?, List.filterMap_cons]
      · simp [Mention.declaration?, List.filterMap_cons]

theorem within_of_foldlM (σ τ : Store) (ms : List Mention) (h : ms.foldlM admit? σ = some τ) :
    σ.Within τ := by
  induction ms generalizing σ with
  | nil =>
      obtain rfl := Option.some.inj h
      exact Within.refl _
  | cons m ms ih =>
      rw [List.foldlM_cons] at h
      obtain ⟨υ, hυ, hrest⟩ := Option.bind_eq_some_iff.mp h
      exact (within_of_admit? σ υ m hυ).trans (ih υ hrest)

/-- Every mention that was admitted can be looked up in the store at the end. -/
theorem resolved_of_foldlM (σ τ : Store) (ms : List Mention) (h : ms.foldlM admit? σ = some τ) :
    (∀ name, .uses name ∈ ms → τ.find? name ≠ none) ∧
      ∀ text, .numeral text ∈ ms → Decimal.readInt64? text.toList ≠ none := by
  induction ms generalizing σ with
  | nil => simp
  | cons m ms ih =>
      rw [List.foldlM_cons] at h
      obtain ⟨υ, hυ, hrest⟩ := Option.bind_eq_some_iff.mp h
      obtain ⟨huses, hnumerals⟩ := ih υ hrest
      have hwithin : υ.Within τ := within_of_foldlM υ τ ms hrest
      rcases σ.admit?_cases υ m hυ with ⟨kind, name, rfl, -, rfl⟩ | ⟨name, rfl, hname, rfl⟩ |
        ⟨text, rfl, htext, rfl⟩
      · exact ⟨fun x hx => huses x (by simpa using hx), fun x hx => hnumerals x (by simpa using hx)⟩
      · refine ⟨fun x hx => ?_, fun x hx => hnumerals x (by simpa using hx)⟩
        rcases List.mem_cons.mp hx with heq | hmem
        · obtain rfl := Mention.uses.inj heq
          obtain ⟨i, hi⟩ := Option.ne_none_iff_exists'.mp hname
          simp [hwithin.find? x i hi]
        · exact huses x hmem
      · refine ⟨fun x hx => huses x (by simpa using hx), fun x hx => ?_⟩
        rcases List.mem_cons.mp hx with heq | hmem
        · obtain rfl := Mention.numeral.inj heq
          exact htext
        · exact hnumerals x hmem

/-- The first declaration of a name is where the name is found. -/
theorem lookup_declarations (σ : Store) (name : String) :
    σ.declarations.lookup name = (σ.find? name).bind fun i => (σ.get? i).map Variable.kind := by
  simp only [declarations, find?_eq_findIdx?, get?_eq_getElem?]
  induction σ.slots.toList with
  | nil => rfl
  | cons x xs ih =>
      by_cases hname : x.name = name
      · simp [List.findIdx?_cons, hname]
      · have hne : (name == x.name) = false := by simpa using fun h => hname h.symm
        rw [List.map_cons, List.lookup_cons, hne, List.findIdx?_cons, if_neg (by simpa using hname)]
        simp only [ih, Option.bind_map]
        rfl

end Store

namespace Tree

theorem Expression.mentions_eq (e : Expression) :
    e.mentions = e.plains.filterMap fun p => p.event.mention? := by
  induction e with
  | read name => rfl
  | integer numeral => rfl
  | string text => rfl
  | group inner ih => exact ih
  | unary op operand ih => simp [mentions, plains, ih, Event.mention?]
  | binary op left right ihl ihr =>
      simp [mentions, plains, ihl, ihr, Event.mention?]

theorem Expression.known (e : Expression) : ∀ p ∈ e.plains, p.event.Known := by
  have hsymbol (op : Operator) : (Event.operator op.symbol).Known := by
    simp [Event.Known, Operator.ofSymbol?_symbol]
  induction e with
  | read name => simp [plains, Event.Known]
  | integer numeral => simp [plains, Event.Known]
  | string text => simp [plains, Event.Known]
  | group inner ih => exact ih
  | unary op operand ih =>
      simpa [plains, or_imp, forall_and, hsymbol] using ih
  | binary op left right ihl ihr =>
      simpa [plains, or_imp, forall_and, hsymbol] using ⟨ihl, ihr⟩

namespace Statement

mutual

theorem mentions_eq : ∀ t : Statement,
    t.mentions = (Nest.plainsAll t.nests).filterMap fun p => p.event.mention?
  | .declare _ _ => rfl
  | .assign _ _ value => by
      simp [mentions, nests, Nest.plainsAll, Nest.plains, Nest.plainsAll_append,
        value.mentions_eq, Event.mention?]
  | .print _ value => by
      simp [mentions, nests, Nest.plainsAll, Nest.plains, Nest.plainsAll_append,
        value.mentions_eq, Event.mention?]
  | .branch _ condition body _ => by
      simp [mentions, nests, Nest.plainsAll, Nest.plains, Nest.plainsAll_append,
        condition.mentions_eq, mentionsAll_eq body]
  | .choice _ condition body _ other _ => by
      simp [mentions, nests, Nest.plainsAll, Nest.plains, Nest.plainsAll_append,
        condition.mentions_eq, mentionsAll_eq body, mentionsAll_eq other]
  | .loop _ condition body _ => by
      simp [mentions, nests, Nest.plainsAll, Nest.plains, condition.mentions_eq,
        mentionsAll_eq body]

theorem mentionsAll_eq : ∀ ss : List Statement,
    mentionsAll ss = (Nest.plainsAll (nestsAll ss)).filterMap fun p => p.event.mention?
  | [] => rfl
  | t :: ts => by
      rw [mentionsAll, nestsAll, Nest.plainsAll_append, List.filterMap_append, mentions_eq t,
        mentionsAll_eq ts]

end

mutual

theorem known : ∀ (t : Statement), ∀ p ∈ Nest.plainsAll t.nests, p.event.Known
  | .declare _ _ => by simp [nests, Nest.plainsAll, Nest.plains, Event.Known]
  | .assign _ _ value => by
      have hvalue := value.known
      simpa [nests, Nest.plainsAll, Nest.plains, Nest.plainsAll_append, Event.Known, or_imp,
        forall_and] using hvalue
  | .print _ value => by
      have hvalue := value.known
      simpa [nests, Nest.plainsAll, Nest.plains, Nest.plainsAll_append, Event.Known, or_imp,
        forall_and] using hvalue
  | .branch _ condition body _ => by
      have hbody := knownAll body
      simpa [nests, Nest.plainsAll, Nest.plains, Nest.plainsAll_append, or_imp,
        forall_and] using ⟨condition.known, hbody⟩
  | .choice _ condition body _ other _ => by
      have hbody := knownAll body
      have hother := knownAll other
      simpa [nests, Nest.plainsAll, Nest.plains, Nest.plainsAll_append, or_imp,
        forall_and] using ⟨condition.known, hbody, hother⟩
  | .loop _ condition body _ => by
      have hbody := knownAll body
      simpa [nests, Nest.plainsAll, Nest.plains, or_imp, forall_and] using ⟨condition.known, hbody⟩

theorem knownAll : ∀ (ss : List Statement), ∀ p ∈ Nest.plainsAll (nestsAll ss), p.event.Known
  | [] => by simp [nestsAll, Nest.plainsAll]
  | t :: ts => by
      have ht := known t
      have hts := knownAll ts
      simpa [nestsAll, Nest.plainsAll_append, or_imp, forall_and] using ⟨ht, hts⟩

end

/-- The plain events of statements are taken like their mentions. -/
theorem afterAll?_plains (σ : Store) (ss : List Statement) :
    σ.afterAll? (Nest.plainsAll (nestsAll ss)) = (mentionsAll ss).foldlM Store.admit? σ := by
  rw [σ.afterAll?_eq_foldlM _ (knownAll ss), mentionsAll_eq]

/-- The kind that a program gives to a name is the one that its store has for it. -/
theorem kindOf_eq (ss : List Statement) (τ : Store)
    (h : (mentionsAll ss).foldlM Store.admit? Store.empty = some τ) (name : String)
    (hname : τ.find? name ≠ none) : kindOf ss name = τ.kindOf name := by
  have hdeclarations : τ.declarations = declarations ss :=
    Store.declarations_of_foldlM Store.empty τ _ h
  obtain ⟨i, hi⟩ := Option.ne_none_iff_exists'.mp hname
  rw [kindOf, ← hdeclarations, Store.lookup_declarations, Store.kindOf, Store.indexOf, hi]
  rfl

end Statement

end Tree

end StackLang
