import StackLang.Proofs.Agreement
import StackLang.Proofs.Machine.Frame
import StackLang.Proofs.Tree.Kinds

/-!
# Kinds foretell runs

A run of a program keeps every variable within its declared kind, at every time. So
wherever it goes through the code of an expression, also in a run that ends with a fault or
never, what it leaves on the stack is a value of the kind that the expression has by its
declarations. An expression without a kind stops the run before its code comes to an end.
-/

namespace StackLang

open StackLang.Tree

namespace Tree

/-- The expressions inside an expression, itself included, with the indices that their code
starts at if its own starts at `base`. -/
def Expression.places (base : Nat) (e : Expression) : List (Nat × Expression) :=
  (base, e) ::
    match e with
    | .read _ | .integer _ | .string _ => []
    | .group inner => inner.places base
    | .unary _ operand => operand.places base
    | .binary _ left right => left.places base ++ right.places (base + left.plains.length)

namespace Statement

mutual

/-- The expressions of a statement, with the indices that their code starts at if its own
starts at `base`. -/
def places (base : Nat) : Statement → List (Nat × Expression)
  | .declare _ _ => []
  | .assign _ _ value => value.places (base + 1)
  | .print _ value => value.places base
  | .branch _ condition body _ =>
    condition.places base ++ placesAll (base + condition.plains.length + 1) body
  | .choice _ condition body _ other _ =>
    condition.places base ++
      (placesAll (base + condition.plains.length + 1) body ++
        placesAll (base + condition.plains.length + 1 + Nest.sizeAll (nestsAll body) + 2) other)
  | .loop _ condition body _ =>
    condition.places (base + 1) ++ placesAll (base + 1 + condition.plains.length + 1) body

def placesAll (base : Nat) : List Statement → List (Nat × Expression)
  | [] => []
  | t :: ts => t.places base ++ placesAll (base + Nest.sizeAll t.nests) ts

end

end Statement

end Tree

namespace Program

/-- The code of the expression lies at the index, and all that it mentions is known. -/
structure Holds (p : Program) (place : Nat × Expression) : Prop where
  placed : p.code.Placed place.1 (place.2.plains.map (Plain.instruction p.store))
  serves : p.store.Serves place.2.mentions

section Places

variable {p : Program}

theorem holds_places (e : Expression) : ∀ base : Nat, p.Holds (base, e) →
    ∀ place ∈ e.places base, p.Holds place := by
  induction e with
  | read | integer | string =>
      intro base h place hplace
      obtain rfl := List.mem_singleton.mp hplace
      exact h
  | group inner ih =>
      intro base h place hplace
      rcases List.mem_cons.mp hplace with rfl | hinner
      · exact h
      · exact ih base ⟨h.placed, h.serves⟩ place hinner
  | unary op operand ih =>
      intro base h place hplace
      rcases List.mem_cons.mp hplace with rfl | hinner
      · exact h
      · obtain ⟨hoperand, -⟩ := Expression.placed_unary h.placed
        exact ih base ⟨hoperand, h.serves⟩ place hinner
  | binary op left right ihl ihr =>
      intro base h place hplace
      rcases List.mem_cons.mp hplace with rfl | hinner
      · exact h
      · obtain ⟨hleft, hright, -⟩ := Expression.placed_binary h.placed
        rcases List.mem_append.mp hinner with hl | hr
        · exact ihl base ⟨hleft, h.serves.left⟩ place hl
        · exact ihr _ ⟨hright, h.serves.right⟩ place hr

mutual

theorem holds_of_mem_places : ∀ (t : Statement) (base : Nat),
    t.PlacedAt p.code p.store base → p.store.Serves t.mentions →
    ∀ place ∈ t.places base, p.Holds place
  | .declare kind name, base, _, _, place, hplace => by cases hplace
  | .assign name pos value, base, hcode, hserves, place, hplace => by
      obtain ⟨-, hvalue, -⟩ := Statement.placed_assign hcode
      exact holds_places value _ ⟨hvalue, hserves.tail⟩ place hplace
  | .print pos value, base, hcode, hserves, place, hplace => by
      obtain ⟨hvalue, -⟩ := Statement.placed_print hcode
      exact holds_places value _ ⟨hvalue, hserves⟩ place hplace
  | .branch pos condition body close, base, hcode, hserves, place, hplace => by
      obtain ⟨hcondition, -, hbody, -⟩ := Statement.placed_branch hcode
      rcases List.mem_append.mp hplace with htest | hinner
      · exact holds_places condition _ ⟨hcondition, hserves.left⟩ place htest
      · exact holds_of_mem_placesAll body _ hbody hserves.right place hinner
  | .choice pos condition body middle other close, base, hcode, hserves, place, hplace => by
      obtain ⟨hcondition, -, hbody, -, -, hother, -⟩ := Statement.placed_choice hcode
      rcases List.mem_append.mp hplace with htest | hinner
      · exact holds_places condition _ ⟨hcondition, hserves.left⟩ place htest
      · rcases List.mem_append.mp hinner with hfirst | hsecond
        · exact holds_of_mem_placesAll body _ hbody hserves.right.left place hfirst
        · exact holds_of_mem_placesAll other _ hother hserves.right.right place hsecond
  | .loop pos condition body close, base, hcode, hserves, place, hplace => by
      obtain ⟨-, hcondition, -, hbody, -⟩ := Statement.placed_loop hcode
      rcases List.mem_append.mp hplace with htest | hinner
      · exact holds_places condition _ ⟨hcondition, hserves.left⟩ place htest
      · exact holds_of_mem_placesAll body _ hbody hserves.right place hinner

theorem holds_of_mem_placesAll : ∀ (ts : List Statement) (base : Nat),
    Statement.PlacedAllAt p.code p.store base ts → p.store.Serves (Statement.mentionsAll ts) →
    ∀ place ∈ Statement.placesAll base ts, p.Holds place
  | [], _, _, _, place, hplace => by cases hplace
  | t :: ts, base, hcode, hserves, place, hplace => by
      obtain ⟨hhead, hrest⟩ := Statement.placed_cons hcode
      rcases List.mem_append.mp hplace with hfirst | hlater
      · exact holds_of_mem_places t base hhead hserves.left place hfirst
      · exact holds_of_mem_placesAll ts _ hrest hserves.right place hlater

end

end Places

section Kinds

variable {p : Program} {ss : List Statement} (h : p.Renders ss)
include h

theorem Renders.kindOf_name {i : Nat} {x : Variable} (hx : p.store.get? i = some x) :
    Statement.kindOf ss x.name = x.kind := by
  have hfind := h.distinct.find?_name hx
  rw [h.kinds x.name (by simp [hfind]), Store.kindOf, Store.indexOf, hfind]
  simp [hx]

/-- Names that are no variables can be given values of their kinds, too. -/
theorem Renders.exists_kinded (ρ : String → Value)
    (hρ : ∀ i x, p.store.get? i = some x → (ρ x.name).kind = x.kind.toKind) :
    ∃ ρ', p.store.holding ρ = p.store.holding ρ' ∧ Kinded (Statement.kindOf ss) ρ' := by
  let kind (name : String) : Kind := (Statement.kindOf ss name).toKind
  refine ⟨fun name => if (ρ name).kind = kind name then ρ name else Value.default (kind name), ?_, ?_⟩
  · apply Store.ext_get?
    intro i
    rw [Store.get?_holding, Store.get?_holding]
    cases hx : p.store.get? i with
    | none => rfl
    | some x =>
        have hkind : (ρ x.name).kind = kind x.name := by
          rw [hρ i x hx, ← h.kindOf_name hx]
        simp [hkind]
  · intro name
    dsimp only
    split
    · assumption
    · exact Value.kind_default _

/-- At every time, the variables are within their kinds. -/
theorem Renders.kinded_run (ρ : String → Value)
    (hρ : ∀ i x, p.store.get? i = some x → (ρ x.name).kind = x.kind.toKind) (limit : Option Nat)
    (n : Nat) :
    ∃ ρ', ((Machine.start (p.store.holding ρ) limit).run p n).store = p.store.holding ρ' ∧
      Kinded (Statement.kindOf ss) ρ' := by
  obtain ⟨ρ₁, hstore, hvalues⟩ :=
    (Machine.revises_run p (Machine.start (p.store.holding ρ) limit) n).exists_holding h.distinct
  have hρ₁ (i : Nat) (x : Variable) (hx : p.store.get? i = some x) :
      (ρ₁ x.name).kind = x.kind.toKind := by
    rcases hvalues i x hx with hsame | hkind
    · rw [hsame, hρ i x hx]
    · exact hkind
  obtain ⟨ρ', hρ', hkinded⟩ := h.exists_kinded ρ₁ hρ₁
  exact ⟨ρ', hstore.trans hρ', hkinded⟩

end Kinds

end Program

namespace Machine

/-- Going through the code of an expression ends with a fault, or with a value of the kind
of the expression on the stack and everything else as it was. -/
def Evaluates (p : Program) (kinds : String → VariableKind) (place : Nat × Expression)
    (m : Machine) : Prop :=
  (m.run p place.2.plains.length).fault ≠ none ∨
    ∃ v, place.2.kind? kinds = some v.kind ∧
      m.run p place.2.plains.length =
        { m with counter := place.1 + place.2.plains.length, stack := .value v :: m.stack }

theorem evaluates_of_holds {p : Program} {kinds : String → VariableKind} {place : Nat × Expression}
    (hplace : p.Holds place) (m : Machine) (hfault : m.fault = none)
    (hcounter : m.counter = place.1) (ρ : String → Value) (hstore : m.store = p.store.holding ρ)
    (hρ : Kinded kinds ρ) : Evaluates p kinds place m := by
  have hpoised : m = poised p place.1 m.stack ⟨ρ, m.sink⟩ := by
    rcases m with ⟨counter, stack, store, sink, fault⟩
    subst hfault hcounter hstore
    rfl
  have hyields := yields_eval place.2 place.1 m.stack ⟨ρ, m.sink⟩ hplace.placed hplace.serves
  rw [← hpoised] at hyields
  have hkind := place.2.foretells_eval hρ
  cases heval : place.2.eval ρ with
  | error f =>
      rw [show place.2.eval (⟨ρ, m.sink⟩ : State).values = _ from heval] at hyields
      obtain ⟨c, stack, hrun⟩ := hyields
      exact .inl (by simp [hrun, stopped])
  | ok v =>
      rw [show place.2.eval (⟨ρ, m.sink⟩ : State).values = _ from heval] at hyields
      rw [heval] at hkind
      refine .inr ⟨v, hkind, ?_⟩
      rw [show m.run p _ = _ from hyields]
      simp only [poised, hfault, hstore]

end Machine

namespace Program

/-- The kinds of the expressions of `ss` foretell the run of the program from `m`. -/
structure Foretold (p : Program) (ss : List Statement) (m : Machine) : Prop where
  placed : ∀ place ∈ Statement.placesAll 0 ss,
    p.code.Placed place.1 (place.2.plains.map (Plain.instruction p.store))
  /-- Where the code of an expression has been executed to its end, it has pushed a value of
  the kind of the expression. -/
  valued : ∀ place ∈ Statement.placesAll 0 ss, ∀ n, (m.run p n).fault = none →
    (m.run p n).counter = place.1 → (m.run p (n + place.2.plains.length)).fault = none →
    ∃ v, place.2.kind? (Statement.kindOf ss) = some v.kind ∧
      m.run p (n + place.2.plains.length) =
        { m.run p n with
          counter := place.1 + place.2.plains.length
          stack := .value v :: (m.run p n).stack }
  /-- The code of an expression without a kind is never executed to its end. -/
  unvalued : ∀ place ∈ Statement.placesAll 0 ss, place.2.kind? (Statement.kindOf ss) = none →
    ∀ n, (m.run p n).fault = none → (m.run p n).counter = place.1 →
      (m.run p (n + place.2.plains.length)).fault ≠ none
  /-- A program whose kinds fit has no faults but those that kinds cannot rule out. -/
  dynamic : Statement.wellKindedAll (Statement.kindOf ss) ss = true →
    ∀ n f, (m.run p n).fault = some f → f.item = .divisionByZero ∨ f.item = .output

/-- Wherever the variables start with values of their kinds, kinds foretell the run of a
program that comes from a text. -/
theorem foretold_of_ofSource (source : String) (p : Program) (h : ofSource source = .ok p) :
    (∃ ss, DerivesProgram (TokenStream.ofSource source).significant.toList ss) ∧
      ∀ ss, DerivesProgram (TokenStream.ofSource source).significant.toList ss →
        ∀ ρ, (∀ i x, p.store.get? i = some x → (ρ x.name).kind = x.kind.toKind) →
          ∀ limit, p.Foretold ss (Machine.start (p.store.holding ρ) limit) := by
  refine ⟨?_, ?_⟩
  · obtain ⟨ss, hss, -⟩ :=
      Grammar.exists_tree_of_readSource source (Reading.outcome_of_compile h)
    exact ⟨ss, (derivesProgram_toList_iff _ ss).mpr hss⟩
  intro ss hderives ρ hρ limit
  have hss := (derivesProgram_toList_iff _ ss).mp hderives
  have hrenders := renders_of_ofSource source p h ss hss
  have hholds := holds_of_mem_placesAll ss 0 hrenders.placed hrenders.serves
  have hevaluates (place : Nat × Expression) (hplace : place ∈ Statement.placesAll 0 ss) (n : Nat)
      (hfault : ((Machine.start (p.store.holding ρ) limit).run p n).fault = none)
      (hcounter : ((Machine.start (p.store.holding ρ) limit).run p n).counter = place.1) :
      Machine.Evaluates p (Statement.kindOf ss) place
        ((Machine.start (p.store.holding ρ) limit).run p n) := by
    obtain ⟨ρ', hstore, hkinded⟩ := hrenders.kinded_run ρ hρ limit n
    exact Machine.evaluates_of_holds (hholds place hplace) _ hfault hcounter ρ' hstore hkinded
  refine ⟨fun place hplace => (hholds place hplace).placed, ?_, ?_, ?_⟩
  · intro place hplace n hfault hcounter hend
    rw [Machine.run_add] at hend ⊢
    exact (hevaluates place hplace n hfault hcounter).resolve_left (not_not.mpr hend)
  · intro place hplace hkind n hfault hcounter
    rw [Machine.run_add]
    rcases hevaluates place hplace n hfault hcounter with hend | ⟨v, hv, -⟩
    · exact hend
    · rw [hkind] at hv
      cases hv
  · intro hwell n f hfault
    obtain ⟨ρ', hholding, hkinded⟩ := hrenders.exists_kinded ρ hρ
    rw [hholding] at hfault
    have hagrees := agrees_of_derivesAll source p h ss hss ρ' limit
    obtain ⟨s', c, stack, hfaults, -⟩ := hagrees.faulted n f hfault
    exact Statement.dynamic_of_faults ss hwell _ hkinded f s' hfaults

def increment : String := "integer x; x := x + 1;"

/-- The tree of `increment`. -/
def incrementTree : List Statement :=
  [.declare .integer ⟨⟨1, 9⟩, "x"⟩,
    .assign ⟨⟨1, 12⟩, "x"⟩ ⟨1, 14⟩
      (.binary ⟨⟨1, 19⟩, .add⟩ (.read ⟨⟨1, 17⟩, "x"⟩) (.integer ⟨⟨1, 21⟩, "1"⟩))]

theorem derives_incrementTree :
    DerivesProgram (TokenStream.ofSource increment).significant.toList incrementTree := by
  let token (kind : TokenKind) (text : String) (column : Nat) : Token := ⟨kind, text, ⟨1, column⟩⟩
  refine ⟨[token (.keyword .integer) "integer" 1, token .identifier "x" 9, token .semicolon ";" 10,
    token .identifier "x" 12, token .assign ":=" 14, token .identifier "x" 17, token .plus "+" 19,
    token .intLiteral "1" 21, token .semicolon ";" 22], token .eof "" 23, by decide +kernel, rfl, ?_⟩
  have hleft : Expression.Derives 3 [token .identifier "x" 17] _ := .tighter (.tighter (.read _ rfl))
  have hright : Expression.Derives 4 [token .intLiteral "1" 21] _ := .tighter (.integer _ rfl)
  have hsum := Expression.Derives.binary .add (token .plus "+" 19) rfl hleft hright
  have hassign := Statement.Derives.assign (token .identifier "x" 12) (token .assign ":=" 14)
    (token .semicolon ";" 22) rfl rfl rfl (.tighter (.tighter (.tighter hsum)))
  exact .cons (.declare .integer (token (.keyword .integer) "integer" 1) (token .identifier "x" 9)
    (token .semicolon ";" 10) rfl rfl rfl) (.cons hassign .nil)

theorem foretold_of_ofSource_increment :
    ∃ p, ofSource increment = .ok p ∧
      DerivesProgram (TokenStream.ofSource increment).significant.toList incrementTree ∧
      Statement.wellKindedAll (Statement.kindOf incrementTree) incrementTree = true ∧
      ∃ ρ, (∀ i x, p.store.get? i = some x → (ρ x.name).kind = x.kind.toKind) ∧
        ∀ limit, p.Foretold incrementTree (Machine.start (p.store.holding ρ) limit) := by
  have hok : (ofSource increment).isOk = true := by decide +kernel
  cases hp : ofSource increment with
  | error e => simp [hp, Except.isOk, Except.toBool] at hok
  | ok p =>
      have hrenders := renders_of_ofSource increment p hp incrementTree
        ((derivesProgram_toList_iff _ _).mp derives_incrementTree)
      let ρ (name : String) : Value := .default (Statement.kindOf incrementTree name).toKind
      have hρ (i : Nat) (x : Variable) (hx : p.store.get? i = some x) :
          (ρ x.name).kind = x.kind.toKind := by
        rw [Value.kind_default, hrenders.kindOf_name hx]
      exact ⟨p, rfl, derives_incrementTree, by decide +kernel, ρ, hρ,
        (foretold_of_ofSource increment p hp).2 _ derives_incrementTree ρ hρ⟩

end Program

end StackLang
