import StackLang.Proofs.Grammar.Likeness

/-!
# Drafts do not look at positions

The same events at related positions make the same draft up to the positions of its
instructions and openings, or are refused for the same reason at related positions. So
readings that are alike become programs that are alike, or fail alike.
-/

namespace StackLang

/-- The same operation at related positions. -/
structure Instruction.Alike (R : Position → Position → Prop) (i j : Instruction) : Prop where
  pos : R i.pos j.pos
  op : i.op = j.op

structure Opening.Alike (R : Position → Position → Prop) (o o' : Opening) : Prop where
  role : o.role = o'.role
  index : o.index = o'.index
  pos : R o.pos o'.pos

structure Draft.Alike (R : Position → Position → Prop) (d d' : Draft) : Prop where
  store : d.store = d'.store
  code : List.Forall₂ (Instruction.Alike R) d.code.toList d'.code.toList
  openings : List.Forall₂ (Opening.Alike R) d.openings d'.openings

/-- The same operations at related positions, and the same variables. -/
structure Program.Alike (R : Position → Position → Prop) (p q : Program) : Prop where
  code : List.Forall₂ (Instruction.Alike R) p.code.toList q.code.toList
  store : p.store = q.store

theorem Chain.toList_modify {α : Type} (c : Chain α) (i : Nat) (f : α → α) :
    (c.modify i f).toList = c.toList.modify i f := by
  simp [Chain.modify, Chain.toList]

theorem forall₂_modify {α : Type} {P : α → α → Prop} {f : α → α}
    (hf : ∀ a b, P a b → P (f a) (f b)) {xs ys : List α} (h : List.Forall₂ P xs ys) (i : Nat) :
    List.Forall₂ P (xs.modify i f) (ys.modify i f) := by
  induction h generalizing i with
  | nil => simp
  | cons hab hrest ih =>
      cases i with
      | zero => simpa using ⟨hf _ _ hab, hrest⟩
      | succ i => simpa using ⟨hab, ih i⟩

variable {R : Position → Position → Prop}

theorem Likewise.mapError {ε δ α β : Type} {E : ε → ε → Prop} {F : δ → δ → Prop}
    {P : α → β → Prop} {x : Except ε α} {y : Except ε β} {f g : ε → δ} (h : Likewise E P x y)
    (hfg : ∀ e e', E e e' → F (f e) (g e')) : Likewise F P (x.mapError f) (y.mapError g) := by
  cases h with
  | ok hab => exact .ok hab
  | error herror => exact .error (hfg _ _ herror)

namespace Draft

section Alike

variable {d d' : Draft} {a b : Position}

theorem Alike.size (h : d.Alike R d') : d.code.size = d'.code.size := h.code.length_eq

theorem Alike.emit (h : d.Alike R d') (hpos : R a b) (op : Operation) :
    (d.emit a op).Alike R (d'.emit b op) where
  store := h.store
  code := by
    simp only [Draft.emit, Chain.toList_push]
    exact List.rel_append h.code (.cons ⟨hpos, rfl⟩ .nil)
  openings := h.openings

theorem Alike.openWith (h : d.Alike R d') (hpos : R a b) (role : Role) (op : Operation) :
    (d.openWith role a op).Alike R (d'.openWith role b op) where
  store := h.store
  code := (h.emit hpos op).code
  openings := .cons ⟨rfl, h.size, hpos⟩ h.openings

theorem Alike.resolve (h : d.Alike R d') (index target : Nat) :
    (d.resolve index target).Alike R (d'.resolve index target) where
  store := h.store
  code := by
    simp only [Draft.resolve, Chain.toList_modify]
    refine forall₂_modify (fun i j hij => ⟨hij.pos, ?_⟩) h.code index
    rw [Instruction.resolve, Instruction.resolve, hij.op]
  openings := h.openings

theorem Alike.declare (h : d.Alike R d') (hpos : R a b) (kind : VariableKind) (name : String) :
    Likewise Eq (Draft.Alike R) (d.declare a kind name) (d'.declare b kind name) := by
  rw [Draft.declare, Draft.declare, h.store]
  cases d'.store.declare name kind with
  | error x => exact .error rfl
  | ok x =>
      have hstore : { d with store := x.2 }.Alike R { d' with store := x.2 } :=
        ⟨rfl, h.code, h.openings⟩
      exact .ok (hstore.emit hpos _)

theorem Alike.lookup (h : d.Alike R d') (name : String) : d.lookup name = d'.lookup name := by
  rw [Draft.lookup, Draft.lookup, h.store]

/-- A name that is looked up and an operation with what is found. -/
theorem Alike.named (h : d.Alike R d') (hpos : R a b) (name : String)
    (op : Nat × Variable → Operation) :
    Likewise Eq (Draft.Alike R) ((d.lookup name).map fun x => d.emit a (op x))
      ((d'.lookup name).map fun x => d'.emit b (op x)) := by
  rw [h.lookup name]
  cases d'.lookup name with
  | error e => exact .error rfl
  | ok x => exact .ok (h.emit hpos _)

theorem Alike.withOpenings (h : d.Alike R d') {outer outer' : List Opening}
    (houter : List.Forall₂ (Opening.Alike R) outer outer') :
    { d with openings := outer }.Alike R { d' with openings := outer' } :=
  ⟨h.store, h.code, houter⟩

/-- A second branch behind the jump at `index`. -/
theorem Alike.divided (h : d.Alike R d') (hpos : R a b) {outer outer' : List Opening}
    (houter : List.Forall₂ (Opening.Alike R) outer outer') (index : Nat) :
    ((({ d with openings := outer }.openWith .skip a (.jump none)).emit a .otherwise).resolve index
      (d.code.size + 1)).Alike R
      ((({ d' with openings := outer' }.openWith .skip b (.jump none)).emit b .otherwise).resolve
        index (d'.code.size + 1)) := by
  rw [← h.size]
  exact (((h.withOpenings houter).openWith hpos .skip (.jump none)).emit hpos .otherwise).resolve index _

/-- The end of a construct that is no loop. -/
theorem Alike.ended (h : d.Alike R d') (hpos : R a b) {outer outer' : List Opening}
    (houter : List.Forall₂ (Opening.Alike R) outer outer') (index : Nat) :
    (({ d with openings := outer }.emit a .close).resolve index d.code.size).Alike R
      (({ d' with openings := outer' }.emit b .close).resolve index d'.code.size) := by
  rw [← h.size]
  exact ((h.withOpenings houter).emit hpos .close).resolve index _

/-- The end of a loop with its head at `head`. -/
theorem Alike.looped (h : d.Alike R d') (hpos : R a b) {outer outer' : List Opening}
    (houter : List.Forall₂ (Opening.Alike R) outer outer') (index head : Nat) :
    ((({ d with openings := outer }.emit a (.jump (some head))).emit a .close).resolve index
      (d.code.size + 1)).Alike R
      ((({ d' with openings := outer' }.emit b (.jump (some head))).emit b .close).resolve index
        (d'.code.size + 1)) := by
  rw [← h.size]
  exact (((h.withOpenings houter).emit hpos (.jump (some head))).emit hpos .close).resolve index _

theorem Alike.otherwise (h : d.Alike R d') (hpos : R a b) :
    Likewise Eq (Draft.Alike R) (d.otherwise a) (d'.otherwise b) := by
  rcases d with ⟨store, code, openings⟩
  rcases d' with ⟨store', code', openings'⟩
  have hopenings : List.Forall₂ (Opening.Alike R) openings openings' := h.openings
  cases hopenings with
  | nil => exact .error rfl
  | @cons o o' outer outer' ho houter =>
      rcases o with ⟨role, index, c⟩
      rcases o' with ⟨role', index', c'⟩
      obtain rfl : role = role' := ho.role
      obtain rfl : index = index' := ho.index
      cases role with
      | branch => exact .ok (h.divided hpos houter index)
      | skip => exact .error rfl
      | loop => exact .error rfl

theorem Alike.close (h : d.Alike R d') (hpos : R a b) :
    Likewise Eq (Draft.Alike R) (d.close a) (d'.close b) := by
  rcases d with ⟨store, code, openings⟩
  rcases d' with ⟨store', code', openings'⟩
  have hopenings : List.Forall₂ (Opening.Alike R) openings openings' := h.openings
  cases hopenings with
  | nil => exact .error rfl
  | @cons inner inner' outer outer' hinner houter =>
      rcases inner with ⟨role, index, c⟩
      rcases inner' with ⟨role', index', c'⟩
      obtain rfl : index = index' := hinner.index
      cases houter with
      | nil => exact .ok (h.ended hpos .nil index)
      | @cons o o' outer outer' ho houter =>
          rcases o with ⟨kind, head, e⟩
          rcases o' with ⟨kind', head', e'⟩
          obtain rfl : kind = kind' := ho.role
          obtain rfl : head = head' := ho.index
          cases kind with
          | loop => exact .ok (h.looped hpos houter index head)
          | branch | skip => exact .ok (h.ended hpos (.cons ho houter) index)

theorem Alike.take (h : d.Alike R d') (hpos : R a b) (e : Event) :
    Likewise Eq (Draft.Alike R) (d.take a e) (d'.take b e) := by
  cases e with
  | declare kind name => exact h.declare hpos kind name
  | target name => exact h.named hpos name fun x => .target x.1
  | read name => exact h.named hpos name fun x => .read x.2.kind x.1
  | integer text =>
      simp only [Draft.take, Draft.integer]
      cases Decimal.readInt64? text.toList with
      | none => exact .error rfl
      | some n => exact .ok (h.emit hpos _)
  | string text => exact .ok (h.emit hpos _)
  | operator spelling =>
      simp only [Draft.take, Draft.operator]
      cases Operator.ofSymbol? spelling with
      | none => exact .error rfl
      | some op => exact .ok (h.emit hpos _)
  | assign | print => exact .ok (h.emit hpos _)
  | branch | loop => exact .ok (h.openWith hpos _ _)
  | otherwise => exact h.otherwise hpos
  | close => exact h.close hpos

theorem Alike.apply (h : d.Alike R d') {e e' : Located Event} (he : e.Alike R e') :
    Likewise (Located.Alike R) (Draft.Alike R) (d.apply e) (d'.apply e') := by
  rw [Draft.apply, Draft.apply, he.item]
  exact (h.take he.pos e'.item).mapError fun _ _ hcause => ⟨he.pos, hcause⟩

theorem Alike.applyAll {es es' : List (Located Event)}
    (hes : List.Forall₂ (Located.Alike R) es es') (h : d.Alike R d') :
    Likewise (Located.Alike R) (Draft.Alike R) (d.applyAll es) (d'.applyAll es') := by
  induction hes generalizing d d' with
  | nil => exact .ok h
  | @cons e e' es es' he hes ih =>
      have happly := h.apply he
      rw [Draft.applyAll, Draft.applyAll]
      generalize d.apply e = x at happly
      generalize d'.apply e' = y at happly
      cases happly with
      | error hcause => exact .error hcause
      | ok hd => exact ih hd

theorem Alike.finish (h : d.Alike R d') :
    Likewise (Located.Alike R) (Program.Alike R) d.finish d'.finish := by
  rcases d with ⟨store, code, openings⟩
  rcases d' with ⟨store', code', openings'⟩
  have hopenings : List.Forall₂ (Opening.Alike R) openings openings' := h.openings
  cases hopenings with
  | nil => exact .ok ⟨h.code, h.store⟩
  | @cons inner inner' outer outer' hinner houter =>
      rcases inner with ⟨role, index, c⟩
      rcases inner' with ⟨role', index', c'⟩
      obtain rfl : role = role' := hinner.role
      have hpos : R c c' := hinner.pos
      cases role with
      | skip | loop => exact .error ⟨hpos, rfl⟩
      | branch =>
          -- The head of the loop is to blame if there is one right outside.
          cases houter with
          | nil => exact .error ⟨hpos, rfl⟩
          | @cons o o' outer outer' ho houter =>
              rcases o with ⟨kind, head, e⟩
              rcases o' with ⟨kind', head', e'⟩
              obtain rfl : kind = kind' := ho.role
              cases kind with
              | loop => exact .error ⟨ho.pos, rfl⟩
              | branch | skip => exact .error ⟨hpos, rfl⟩

end Alike

end Draft

/-- Readings that are alike become programs that are alike, or fail alike. -/
theorem Reading.Alike.compile {x y : Reading Unit} (h : x.Alike R Eq y) :
    Likewise (Located.Alike R) (Program.Alike R) x.compile y.compile := by
  have hempty : Draft.empty.Alike R Draft.empty := ⟨rfl, .nil, .nil⟩
  have hdraft := hempty.applyAll h.events
  have houtcome := h.outcome
  rw [Reading.compile, Reading.compile]
  generalize Draft.empty.applyAll x.events = d at hdraft
  generalize Draft.empty.applyAll y.events = d' at hdraft
  generalize x.outcome = r at houtcome
  generalize y.outcome = r' at houtcome
  cases hdraft with
  | error hcause => exact .error ⟨hcause.pos, congrArg Fault.draft hcause.item⟩
  | ok hd =>
      cases houtcome with
      | error hfault => exact .error hfault
      | ok _ =>
          exact hd.finish.mapError fun _ _ hcause => ⟨hcause.pos, congrArg Fault.draft hcause.item⟩

end StackLang
