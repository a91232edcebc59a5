import StackLang.Proofs.Chain
import StackLang.Proofs.Draft.Plain

/-!
# Nests

A sequence of events is well nested if it is made of plain events and of control
constructs that open and close in order. A `Nest` is one such piece, so the well-nested
sequences are the events of lists of nests, and the brackets that belong together are
those of one nest.

`code τ base` is what a nest becomes: the instructions for its events, the first of them
at the index `base`, with every jump going where it belongs. The main statement, `lays`,
is that a draft takes the events of nests if its store takes the plain ones among them,
and that it ends with exactly these instructions and the openings it had before. Since
the openings are a list without brackets of their own, the induction has to know that no
loop head lies on top of them where a construct starts (`Settled`).
-/

namespace StackLang

/-- A piece of a well-nested sequence of events: a plain event or a control construct
with all that lies between its brackets. -/
inductive Nest where
  | plain (e : Plain)
  | branch (head : Position) (body : List Nest) (tail : Position)
  | choice (head : Position) (body : List Nest) (middle : Position) (other : List Nest)
      (tail : Position)
  /-- The condition of a loop lies between the head and the conditional exit. -/
  | loop (head : Position) (condition : List Plain) (exit : Position) (body : List Nest)
      (tail : Position)

namespace Nest

mutual

/-- The events of a nest in order. -/
def events : Nest → List (Located Event)
  | .plain e => [e.located]
  | .branch head body tail => ⟨head, .branch⟩ :: (eventsAll body ++ [⟨tail, .close⟩])
  | .choice head body middle other tail =>
    ⟨head, .branch⟩ ::
      (eventsAll body ++ ⟨middle, .otherwise⟩ :: (eventsAll other ++ [⟨tail, .close⟩]))
  | .loop head condition exit body tail =>
    ⟨head, .loop⟩ ::
      (condition.map Plain.located ++ ⟨exit, .branch⟩ :: (eventsAll body ++ [⟨tail, .close⟩]))

def eventsAll : List Nest → List (Located Event)
  | [] => []
  | n :: ns => n.events ++ eventsAll ns

end

mutual

/-- The plain events of a nest in order. -/
def plains : Nest → List Plain
  | .plain e => [e]
  | .branch _ body _ => plainsAll body
  | .choice _ body _ other _ => plainsAll body ++ plainsAll other
  | .loop _ condition _ body _ => condition ++ plainsAll body

def plainsAll : List Nest → List Plain
  | [] => []
  | n :: ns => n.plains ++ plainsAll ns

end

mutual

/-- How many instructions a nest becomes. -/
def size : Nest → Nat
  | .plain _ => 1
  | .branch _ body _ => sizeAll body + 2
  | .choice _ body _ other _ => sizeAll body + sizeAll other + 4
  | .loop _ condition _ body _ => condition.length + sizeAll body + 4

def sizeAll : List Nest → Nat
  | [] => 0
  | n :: ns => n.size + sizeAll ns

end

mutual

/-- The instructions of a nest, the first of them at the index `base`. -/
def code (τ : Store) (base : Nat) : Nest → List Instruction
  | .plain e => [e.instruction τ]
  | .branch head body tail =>
    ⟨head, .branch (some (base + 1 + sizeAll body))⟩ ::
      (codeAll τ (base + 1) body ++ [⟨tail, .close⟩])
  | .choice head body middle other tail =>
    ⟨head, .branch (some (base + 1 + sizeAll body + 1))⟩ ::
      (codeAll τ (base + 1) body ++
        ⟨middle, .jump (some (base + 1 + sizeAll body + 2 + sizeAll other))⟩ ::
          ⟨middle, .otherwise⟩ ::
            (codeAll τ (base + 1 + sizeAll body + 2) other ++ [⟨tail, .close⟩]))
  | .loop head condition exit body tail =>
    ⟨head, .loop none⟩ ::
      (condition.map (Plain.instruction τ) ++
        ⟨exit, .branch (some (base + 1 + condition.length + 1 + sizeAll body + 1))⟩ ::
          (codeAll τ (base + 1 + condition.length + 1) body ++
            [⟨tail, .jump (some base)⟩, ⟨tail, .close⟩]))

def codeAll (τ : Store) (base : Nat) : List Nest → List Instruction
  | [] => []
  | n :: ns => n.code τ base ++ codeAll τ (base + n.size) ns

end

mutual

@[simp] theorem length_code (τ : Store) : ∀ (base : Nat) (n : Nest), (n.code τ base).length = n.size
  | _, .plain _ => rfl
  | base, .branch _ body _ => by
      simp [code, size, length_codeAll τ (base + 1) body]
  | base, .choice _ body _ other _ => by
      simp [code, size, length_codeAll τ (base + 1) body,
        length_codeAll τ (base + 1 + sizeAll body + 2) other]
      omega
  | base, .loop _ condition _ body _ => by
      simp [code, size, length_codeAll τ (base + 1 + condition.length + 1) body]
      omega

@[simp] theorem length_codeAll (τ : Store) :
    ∀ (base : Nat) (ns : List Nest), (codeAll τ base ns).length = sizeAll ns
  | _, [] => rfl
  | base, n :: ns => by
      simp [codeAll, sizeAll, length_code τ base n, length_codeAll τ (base + n.size) ns]

end

theorem eventsAll_append (ns ms : List Nest) :
    eventsAll (ns ++ ms) = eventsAll ns ++ eventsAll ms := by
  induction ns with
  | nil => rfl
  | cons n ns ih => simp [eventsAll, ih]

theorem plainsAll_append (ns ms : List Nest) :
    plainsAll (ns ++ ms) = plainsAll ns ++ plainsAll ms := by
  induction ns with
  | nil => rfl
  | cons n ns ih => simp [plainsAll, ih]

theorem sizeAll_append (ns ms : List Nest) : sizeAll (ns ++ ms) = sizeAll ns + sizeAll ms := by
  induction ns with
  | nil => simp [sizeAll]
  | cons n ns ih =>
      simp [sizeAll, ih]
      omega

theorem codeAll_append (τ : Store) (base : Nat) (ns ms : List Nest) :
    codeAll τ base (ns ++ ms) = codeAll τ base ns ++ codeAll τ (base + sizeAll ns) ms := by
  induction ns generalizing base with
  | nil => simp [codeAll, sizeAll]
  | cons n ns ih => simp [codeAll, sizeAll, ih, Nat.add_assoc]

@[simp] theorem eventsAll_map_plain (es : List Plain) :
    eventsAll (es.map plain) = es.map Plain.located := by
  induction es with
  | nil => rfl
  | cons e es ih => simp [eventsAll, events, ih]

@[simp] theorem plainsAll_map_plain (es : List Plain) : plainsAll (es.map plain) = es := by
  induction es with
  | nil => rfl
  | cons e es ih => simp [plainsAll, plains, ih]

@[simp] theorem sizeAll_map_plain (es : List Plain) : sizeAll (es.map plain) = es.length := by
  induction es with
  | nil => rfl
  | cons e es ih =>
      simp [sizeAll, size, ih]
      omega

@[simp] theorem codeAll_map_plain (τ : Store) (base : Nat) (es : List Plain) :
    codeAll τ base (es.map plain) = es.map (Plain.instruction τ) := by
  induction es generalizing base with
  | nil => rfl
  | cons e es ih => simp [codeAll, code, ih]

mutual

/-- The events of a nest that are no control events are its plain events. -/
theorem filter_events : ∀ n : Nest,
    n.events.filter (fun e => !e.item.isControl) = n.plains.map Plain.located
  | .plain e => by simp [events, plains]
  | .branch _ body _ => by simp [events, plains, filter_eventsAll body]
  | .choice _ body _ other _ => by
      simp [events, plains, filter_eventsAll body, filter_eventsAll other]
  | .loop _ condition _ body _ => by
      simp [events, plains, List.filter_map, Function.comp_def, filter_eventsAll body]

theorem filter_eventsAll : ∀ ns : List Nest,
    (eventsAll ns).filter (fun e => !e.item.isControl) = (plainsAll ns).map Plain.located
  | [] => rfl
  | n :: ns => by
      rw [eventsAll, plainsAll, List.filter_append, filter_events n, filter_eventsAll ns,
        List.map_append]

end

end Nest

namespace Draft

theorem applyAll_cons_of_apply (d d' : Draft) (e : Located Event) (es : List (Located Event))
    (h : d.apply e = .ok d') : d.applyAll (e :: es) = d'.applyAll es := by
  rw [applyAll, h]

/-- Events in a row are taken one after the other. -/
theorem exists_of_applyAll_cons {d d' : Draft} {e : Located Event} {es : List (Located Event)}
    (h : d.applyAll (e :: es) = .ok d') : ∃ d₁, d.apply e = .ok d₁ ∧ d₁.applyAll es = .ok d' := by
  rw [applyAll] at h
  cases happly : d.apply e with
  | error cause => simp [happly] at h
  | ok d₁ =>
      rw [happly] at h
      exact ⟨d₁, rfl, h⟩

theorem applyAll_append_of_ok (d d' : Draft) (es fs : List (Located Event))
    (h : d.applyAll es = .ok d') : d.applyAll (es ++ fs) = d'.applyAll fs := by
  induction es generalizing d with
  | nil =>
      obtain rfl := Except.ok.inj h
      rfl
  | cons e es ih =>
      obtain ⟨d₁, happly, hrest⟩ := exists_of_applyAll_cons h
      rw [List.cons_append, applyAll_cons_of_apply d d₁ e _ happly, ih d₁ hrest]

theorem applyAll_append_of_error (d : Draft) (es fs : List (Located Event))
    (cause : Located DraftError) (h : d.applyAll es = .error cause) :
    d.applyAll (es ++ fs) = .error cause := by
  induction es generalizing d with
  | nil => simp at h
  | cons e es ih =>
      rw [applyAll] at h
      rw [List.cons_append, applyAll]
      cases happly : d.apply e with
      | error other =>
          rw [happly] at h
          exact h
      | ok d₁ =>
          rw [happly] at h
          exact ih d₁ h

theorem exists_of_applyAll_append {d d' : Draft} {es fs : List (Located Event)}
    (h : d.applyAll (es ++ fs) = .ok d') :
    ∃ d₁, d.applyAll es = .ok d₁ ∧ d₁.applyAll fs = .ok d' := by
  cases hes : d.applyAll es with
  | error cause =>
      rw [applyAll_append_of_error d es fs cause hes] at h
      cases h
  | ok d₁ =>
      rw [applyAll_append_of_ok d d₁ es fs hes] at h
      exact ⟨d₁, rfl, h⟩

/-- The innermost opening is no loop head, so whoever closes a construct here does not
close a loop along with it. -/
def Settled (d : Draft) : Prop := ∀ o ∈ d.openings.head?, o.role ≠ .loop

theorem settled_empty : empty.Settled := by
  simp [Settled, empty]

theorem settled_of_cons (d : Draft) (o : Opening) (outer : List Opening)
    (h : d.openings = o :: outer) (hrole : o.role ≠ .loop) : d.Settled := by
  simpa [Settled, h] using hrole

theorem settled_openWith (d : Draft) (role : Role) (pos : Position) (op : Operation)
    (hrole : role ≠ .loop) : (d.openWith role pos op).Settled :=
  settled_of_cons _ _ d.openings rfl hrole

@[simp] theorem size_openWith (d : Draft) (role : Role) (pos : Position) (op : Operation) :
    (d.openWith role pos op).code.size = d.code.size + 1 :=
  Chain.size_push _ _

theorem applyAll_branch (d : Draft) (pos : Position) (es : List (Located Event)) :
    d.applyAll (⟨pos, .branch⟩ :: es) = (d.openWith .branch pos (.branch none)).applyAll es :=
  applyAll_cons_of_apply d _ _ es rfl

theorem applyAll_loop (d : Draft) (pos : Position) (es : List (Located Event)) :
    d.applyAll (⟨pos, .loop⟩ :: es) = (d.openWith .loop pos (.loop none)).applyAll es :=
  applyAll_cons_of_apply d _ _ es rfl

/-- Closing the innermost construct where no loop lies below it. -/
theorem close_of_settled (d : Draft) (pos : Position) (o : Opening) (outer : List Opening)
    (h : d.openings = o :: outer) (hsettled : { d with openings := outer }.Settled) :
    d.apply ⟨pos, .close⟩ = .ok { d with
      code := (d.code.push ⟨pos, .close⟩).modify o.index (Instruction.resolve d.code.size)
      openings := outer } := by
  cases outer with
  | nil => simp [apply, take, close, h, emit, resolve, Except.mapError]
  | cons o' outer =>
      have hrole : o'.role ≠ .loop := by simpa [Settled] using hsettled
      rcases o' with ⟨role, index, pos'⟩
      cases role with
      | loop => exact absurd rfl hrole
      | branch | skip => simp [apply, take, close, h, emit, resolve, Except.mapError]

/-- Closing a loop: the innermost opening is its exit, and its head lies right below. -/
theorem close_of_loop (d : Draft) (pos headPos : Position) (o : Opening) (head : Nat)
    (outer : List Opening) (h : d.openings = o :: ⟨.loop, head, headPos⟩ :: outer) :
    d.apply ⟨pos, .close⟩ = .ok { d with
      code := ((d.code.push ⟨pos, .jump (some head)⟩).push ⟨pos, .close⟩).modify o.index
        (Instruction.resolve (d.code.size + 1))
      openings := outer } := by
  simp [apply, take, close, h, emit, resolve, Except.mapError]

theorem otherwise_of_branch (d : Draft) (pos headPos : Position) (head : Nat)
    (outer : List Opening) (h : d.openings = ⟨.branch, head, headPos⟩ :: outer) :
    d.apply ⟨pos, .otherwise⟩ = .ok { d with
      code := ((d.code.push ⟨pos, .jump none⟩).push ⟨pos, .otherwise⟩).modify head
        (Instruction.resolve (d.code.size + 1))
      openings := ⟨.skip, d.code.size, pos⟩ :: outer } := by
  simp [apply, take, otherwise, h, emit, openWith, resolve, Except.mapError]

/-- The draft takes the events `es` if its store takes the plain events `ps`. It then
ends with the instructions `is` behind its own, names being looked up in any later
store, and with the openings it had. If its store refuses one of `ps`, the draft refuses
an event as well, for the reason that one of `ps` gives. -/
structure Lays (d : Draft) (es : List (Located Event)) (ps : List Plain)
    (is : Store → List Instruction) : Prop where
  takes : ∀ σ, d.store.afterAll? ps = some σ → ∀ τ, σ.Within τ →
    d.applyAll es = .ok { d with store := σ, code := d.code.append (is τ) }
  refuses : d.store.afterAll? ps = none →
    ∃ cause, d.applyAll es = .error cause ∧ ∃ p ∈ ps, p.Refused cause.item

theorem Lays.nil (d : Draft) : d.Lays [] [] fun _ => [] where
  takes σ hσ τ _ := by
    obtain rfl := Option.some.inj hσ
    simp
  refuses h := by simp at h

theorem Lays.append {d : Draft} {es fs : List (Located Event)} {ps qs : List Plain}
    {is js : Store → List Instruction} (h : d.Lays es ps is)
    (h' : ∀ σ τ, d.store.afterAll? ps = some σ → σ.Within τ →
      { d with store := σ, code := d.code.append (is τ) }.Lays fs qs js) :
    d.Lays (es ++ fs) (ps ++ qs) fun τ => is τ ++ js τ where
  takes σ hσ τ hτ := by
    obtain ⟨υ, hυ, hσ', hυσ⟩ := Store.split_of_afterAll?_append _ _ _ _ hσ
    have hwithin : υ.Within τ := hυσ.trans hτ
    rw [applyAll_append_of_ok d _ es fs (h.takes υ hυ τ hwithin),
      (h' υ τ hυ hwithin).takes σ hσ' τ hτ, Chain.append_append]
  refuses hnone := by
    rw [Store.afterAll?_append] at hnone
    cases hps : d.store.afterAll? ps with
    | none =>
        obtain ⟨cause, hcause, p, hp, hrefusal⟩ := h.refuses hps
        exact ⟨cause, applyAll_append_of_error d es fs cause hcause, p,
          List.mem_append_left _ hp, hrefusal⟩
    | some υ =>
        rw [hps] at hnone
        have hυ : υ.Within υ := Store.Within.refl υ
        obtain ⟨cause, hcause, p, hp, hrefusal⟩ := (h' υ υ hps hυ).refuses hnone
        refine ⟨cause, ?_, p, List.mem_append_right _ hp, hrefusal⟩
        rw [applyAll_append_of_ok d _ es fs (h.takes υ hps υ hυ), hcause]

theorem lays_plain (d : Draft) (e : Plain) :
    d.Lays [e.located] [e] fun τ => [e.instruction τ] where
  takes σ hσ τ hτ := by
    obtain ⟨υ, hυ, hσ'⟩ := Option.bind_eq_some_iff.mp hσ
    obtain rfl := Option.some.inj hσ'
    rw [applyAll_cons_of_apply d _ _ _ (d.apply_plain_of_after?_eq_some e υ τ hυ hτ)]
    simp [Chain.push_eq_append]
  refuses hnone := by
    have hafter : d.store.after? e.event = none := by
      simpa [Store.afterAll?_cons] using hnone
    obtain ⟨cause, hcause, hrefusal⟩ := d.apply_plain_of_after?_eq_none e hafter
    exact ⟨⟨e.pos, cause⟩, by rw [applyAll, hcause], e, List.mem_singleton_self e,
      ⟨d.store, hafter⟩, hrefusal⟩

theorem lays_plains (d : Draft) (es : List Plain) :
    d.Lays (es.map Plain.located) es fun τ => es.map (Plain.instruction τ) := by
  induction es generalizing d with
  | nil => exact Lays.nil d
  | cons e es ih => exact (d.lays_plain e).append fun _ _ _ _ => ih _

section Constructs

variable {body other : List (Located Event)} {ps qs : List Plain}
  {is js : Nat → Store → List Instruction} {n m : Nat}

/-- A body and what closes it: the jump that was opened gets the end as its target. -/
theorem Lays.close {d : Draft} {is : Store → List Instruction} (h : d.Lays body ps is)
    (hn : ∀ τ, (is τ).length = n) (tail : Position) (c : Chain Instruction) (i : Instruction)
    (xs : List Instruction) (o : Opening) (outer : List Opening) (hcode : d.code = c.append (i :: xs))
    (hopenings : d.openings = o :: outer) (hindex : o.index = c.size)
    (houter : { d with openings := outer }.Settled) (σ τ : Store)
    (hσ : d.store.afterAll? ps = some σ) (hτ : σ.Within τ) :
    d.applyAll (body ++ [⟨tail, .close⟩]) = .ok ⟨σ,
      c.append (i.resolve (d.code.size + n) :: (xs ++ is τ ++ [⟨tail, .close⟩])), outer⟩ := by
  have hclose := close_of_settled { d with store := σ, code := d.code.append (is τ) } tail o outer
    hopenings houter
  rw [applyAll_append_of_ok d _ _ _ (h.takes σ hσ τ hτ), applyAll_cons_of_apply _ _ _ _ hclose]
  simp only [applyAll_nil, Chain.size_append, hn]
  simp only [hindex, hcode, Chain.append_append, Chain.append_push, List.cons_append,
    Chain.modify_append_cons]

/-- The same for the body of a loop, which jumps back to the head first. -/
theorem Lays.closeLoop {d : Draft} {is : Store → List Instruction} (h : d.Lays body ps is)
    (hn : ∀ τ, (is τ).length = n) (tail headPos : Position) (c : Chain Instruction)
    (i : Instruction) (o : Opening) (head : Nat) (outer : List Opening)
    (hcode : d.code = c.append [i]) (hopenings : d.openings = o :: ⟨.loop, head, headPos⟩ :: outer)
    (hindex : o.index = c.size) (σ τ : Store) (hσ : d.store.afterAll? ps = some σ)
    (hτ : σ.Within τ) :
    d.applyAll (body ++ [⟨tail, .close⟩]) = .ok ⟨σ,
      c.append (i.resolve (d.code.size + n + 1) ::
        (is τ ++ [⟨tail, .jump (some head)⟩, ⟨tail, .close⟩])), outer⟩ := by
  have hclose := close_of_loop { d with store := σ, code := d.code.append (is τ) } tail headPos o
    head outer hopenings
  rw [applyAll_append_of_ok d _ _ _ (h.takes σ hσ τ hτ), applyAll_cons_of_apply _ _ _ _ hclose]
  simp only [applyAll_nil, Chain.size_append, hn]
  simp [hindex, hcode, Chain.append_append, Chain.append_push, Chain.modify_append_cons]

/-- A first branch and what ends it: the condition gets the marker as its target, and the
jump over the second branch is opened. -/
theorem Lays.otherwise {d : Draft} {is : Store → List Instruction} (h : d.Lays body ps is)
    (hn : ∀ τ, (is τ).length = n) (middle headPos : Position) (c : Chain Instruction)
    (i : Instruction) (outer : List Opening) (hcode : d.code = c.append [i])
    (hopenings : d.openings = ⟨.branch, c.size, headPos⟩ :: outer) (σ τ : Store)
    (hσ : d.store.afterAll? ps = some σ) (hτ : σ.Within τ) (es : List (Located Event)) :
    d.applyAll (body ++ ⟨middle, .otherwise⟩ :: es) =
      applyAll ⟨σ, c.append (i.resolve (d.code.size + n + 1) ::
        (is τ ++ [⟨middle, .jump none⟩, ⟨middle, .otherwise⟩])),
        ⟨.skip, d.code.size + n, middle⟩ :: outer⟩ es := by
  have hother := otherwise_of_branch { d with store := σ, code := d.code.append (is τ) } middle
    headPos c.size outer hopenings
  rw [applyAll_append_of_ok d _ _ _ (h.takes σ hσ τ hτ), applyAll_cons_of_apply _ _ _ _ hother]
  simp only [Chain.size_append, hn]
  simp [hcode, Chain.append_append, Chain.append_push, Chain.modify_append_cons]

theorem lays_branch (d : Draft) (hd : d.Settled) (head tail : Position)
    (hn : ∀ base τ, (is base τ).length = n)
    (hbody : ∀ d' : Draft, d'.Settled → d'.Lays body ps (is d'.code.size)) :
    d.Lays (⟨head, .branch⟩ :: (body ++ [⟨tail, .close⟩])) ps fun τ =>
      ⟨head, .branch (some (d.code.size + 1 + n))⟩ ::
        (is (d.code.size + 1) τ ++ [⟨tail, .close⟩]) := by
  have hinner := hbody _ (d.settled_openWith .branch head (.branch none) (by simp))
  rw [size_openWith] at hinner
  constructor
  · intro σ hσ τ hτ
    rw [applyAll_branch,
      hinner.close (hn _) tail d.code ⟨head, .branch none⟩ [] ⟨.branch, d.code.size, head⟩
        d.openings (Chain.push_eq_append _ _) rfl rfl hd σ τ hσ hτ, size_openWith]
    rfl
  · intro hnone
    obtain ⟨cause, hcause, hrefusal⟩ := hinner.refuses hnone
    refine ⟨cause, ?_, hrefusal⟩
    rw [applyAll_branch]
    exact applyAll_append_of_error _ _ _ cause hcause

/-- The draft between two branches, the first of which became the `n` instructions `is`. -/
def divided (d : Draft) (head middle : Position) (n : Nat) (σ : Store) (is : List Instruction) :
    Draft :=
  ⟨σ, d.code.append (⟨head, .branch (some (d.code.size + 1 + n + 1))⟩ ::
      (is ++ [⟨middle, .jump none⟩, ⟨middle, .otherwise⟩])),
    ⟨.skip, d.code.size + 1 + n, middle⟩ :: d.openings⟩

theorem size_divided (d : Draft) (head middle : Position) (σ : Store) (is : List Instruction)
    (hn : is.length = n) :
    (d.divided head middle n σ is).code.size = d.code.size + 1 + n + 2 := by
  simp [divided, hn]
  omega

theorem applyAll_divided (d : Draft) (head middle : Position) {is : Store → List Instruction}
    (hn : ∀ τ, (is τ).length = n)
    (hbody : (d.openWith .branch head (.branch none)).Lays body ps is) (σ τ : Store)
    (hσ : d.store.afterAll? ps = some σ) (hτ : σ.Within τ) (es : List (Located Event)) :
    d.applyAll (⟨head, .branch⟩ :: (body ++ ⟨middle, .otherwise⟩ :: es)) =
      (d.divided head middle n σ (is τ)).applyAll es := by
  rw [applyAll_branch,
    hbody.otherwise hn middle head d.code ⟨head, .branch none⟩ d.openings
      (Chain.push_eq_append _ _) rfl σ τ hσ hτ es, size_openWith]
  rfl

theorem lays_choice (d : Draft) (hd : d.Settled) (head middle tail : Position)
    (hn : ∀ base τ, (is base τ).length = n) (hm : ∀ base τ, (js base τ).length = m)
    (hbody : ∀ d' : Draft, d'.Settled → d'.Lays body ps (is d'.code.size))
    (hother : ∀ d' : Draft, d'.Settled → d'.Lays other qs (js d'.code.size)) :
    d.Lays (⟨head, .branch⟩ :: (body ++ ⟨middle, .otherwise⟩ :: (other ++ [⟨tail, .close⟩])))
      (ps ++ qs) fun τ =>
      ⟨head, .branch (some (d.code.size + 1 + n + 1))⟩ ::
        (is (d.code.size + 1) τ ++
          ⟨middle, .jump (some (d.code.size + 1 + n + 2 + m))⟩ :: ⟨middle, .otherwise⟩ ::
            (js (d.code.size + 1 + n + 2) τ ++ [⟨tail, .close⟩])) := by
  have hinner := hbody _ (d.settled_openWith .branch head (.branch none) (by simp))
  rw [size_openWith] at hinner
  have houter (σ τ : Store) : (d.divided head middle n σ (is (d.code.size + 1) τ)).Lays other qs
      (js (d.code.size + 1 + n + 2)) := by
    have hlays := hother (d.divided head middle n σ (is (d.code.size + 1) τ))
      (settled_of_cons _ _ d.openings rfl (by simp))
    rwa [size_divided d head middle σ _ (hn _ τ)] at hlays
  constructor
  · intro σ hσ τ hτ
    obtain ⟨υ, hυ, hσ', hυσ⟩ := Store.split_of_afterAll?_append _ _ _ _ hσ
    have hwithin : υ.Within τ := hυσ.trans hτ
    have hindex : d.code.size + 1 + n = (d.code.append
        (⟨head, .branch (some (d.code.size + 1 + n + 1))⟩ :: is (d.code.size + 1) τ)).size := by
      simp [hn]
      omega
    rw [d.applyAll_divided head middle (hn _) hinner υ τ hυ hwithin,
      (houter υ τ).close (hm _) tail _ ⟨middle, .jump none⟩ [⟨middle, .otherwise⟩] _ d.openings
        (by simp [divided, Chain.append_append]) rfl hindex hd σ τ hσ' hτ,
      size_divided d head middle υ _ (hn _ τ), Chain.append_append]
    simp [Instruction.resolve, Operation.resolve]
  · intro hnone
    rw [Store.afterAll?_append] at hnone
    cases hps : d.store.afterAll? ps with
    | none =>
        obtain ⟨cause, hcause, p, hp, hrefusal⟩ := hinner.refuses hps
        refine ⟨cause, ?_, p, List.mem_append_left _ hp, hrefusal⟩
        rw [applyAll_branch]
        exact applyAll_append_of_error _ _ _ cause hcause
    | some υ =>
        rw [hps] at hnone
        obtain ⟨cause, hcause, p, hp, hrefusal⟩ := (houter υ υ).refuses hnone
        refine ⟨cause, ?_, p, List.mem_append_right _ hp, hrefusal⟩
        rw [d.applyAll_divided head middle (hn _) hinner υ υ hps (Store.Within.refl υ)]
        exact applyAll_append_of_error _ _ _ cause hcause

/-- The draft at the start of the body of a loop, whose condition became the instructions
`is`. -/
def entered (d : Draft) (head exit : Position) (σ : Store) (is : List Instruction) : Draft :=
  ⟨σ, d.code.append (⟨head, .loop none⟩ :: is ++ [⟨exit, .branch none⟩]),
    ⟨.branch, d.code.size + 1 + is.length, exit⟩ :: ⟨.loop, d.code.size, head⟩ :: d.openings⟩

theorem size_entered (d : Draft) (head exit : Position) (σ : Store) (is : List Instruction) :
    (d.entered head exit σ is).code.size = d.code.size + 1 + is.length + 1 := by
  simp [entered]
  omega

theorem applyAll_entered (d : Draft) (head exit : Position) (condition : List Plain) (σ τ : Store)
    (hσ : d.store.afterAll? condition = some σ) (hτ : σ.Within τ) (es : List (Located Event)) :
    d.applyAll (⟨head, .loop⟩ :: (condition.map Plain.located ++ ⟨exit, .branch⟩ :: es)) =
      (d.entered head exit σ (condition.map (Plain.instruction τ))).applyAll es := by
  have hcondition := (d.openWith .loop head (.loop none)).lays_plains condition
  rw [applyAll_loop,
    applyAll_append_of_ok _ _ _ _ (hcondition.takes σ hσ τ hτ),
    applyAll_cons_of_apply _ (d.entered head exit σ (condition.map (Plain.instruction τ)))]
  simp [apply, take, openWith, emit, entered, Except.mapError, Chain.push_append,
    Chain.append_push]
  omega

theorem lays_loop (d : Draft) (head exit tail : Position) (condition : List Plain)
    (hn : ∀ base τ, (is base τ).length = n)
    (hbody : ∀ d' : Draft, d'.Settled → d'.Lays body ps (is d'.code.size)) :
    d.Lays (⟨head, .loop⟩ :: (condition.map Plain.located ++
      ⟨exit, .branch⟩ :: (body ++ [⟨tail, .close⟩]))) (condition ++ ps) fun τ =>
      ⟨head, .loop none⟩ :: (condition.map (Plain.instruction τ) ++
        ⟨exit, .branch (some (d.code.size + 1 + condition.length + 1 + n + 1))⟩ ::
          (is (d.code.size + 1 + condition.length + 1) τ ++
            [⟨tail, .jump (some d.code.size)⟩, ⟨tail, .close⟩])) := by
  have hinner (σ τ : Store) : (d.entered head exit σ (condition.map (Plain.instruction τ))).Lays
      body ps (is (d.code.size + 1 + condition.length + 1)) := by
    have hlays := hbody (d.entered head exit σ (condition.map (Plain.instruction τ)))
      (settled_of_cons _ _ _ rfl (by simp))
    rwa [size_entered, List.length_map] at hlays
  constructor
  · intro σ hσ τ hτ
    obtain ⟨υ, hυ, hσ', hυσ⟩ := Store.split_of_afterAll?_append _ _ _ _ hσ
    have hwithin : υ.Within τ := hυσ.trans hτ
    rw [d.applyAll_entered head exit condition υ τ hυ hwithin,
      (hinner υ τ).closeLoop (hn _) tail head
        (d.code.append (⟨head, .loop none⟩ :: condition.map (Plain.instruction τ)))
        ⟨exit, .branch none⟩ _ d.code.size d.openings (Chain.append_append _ _ _).symm rfl
        (by simp; omega) σ τ hσ' hτ, size_entered, Chain.append_append]
    simp [Instruction.resolve, Operation.resolve]
  · intro hnone
    rw [Store.afterAll?_append] at hnone
    cases hps : d.store.afterAll? condition with
    | none =>
        obtain ⟨cause, hcause, p, hp, hrefusal⟩ :=
          ((d.openWith .loop head (.loop none)).lays_plains condition).refuses hps
        refine ⟨cause, ?_, p, List.mem_append_left _ hp, hrefusal⟩
        rw [applyAll_loop]
        exact applyAll_append_of_error _ _ _ cause hcause
    | some υ =>
        rw [hps] at hnone
        obtain ⟨cause, hcause, p, hp, hrefusal⟩ := (hinner υ υ).refuses hnone
        refine ⟨cause, ?_, p, List.mem_append_right _ hp, hrefusal⟩
        rw [d.applyAll_entered head exit condition υ υ hps (Store.Within.refl υ)]
        exact applyAll_append_of_error _ _ _ cause hcause

end Constructs

end Draft

namespace Nest

mutual

/-- A draft takes the events of a nest, unless it refuses a plain one, and ends with the
code of the nest behind its own. -/
theorem lays : ∀ (n : Nest) (d : Draft), d.Settled →
    d.Lays n.events n.plains fun τ => n.code τ d.code.size
  | .plain e, d, _ => d.lays_plain e
  | .branch head body tail, d, hd =>
      d.lays_branch hd head tail (fun base τ => length_codeAll τ base body) (laysAll body)
  | .choice head body middle other tail, d, hd =>
      d.lays_choice hd head middle tail (fun base τ => length_codeAll τ base body)
        (fun base τ => length_codeAll τ base other) (laysAll body) (laysAll other)
  | .loop head condition exit body tail, d, _ =>
      d.lays_loop head exit tail condition (fun base τ => length_codeAll τ base body) (laysAll body)

theorem laysAll : ∀ (ns : List Nest) (d : Draft), d.Settled →
    d.Lays (eventsAll ns) (plainsAll ns) fun τ => codeAll τ d.code.size ns
  | [], d, _ => Draft.Lays.nil d
  | n :: ns, d, hd => by
      refine (lays n d hd).append ?_
      intro σ τ _ _
      have hrest := laysAll ns { d with store := σ, code := d.code.append (n.code τ d.code.size) } hd
      simpa using hrest

end

/-- Well-nested events leave the openings as they were. -/
theorem openings_of_applyAll (ns : List Nest) (d d' : Draft) (hd : d.Settled)
    (h : d.applyAll (eventsAll ns) = .ok d') : d'.openings = d.openings := by
  have hlays := laysAll ns d hd
  cases hstore : d.store.afterAll? (plainsAll ns) with
  | none =>
      obtain ⟨cause, hcause, -⟩ := hlays.refuses hstore
      rw [hcause] at h
      cases h
  | some σ =>
      rw [hlays.takes σ hstore σ (Store.Within.refl σ)] at h
      obtain rfl := Except.ok.inj h
      rfl

end Nest

end StackLang
