import StackLang.Proofs.Draft.Nest

/-!
# Coherent drafts

Whatever events a draft takes, in whatever order, its openings stay coherent: their
indices fall from the innermost to the outermost, and at each index there is a jump of
the opening's role that has no target yet. So nothing but a jump is ever given a target,
and no jump twice.

`Changes` says all that one event can do to a draft; what many events do follows by
induction.
-/

namespace StackLang

/-- The jump that is emitted for a role. -/
def Role.jump : Role → Operation
  | .branch => .branch none
  | .skip => .jump none
  | .loop => .loop none

/-- At most how many instructions an event adds. -/
def Event.weight : Event → Nat
  | .otherwise | .close => 2
  | _ => 1

def Event.weightAll : List (Located Event) → Nat
  | [] => 0
  | e :: es => e.item.weight + weightAll es

theorem Event.weightAll_append (es fs : List (Located Event)) :
    weightAll (es ++ fs) = weightAll es + weightAll fs := by
  induction es with
  | nil => simp [weightAll]
  | cons e es ih => simp [weightAll, ih, Nat.add_assoc]

namespace Draft

/-- What an event does to the draft that takes it. -/
inductive Changes (d : Draft) : Located Event → Draft → Prop where
  | plain (e : Plain) (σ : Store) (hσ : d.store.after? e.event = some σ) :
      Changes d e.located { d with store := σ, code := d.code.push (e.instruction σ) }
  | branch (pos : Position) : Changes d ⟨pos, .branch⟩ (d.openWith .branch pos (.branch none))
  | loop (pos : Position) : Changes d ⟨pos, .loop⟩ (d.openWith .loop pos (.loop none))
  | otherwise (pos headPos : Position) (head : Nat) (outer : List Opening)
      (h : d.openings = ⟨.branch, head, headPos⟩ :: outer) :
      Changes d ⟨pos, .otherwise⟩ { d with
        code := ((d.code.push ⟨pos, .jump none⟩).push ⟨pos, .otherwise⟩).modify head
          (Instruction.resolve (d.code.size + 1))
        openings := ⟨.skip, d.code.size, pos⟩ :: outer }
  | close (pos : Position) (o : Opening) (outer : List Opening) (h : d.openings = o :: outer)
      (hsettled : { d with openings := outer }.Settled) :
      Changes d ⟨pos, .close⟩ { d with
        code := (d.code.push ⟨pos, .close⟩).modify o.index (Instruction.resolve d.code.size)
        openings := outer }
  | closeLoop (pos headPos : Position) (o : Opening) (head : Nat) (outer : List Opening)
      (h : d.openings = o :: ⟨.loop, head, headPos⟩ :: outer) :
      Changes d ⟨pos, .close⟩ { d with
        code := ((d.code.push ⟨pos, .jump (some head)⟩).push ⟨pos, .close⟩).modify o.index
          (Instruction.resolve (d.code.size + 1))
        openings := outer }

theorem changes_of_apply_plain (d d' : Draft) (e : Plain) (h : d.apply e.located = .ok d') :
    d.Changes e.located d' := by
  cases hσ : d.store.after? e.event with
  | none =>
      obtain ⟨cause, hcause, -⟩ := d.apply_plain_of_after?_eq_none e hσ
      rw [hcause] at h
      cases h
  | some σ =>
      rw [d.apply_plain_of_after?_eq_some e σ σ hσ (Store.Within.refl σ)] at h
      obtain rfl := Except.ok.inj h
      exact .plain e σ hσ

theorem changes_of_apply_otherwise (d d' : Draft) (pos : Position)
    (h : d.apply ⟨pos, .otherwise⟩ = .ok d') : d.Changes ⟨pos, .otherwise⟩ d' := by
  have hopenings : ∃ head headPos outer, d.openings = ⟨.branch, head, headPos⟩ :: outer := by
    simp only [apply, take, Draft.otherwise] at h
    split at h
    · next head headPos outer hbranch => exact ⟨head, headPos, outer, hbranch⟩
    · cases h
  obtain ⟨head, headPos, outer, hbranch⟩ := hopenings
  rw [d.otherwise_of_branch pos headPos head outer hbranch] at h
  obtain rfl := Except.ok.inj h
  exact .otherwise pos headPos head outer hbranch

/-- A draft that is not settled has a loop head as its innermost opening. -/
theorem exists_loop_of_not_settled {d : Draft} (h : ¬ d.Settled) :
    ∃ head headPos outer, d.openings = ⟨.loop, head, headPos⟩ :: outer := by
  rcases hopenings : d.openings with - | ⟨⟨role, head, headPos⟩, outer⟩
  · simp [Settled, hopenings] at h
  · obtain rfl : role = .loop := by simpa [Settled, hopenings] using h
    exact ⟨head, headPos, outer, rfl⟩

theorem changes_of_apply_close (d d' : Draft) (pos : Position)
    (h : d.apply ⟨pos, .close⟩ = .ok d') : d.Changes ⟨pos, .close⟩ d' := by
  cases hopenings : d.openings with
  | nil =>
      simp only [apply, take, Draft.close, hopenings] at h
      cases h
  | cons o outer =>
      by_cases hsettled : { d with openings := outer }.Settled
      · rw [d.close_of_settled pos o outer hopenings hsettled] at h
        obtain rfl := Except.ok.inj h
        exact .close pos o outer hopenings hsettled
      · obtain ⟨head, headPos, outer', rfl⟩ := exists_loop_of_not_settled hsettled
        rw [d.close_of_loop pos headPos o head outer' hopenings] at h
        obtain rfl := Except.ok.inj h
        exact .closeLoop pos headPos o head outer' hopenings

theorem changes_of_apply (d d' : Draft) (e : Located Event) (h : d.apply e = .ok d') :
    d.Changes e d' := by
  by_cases hplain : e.item.isControl = false
  · exact d.changes_of_apply_plain d' ⟨e.pos, e.item, hplain⟩ h
  rcases e with ⟨pos, event⟩
  cases event with
  | branch =>
      obtain rfl := Except.ok.inj h
      exact .branch pos
  | loop =>
      obtain rfl := Except.ok.inj h
      exact .loop pos
  | otherwise => exact d.changes_of_apply_otherwise d' pos h
  | close => exact d.changes_of_apply_close d' pos h
  | declare | target | read | integer | string | operator | assign | print =>
      exact absurd rfl hplain

/-- The openings lie at jumps of their roles that have no target yet, the innermost last
in the code. -/
structure Coherent (d : Draft) : Prop where
  ordered : d.openings.Pairwise fun inner outer => outer.index < inner.index
  pending : ∀ o ∈ d.openings, d.code.get? o.index = some ⟨o.pos, o.role.jump⟩

theorem coherent_empty : empty.Coherent := ⟨List.Pairwise.nil, by simp [empty]⟩

theorem Coherent.lt_size {d : Draft} (h : d.Coherent) (o : Opening) (ho : o ∈ d.openings) :
    o.index < d.code.size :=
  d.code.lt_size_of_get? o.index _ (h.pending o ho)

theorem Coherent.outer_lt {d : Draft} (h : d.Coherent) (o : Opening) (outer : List Opening)
    (hd : d.openings = o :: outer) (o' : Opening) (ho' : o' ∈ outer) : o'.index < o.index := by
  have hordered := h.ordered
  rw [hd] at hordered
  exact List.rel_of_pairwise_cons hordered ho'

/-- The outer openings stay coherent as long as the code at their indices does not change.
-/
theorem Coherent.keep {d : Draft} (h : d.Coherent) (σ : Store) (code : Chain Instruction)
    (outer : List Opening) (houter : outer <:+ d.openings)
    (hcode : ∀ o ∈ outer, code.get? o.index = d.code.get? o.index) :
    (⟨σ, code, outer⟩ : Draft).Coherent where
  ordered := h.ordered.sublist houter.sublist
  pending o ho := by
    rw [hcode o ho]
    exact h.pending o (houter.subset ho)

/-- A jump without a target behind all openings can be opened. -/
theorem Coherent.opened {d : Draft} (h : d.Coherent) (o : Opening)
    (hlast : ∀ o' ∈ d.openings, o'.index < o.index)
    (ho : d.code.get? o.index = some ⟨o.pos, o.role.jump⟩) :
    { d with openings := o :: d.openings }.Coherent where
  ordered := List.pairwise_cons.mpr ⟨hlast, h.ordered⟩
  pending o' ho' := by
    rcases List.mem_cons.mp ho' with rfl | ho'
    · exact ho
    · exact h.pending o' ho'

theorem Coherent.openWith {d : Draft} (h : d.Coherent) (role : Role) (pos : Position) :
    (d.openWith role pos role.jump).Coherent := by
  have hcode : d.code.push ⟨pos, role.jump⟩ = d.code.append [⟨pos, role.jump⟩] :=
    Chain.push_eq_append _ _
  have hemitted : (d.emit pos role.jump).Coherent := by
    refine h.keep _ _ _ (List.suffix_refl _) fun o ho => ?_
    rw [hcode, Chain.get?_append_of_lt _ _ _ (h.lt_size o ho)]
  refine hemitted.opened ⟨role, d.code.size, pos⟩ h.lt_size ?_
  exact (congrArg (Chain.get? · d.code.size) hcode).trans (Chain.get?_append_size _ _ _)

/-- Giving the innermost jump its target, with more code behind it, leaves the outer
openings coherent. -/
theorem Coherent.resolved {d : Draft} (h : d.Coherent) (o : Opening) (outer : List Opening)
    (hd : d.openings = o :: outer) (rest : List Opening) (hrest : rest <:+ outer)
    (xs : List Instruction) (target : Nat) :
    Coherent { d with
      code := (d.code.append xs).modify o.index (Instruction.resolve target)
      openings := rest } := by
  have ho : o.index < d.code.size := h.lt_size o (by rw [hd]; exact List.mem_cons_self)
  refine h.keep _ _ _ (hd ▸ hrest.trans (List.suffix_cons o outer)) ?_
  intro o' ho'
  have hlt := h.outer_lt o outer hd o' (hrest.subset ho')
  rw [Chain.get?_modify, if_neg (Nat.ne_of_gt hlt),
    Chain.get?_append_of_lt _ _ _ (Nat.lt_trans hlt ho)]

theorem Coherent.changes {d d' : Draft} {e : Located Event} (h : d.Coherent)
    (hd : d.Changes e d') : d'.Coherent := by
  cases hd with
  | plain e σ hσ =>
      refine h.keep _ _ _ (List.suffix_refl _) fun o ho => ?_
      rw [Chain.push_eq_append, Chain.get?_append_of_lt _ _ _ (h.lt_size o ho)]
  | branch pos => exact h.openWith .branch pos
  | loop pos => exact h.openWith .loop pos
  | otherwise pos headPos head outer hopenings =>
      have hhead : head < d.code.size := h.lt_size _ (by rw [hopenings]; exact List.mem_cons_self)
      have hkept := h.resolved _ outer hopenings outer (List.suffix_refl _)
        [⟨pos, .jump none⟩, ⟨pos, .otherwise⟩] (d.code.size + 1)
      rw [Chain.push_eq_append, Chain.push_append]
      refine hkept.opened ⟨.skip, d.code.size, pos⟩ ?_ ?_
      · exact fun o ho => Nat.lt_trans (h.outer_lt _ outer hopenings o ho) hhead
      · exact (Chain.get?_modify _ _ _ _).trans
          ((if_neg (Nat.ne_of_lt hhead)).trans (Chain.get?_append_size _ _ _))
  | close pos o outer hopenings =>
      rw [Chain.push_eq_append]
      exact h.resolved o outer hopenings outer (List.suffix_refl _) _ _
  | closeLoop pos headPos o head outer hopenings =>
      rw [Chain.push_eq_append, Chain.push_append]
      exact h.resolved o _ hopenings outer (List.suffix_cons _ outer) _ _

/-- Sizes grow by no more than the weight of the event. -/
theorem size_of_changes {d d' : Draft} {e : Located Event} (h : d.Changes e d') :
    d'.code.size ≤ d.code.size + e.item.weight ∧ d'.store.size ≤ d.store.size + e.item.weight := by
  cases h with
  | plain e σ hσ =>
      have hweight : 1 ≤ e.event.weight := by cases e.event <;> simp [Event.weight]
      refine ⟨?_, ?_⟩
      · simpa [Plain.located] using hweight
      · rcases Store.after?_cases _ σ _ hσ with rfl | ⟨kind, name, -, -, rfl⟩
        · exact Nat.le_add_right _ _
        · simpa [Plain.located] using hweight
  | branch | loop =>
      simp [Event.weight, Draft.openWith, emit]
  | otherwise | close | closeLoop => simp [Event.weight]

section Runs

variable (d d' : Draft) (es : List (Located Event))

theorem coherent_of_applyAll (h : d.applyAll es = .ok d') (hd : d.Coherent) : d'.Coherent := by
  induction es generalizing d with
  | nil =>
      obtain rfl := Except.ok.inj h
      exact hd
  | cons e es ih =>
      obtain ⟨d₁, happly, hrest⟩ := exists_of_applyAll_cons h
      exact ih d₁ hrest (hd.changes (d.changes_of_apply d₁ e happly))

theorem size_of_applyAll (h : d.applyAll es = .ok d') :
    d'.code.size ≤ d.code.size + Event.weightAll es ∧
      d'.store.size ≤ d.store.size + Event.weightAll es := by
  induction es generalizing d with
  | nil =>
      obtain rfl := Except.ok.inj h
      exact ⟨Nat.le_refl _, Nat.le_refl _⟩
  | cons e es ih =>
      obtain ⟨d₁, happly, hrest⟩ := exists_of_applyAll_cons h
      obtain ⟨hcode, hstore⟩ := size_of_changes (d.changes_of_apply d₁ e happly)
      obtain ⟨hcodes, hstores⟩ := ih d₁ hrest
      rw [Event.weightAll]
      omega

end Runs

section Absorb

theorem foldl_absorb_of_applyAll (d d' : Draft) (es : List (Located Event))
    (h : d.applyAll es = .ok d') : es.foldl absorb d = d' := by
  induction es generalizing d with
  | nil => exact Except.ok.inj h
  | cons e es ih =>
      rw [applyAll] at h
      cases happly : d.apply e with
      | error cause => simp [happly] at h
      | ok d₁ =>
          rw [happly] at h
          have habsorb : d.absorb e = d₁ := by simp [absorb, happly]
          rw [List.foldl_cons, habsorb]
          exact ih d₁ h

theorem absorb_cases (d : Draft) (e : Located Event) :
    d.absorb e = d ∨ d.Changes e (d.absorb e) := by
  rw [absorb]
  cases happly : d.apply e with
  | error cause => exact .inl rfl
  | ok d' => exact .inr (d.changes_of_apply d' e happly)

/-- What events keep one by one, they keep in a row, refused or not. -/
theorem foldl_absorb_induction {P : Draft → Prop}
    (hP : ∀ d d' e, P d → d.Changes e d' → P d') (es : List (Located Event)) (d : Draft)
    (hd : P d) : P (es.foldl absorb d) := by
  induction es generalizing d with
  | nil => exact hd
  | cons e es ih =>
      refine ih (d.absorb e) ?_
      rcases d.absorb_cases e with hsame | hchanges
      · rwa [hsame]
      · exact hP d _ e hd hchanges

theorem coherent_foldl_absorb (es : List (Located Event)) : (es.foldl absorb empty).Coherent :=
  foldl_absorb_induction (fun _ _ _ h => h.changes) es empty coherent_empty

end Absorb

end Draft

end StackLang
