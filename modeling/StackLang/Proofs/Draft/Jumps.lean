import StackLang.Proofs.Draft.Desk

/-!
# The jumps of any draft

Events may come in any order: an end without a head, a loop head right inside of another,
a second branch for a loop, an event that is refused. Whatever comes, the draft keeps
track of its jumps. What has no target is an opening or a loop head, and every target lies
where it should: ahead at a marker, or back at the head of a loop.

`Routed` is where an operation may lead, `Wired` the invariant of drafts that goes with
it. A draft that is left with no openings makes a program in which every operation is
routed. `Patches` says what an event does to the instructions that are there already: it
gives at most one of them a target, the jump of the innermost opening, and leaves all
others alone.

An opening of a draft tells what it is for. A desk has bare indices only, and comes to the
same: all of this is carried over to it, and no call finds anything but a jump without a
target where it looks for one.
-/

namespace StackLang

namespace Chain

theorem get?_append_add {α : Type} (c : Chain α) (xs : List α) (i : Nat) :
    (c.append xs).get? (c.size + i) = xs[i]? := by
  rw [get?_eq_getElem?, toList_append, show c.size = c.toList.length by simp [size, toList],
    List.getElem?_append_right (Nat.le_add_right _ _), Nat.add_sub_cancel_left]

/-- The operation at an index. -/
def op? (code : Chain Instruction) (c : Nat) : Option Operation :=
  (code.get? c).map Instruction.op

theorem op?_of_get? {code : Chain Instruction} {c : Nat} {i : Instruction}
    (h : code.get? c = some i) : code.op? c = some i.op := by
  rw [op?, h]
  rfl

theorem lt_size_of_op? {code : Chain Instruction} {c : Nat} {op : Operation}
    (h : code.op? c = some op) : c < code.size := by
  obtain ⟨i, hi, -⟩ := Option.map_eq_some_iff.mp h
  exact code.lt_size_of_get? c i hi

/-- The operations of `code` are in `code'` as well, up to the targets of jumps. -/
def Carries (code code' : Chain Instruction) : Prop :=
  ∀ c op, code.op? c = some op → code'.op? c = some op ∨ ∃ t, code'.op? c = some (op.resolve t)

/-- An operation that takes no target is there unchanged. -/
theorem Carries.marker {code code' : Chain Instruction} (h : code.Carries code') {c : Nat}
    {op : Operation} (hop : ∀ t, op.resolve t = op) (hc : code.op? c = some op) :
    code'.op? c = some op := by
  rcases h c op hc with hsame | ⟨t, ht⟩
  · exact hsame
  · rwa [hop t] at ht

end Chain

namespace Operation

/-- Where an operation at the index `c` may lead:

* a conditional jump ahead, to the marker of a second branch or to an end;
* a jump ahead to an end, or back to the head of a loop from in front of an end;
* the head of a loop nowhere, or ahead to an end. -/
def Routed (code : Chain Instruction) (c : Nat) : Operation → Prop
  | .branch none | .jump none => False
  | .branch (some t) => c < t ∧ (code.op? t = some .otherwise ∨ code.op? t = some .close)
  | .jump (some t) =>
    (c < t ∧ code.op? t = some .close) ∨
      (t < c ∧ (∃ u, code.op? t = some (.loop u)) ∧ code.op? (c + 1) = some .close)
  | .loop (some t) => c < t ∧ code.op? t = some .close
  | _ => True

/-- A jump without a target. -/
def Awaits : Operation → Prop
  | .branch none | .loop none | .jump none => True
  | _ => False

/-- The variable that is named is in the store, and the operation has the kind of the
variable or none. -/
def Named (σ : Store) (op : Operation) : Prop :=
  ∀ x, op.var? = some x → ∃ v, σ.get? x = some v ∧ (op.kind = .void ∨ op.kind = v.kind.toKind)

theorem Routed.carried {code code' : Chain Instruction} (h : code.Carries code') {c : Nat}
    {op : Operation} (hop : op.Routed code c) : op.Routed code' c := by
  have hclose {t : Nat} : code.op? t = some .close → code'.op? t = some .close :=
    h.marker fun _ => rfl
  cases op with
  | branch target =>
      cases target with
      | none => exact hop
      | some t => exact ⟨hop.1, hop.2.imp (h.marker fun _ => rfl) hclose⟩
  | loop target =>
      cases target with
      | none => trivial
      | some t => exact ⟨hop.1, hclose hop.2⟩
  | jump target =>
      cases target with
      | none => exact hop
      | some t =>
          rcases hop with ⟨hahead, hend⟩ | ⟨hback, ⟨u, hu⟩, hend⟩
          · exact .inl ⟨hahead, hclose hend⟩
          · refine .inr ⟨hback, ?_, hclose hend⟩
            -- The head of a loop is still one when it has been given a target.
            rcases h t _ hu with hsame | ⟨t', ht'⟩
            · exact ⟨u, hsame⟩
            · exact ⟨some t', ht'⟩
  | declare | target | read | assign | print | otherwise | close | constant | operator => trivial

theorem Named.within {σ τ : Store} (h : σ.Within τ) {op : Operation} (hop : op.Named σ) :
    op.Named τ := by
  intro x hx
  obtain ⟨v, hv, hkind⟩ := hop x hx
  exact ⟨v, h.get? x v hv, hkind⟩

theorem named_of_var?_eq_none {op : Operation} (h : op.var? = none) (σ : Store) : op.Named σ := by
  intro x hx
  rw [h] at hx
  cases hx

/-- What a plain event becomes names a variable of the store behind the event. -/
theorem named_operation (σ τ : Store) (e : Event) (h : σ.after? e = some τ) :
    (e.operation τ).Named τ := by
  have hfound (name : String) (hname : τ.find? name ≠ none) :
      ∃ v, τ.get? (τ.indexOf name) = some v ∧ v.kind = τ.kindOf name := by
    obtain ⟨v, hv, -, hkind⟩ := τ.exists_variable_of_find? name hname
    exact ⟨v, hv, hkind⟩
  cases e with
  | declare kind name =>
      simp only [Store.after?, Option.ite_none_right_eq_some, Option.some.injEq] at h
      obtain ⟨hname, rfl⟩ := h
      have hindex : (σ.add name kind).indexOf name = σ.size := by
        rw [Store.indexOf, σ.find?_add_self name kind hname]
        rfl
      rintro x ⟨⟩
      refine ⟨⟨name, kind, Value.default kind.toKind⟩, ?_, .inr rfl⟩
      rw [hindex, Store.get?_add, if_pos rfl]
  | target name =>
      simp only [Store.after?, Option.ite_none_left_eq_some, Option.some.injEq] at h
      obtain ⟨hname, rfl⟩ := h
      rintro x ⟨⟩
      obtain ⟨v, hv, -⟩ := hfound name hname
      exact ⟨v, hv, .inl rfl⟩
  | read name =>
      simp only [Store.after?, Option.ite_none_left_eq_some, Option.some.injEq] at h
      obtain ⟨hname, rfl⟩ := h
      rintro x ⟨⟩
      obtain ⟨v, hv, hkind⟩ := hfound name hname
      exact ⟨v, hv, .inr (by rw [hkind]; rfl)⟩
  | integer | string | operator | assign | print | branch | otherwise | loop | close =>
      exact named_of_var?_eq_none rfl τ

/-- No plain event becomes a jump. -/
theorem routed_operation (code : Chain Instruction) (c : Nat) (τ : Store) (e : Event) :
    (e.operation τ).Routed code c := by
  cases e <;> trivial

end Operation

theorem Role.awaits_jump (role : Role) : role.jump.Awaits := by
  cases role <;> trivial

namespace Draft

/-- The code with the instructions `xs` behind it, in which the jump of an opening has
been given a target. -/
def patch (d : Draft) (xs : List Instruction) (o : Opening) (target : Nat) : Chain Instruction :=
  (d.code.append xs).modify o.index (Instruction.resolve target)

section Patch

variable {d : Draft} {o : Opening} (xs : List Instruction) (target : Nat)

theorem get?_patch_of_ne {c : Nat} (hc : c ≠ o.index) (hlt : c < d.code.size) :
    (d.patch xs o target).get? c = d.code.get? c := by
  rw [patch, Chain.get?_modify, if_neg (Ne.symm hc), Chain.get?_append_of_lt _ _ _ hlt]

theorem get?_patch_self (h : d.Coherent) (ho : o ∈ d.openings) :
    (d.patch xs o target).get? o.index = some ⟨o.pos, o.role.jump.resolve target⟩ := by
  rw [patch, Chain.get?_modify, if_pos rfl, Chain.get?_append_of_lt _ _ _ (h.lt_size o ho),
    h.pending o ho]
  rfl

theorem get?_patch_add (h : d.Coherent) (ho : o ∈ d.openings) (k : Nat) :
    (d.patch xs o target).get? (d.code.size + k) = xs[k]? := by
  have hne : o.index ≠ d.code.size + k :=
    Nat.ne_of_lt (Nat.lt_of_lt_of_le (h.lt_size o ho) (Nat.le_add_right _ _))
  rw [patch, Chain.get?_modify, if_neg hne, Chain.get?_append_add]

theorem op?_patch_add (h : d.Coherent) (ho : o ∈ d.openings) (k : Nat) :
    (d.patch xs o target).op? (d.code.size + k) = xs[k]?.map Instruction.op := by
  rw [Chain.op?, get?_patch_add xs target h ho]

theorem carries_patch (h : d.Coherent) (ho : o ∈ d.openings) :
    d.code.Carries (d.patch xs o target) := by
  intro c op hc
  by_cases hindex : c = o.index
  · subst hindex
    obtain rfl : o.role.jump = op :=
      Option.some.inj ((Chain.op?_of_get? (h.pending o ho)).symm.trans hc)
    exact .inr ⟨target, Chain.op?_of_get? (get?_patch_self xs target h ho)⟩
  · rw [Chain.op?, get?_patch_of_ne xs target hindex (Chain.lt_size_of_op? hc)]
    exact .inl hc

end Patch

theorem carries_append (code : Chain Instruction) (xs : List Instruction) :
    code.Carries (code.append xs) := by
  intro c op hc
  rw [Chain.op?, Chain.get?_append_of_lt _ _ _ (Chain.lt_size_of_op? hc)]
  exact .inl hc

/-- The openings are coherent, all operations outside of them lead where they may, and
names have variables. -/
structure Wired (d : Draft) : Prop extends d.Coherent where
  routed : ∀ c op, d.code.op? c = some op →
    (∃ o ∈ d.openings, o.index = c) ∨ op.Routed d.code c
  named : ∀ c op, d.code.op? c = some op → op.Named d.store

theorem wired_empty : empty.Wired where
  toCoherent := coherent_empty
  routed _ _ h := nomatch h
  named _ _ h := nomatch h

/-- A draft stays wired if old operations are kept or given a good target, openings are
kept or closed, and what is new is opened or leads where it may. -/
theorem Wired.step {d d' : Draft} (h : d.Wired) (hd' : d'.Coherent)
    (hstore : d.store.Within d'.store) (hcarries : d.code.Carries d'.code)
    (hkept : ∀ c, c < d.code.size → (∀ o ∈ d.openings, o.index ≠ c) →
      d'.code.op? c = d.code.op? c)
    (hopenings : ∀ o ∈ d.openings, o ∈ d'.openings ∨
      ∀ op, d'.code.op? o.index = some op → op.Routed d'.code o.index)
    (hnew : ∀ k op, d'.code.op? (d.code.size + k) = some op →
      ((∃ o ∈ d'.openings, o.index = d.code.size + k) ∨ op.Routed d'.code (d.code.size + k)) ∧
        op.Named d'.store) : d'.Wired where
  toCoherent := hd'
  routed c op hop := by
    rcases Nat.lt_or_ge c d.code.size with hlt | hge
    · by_cases hopen : ∃ o ∈ d.openings, o.index = c
      · obtain ⟨o, ho, rfl⟩ := hopen
        rcases hopenings o ho with ho' | hrouted
        · exact .inl ⟨o, ho', rfl⟩
        · exact .inr (hrouted op hop)
      · rw [hkept c hlt fun o ho hc => hopen ⟨o, ho, hc⟩] at hop
        exact .inr ((h.routed c op hop).resolve_left hopen |>.carried hcarries)
    · obtain ⟨k, rfl⟩ := Nat.exists_eq_add_of_le hge
      exact (hnew k op hop).1
  named c op hop := by
    rcases Nat.lt_or_ge c d.code.size with hlt | hge
    · obtain ⟨i, hi⟩ : ∃ i, d.code.get? c = some i := by
        rw [← Option.ne_none_iff_exists', Ne, Chain.get?_eq_none_iff]
        exact Nat.not_le.mpr hlt
      have hnamed := (h.named c i.op (Chain.op?_of_get? hi)).within hstore
      rcases hcarries c i.op (Chain.op?_of_get? hi) with hsame | ⟨t, ht⟩
      · obtain rfl := Option.some.inj (hsame.symm.trans hop)
        exact hnamed
      · obtain rfl := Option.some.inj (ht.symm.trans hop)
        simpa [Operation.Named] using hnamed
    · obtain ⟨k, rfl⟩ := Nat.exists_eq_add_of_le hge
      exact (hnew k op hop).2

/-- One more instruction, which may be opened. -/
theorem Wired.emitted {d : Draft} (h : d.Wired) (σ : Store) (hσ : d.store.Within σ)
    (i : Instruction) (opened : List Opening)
    (hd' : (⟨σ, d.code.append [i], opened ++ d.openings⟩ : Draft).Coherent)
    (hnamed : i.op.Named σ)
    (hrouted : (∃ o ∈ opened, o.index = d.code.size) ∨
      i.op.Routed (d.code.append [i]) d.code.size) :
    (⟨σ, d.code.append [i], opened ++ d.openings⟩ : Draft).Wired := by
  refine h.step hd' hσ (carries_append _ _) ?_ ?_ ?_
  · intro c hc _
    rw [Chain.op?, Chain.get?_append_of_lt _ _ _ hc]
    rfl
  · exact fun o ho => .inl (List.mem_append_right _ ho)
  · intro k op hop
    rw [Chain.op?, Chain.get?_append_add] at hop
    cases k with
    | succ k => cases hop
    | zero =>
        obtain rfl : i.op = op := Option.some.inj hop
        refine ⟨hrouted.imp ?_ id, hnamed⟩
        exact fun ⟨o, ho, hindex⟩ => ⟨o, List.mem_append_left _ ho, hindex⟩

/-- More instructions, and a target for the innermost opening. The opening is gone, and
loop heads may go with it. -/
theorem Wired.patched {d : Draft} (h : d.Wired) (o : Opening) (outer rest opened : List Opening)
    (hd : d.openings = o :: outer) (hrest : ∀ o' ∈ outer, o' ∈ rest ∨ o'.role = .loop)
    (xs : List Instruction) (target : Nat)
    (hd' : (⟨d.store, d.patch xs o target, opened ++ rest⟩ : Draft).Coherent)
    (ho : (o.role.jump.resolve target).Routed (d.patch xs o target) o.index)
    (hxs : ∀ k i, xs[k]? = some i → ((∃ o' ∈ opened, o'.index = d.code.size + k) ∨
      i.op.Routed (d.patch xs o target) (d.code.size + k)) ∧ i.op.var? = none) :
    (⟨d.store, d.patch xs o target, opened ++ rest⟩ : Draft).Wired := by
  have hmem : o ∈ d.openings := by
    rw [hd]
    exact List.mem_cons_self
  refine h.step hd' (Store.Within.refl _) (carries_patch xs target h.toCoherent hmem) ?_ ?_ ?_
  · intro c hc hclosed
    rw [Chain.op?, get?_patch_of_ne xs target (hclosed o hmem).symm hc]
    rfl
  · intro o' ho'
    rw [hd] at ho'
    rcases List.mem_cons.mp ho' with rfl | houter
    · refine .inr fun op hop => ?_
      rw [Chain.op?_of_get? (get?_patch_self xs target h.toCoherent hmem)] at hop
      obtain rfl := Option.some.inj hop
      exact ho
    · rcases hrest o' houter with hkept | hloop
      · exact .inl (List.mem_append_right _ hkept)
      · -- A loop head that is dropped has no target, and needs none.
        refine .inr fun op hop => ?_
        have hindex := h.outer_lt o outer hd o' houter
        have hmem' : o' ∈ d.openings := by
          rw [hd]
          exact List.mem_cons_of_mem o houter
        rw [Chain.op?, get?_patch_of_ne xs target (Nat.ne_of_lt hindex) (h.lt_size o' hmem'),
          h.pending o' hmem', hloop] at hop
        obtain rfl := Option.some.inj hop
        trivial
  · intro k op hop
    rw [op?_patch_add xs target h.toCoherent hmem k] at hop
    obtain ⟨i, hi, rfl⟩ := Option.map_eq_some_iff.mp hop
    obtain ⟨hrouted, hvar⟩ := hxs k i hi
    refine ⟨hrouted.imp ?_ id, Operation.named_of_var?_eq_none hvar _⟩
    exact fun ⟨o', ho', hindex⟩ => ⟨o', List.mem_append_left _ ho', hindex⟩

/-- An opening that is given an end ahead as its target leads where it may. -/
theorem routed_resolve_of_close (code : Chain Instruction) (role : Role) (c target : Nat)
    (hlt : c < target) (hclose : code.op? target = some .close) :
    (role.jump.resolve target).Routed code c := by
  cases role with
  | branch => exact ⟨hlt, .inr hclose⟩
  | skip => exact .inl ⟨hlt, hclose⟩
  | loop => exact ⟨hlt, hclose⟩

theorem Wired.changes {d d' : Draft} {e : Located Event} (h : d.Wired) (hd : d.Changes e d') :
    d'.Wired := by
  have hd' := h.toCoherent.changes hd
  cases hd with
  | plain e σ hσ =>
      rw [Chain.push_eq_append] at hd' ⊢
      exact h.emitted σ (Store.within_of_after? _ σ _ hσ) (e.instruction σ) [] hd'
        (Operation.named_operation _ σ _ hσ) (.inr (Operation.routed_operation _ _ σ _))
  | branch pos =>
      rw [Draft.openWith, emit, Chain.push_eq_append] at hd' ⊢
      exact h.emitted d.store (Store.Within.refl _) ⟨pos, .branch none⟩
        [⟨.branch, d.code.size, pos⟩] hd' (Operation.named_of_var?_eq_none rfl _)
        (.inl ⟨_, List.mem_singleton_self _, rfl⟩)
  | loop pos =>
      rw [Draft.openWith, emit, Chain.push_eq_append] at hd' ⊢
      exact h.emitted d.store (Store.Within.refl _) ⟨pos, .loop none⟩
        [⟨.loop, d.code.size, pos⟩] hd' (Operation.named_of_var?_eq_none rfl _)
        (.inl ⟨_, List.mem_singleton_self _, rfl⟩)
  | otherwise pos headPos head outer hopenings =>
      rw [Chain.push_eq_append, Chain.push_append] at hd' ⊢
      have hmem : (⟨.branch, head, headPos⟩ : Opening) ∈ d.openings := by
        rw [hopenings]
        exact List.mem_cons_self
      have hmarker := op?_patch_add [⟨pos, .jump none⟩, ⟨pos, .otherwise⟩] (d.code.size + 1)
        h.toCoherent hmem 1
      refine h.patched ⟨.branch, head, headPos⟩ outer outer [⟨.skip, d.code.size, pos⟩] hopenings
        (fun _ ho => .inl ho) [⟨pos, .jump none⟩, ⟨pos, .otherwise⟩] (d.code.size + 1) hd' ?_ ?_
      · exact ⟨Nat.lt_succ_of_lt (h.lt_size _ hmem), .inl hmarker⟩
      · rintro (_ | _ | k) i hi
        · obtain rfl := Option.some.inj hi
          exact ⟨.inl ⟨_, List.mem_singleton_self _, rfl⟩, rfl⟩
        · obtain rfl := Option.some.inj hi
          exact ⟨.inr trivial, rfl⟩
        · cases hi
  | close pos o outer hopenings =>
      rw [Chain.push_eq_append] at hd' ⊢
      have hmem : o ∈ d.openings := by
        rw [hopenings]
        exact List.mem_cons_self
      have hclose := op?_patch_add [⟨pos, .close⟩] d.code.size h.toCoherent hmem 0
      refine h.patched o outer outer [] hopenings (fun _ ho => .inl ho) [⟨pos, .close⟩] d.code.size
        hd' ?_ ?_
      · exact routed_resolve_of_close _ _ _ _ (h.lt_size o hmem) hclose
      · rintro (_ | k) i hi
        · obtain rfl := Option.some.inj hi
          exact ⟨.inr trivial, rfl⟩
        · cases hi
  | closeLoop pos headPos o head outer hopenings =>
      rw [Chain.push_eq_append, Chain.push_append] at hd' ⊢
      have hmem : o ∈ d.openings := by
        rw [hopenings]
        exact List.mem_cons_self
      have hmem' : (⟨.loop, head, headPos⟩ : Opening) ∈ d.openings := by
        rw [hopenings]
        exact List.mem_cons_of_mem o List.mem_cons_self
      have hhead : head < d.code.size := h.lt_size _ hmem'
      have hclose := op?_patch_add [⟨pos, .jump (some head)⟩, ⟨pos, .close⟩] (d.code.size + 1)
        h.toCoherent hmem 1
      refine h.patched o (⟨.loop, head, headPos⟩ :: outer) outer [] hopenings ?_
        [⟨pos, .jump (some head)⟩, ⟨pos, .close⟩] (d.code.size + 1) hd' ?_ ?_
      · intro o' ho'
        rcases List.mem_cons.mp ho' with rfl | ho'
        · exact .inr rfl
        · exact .inl ho'
      · exact routed_resolve_of_close _ _ _ _ (Nat.lt_succ_of_lt (h.lt_size o hmem)) hclose
      · rintro (_ | _ | k) i hi
        · obtain rfl := Option.some.inj hi
          have hinner : head ≠ o.index :=
            Nat.ne_of_lt (h.outer_lt o _ hopenings ⟨.loop, head, headPos⟩ List.mem_cons_self)
          have hloop := get?_patch_of_ne [⟨pos, .jump (some head)⟩, ⟨pos, .close⟩]
            (d.code.size + 1) hinner hhead
          rw [h.pending _ hmem'] at hloop
          exact ⟨.inr (.inr ⟨hhead, ⟨none, Chain.op?_of_get? hloop⟩, hclose⟩), rfl⟩
        · obtain rfl := Option.some.inj hi
          exact ⟨.inr trivial, rfl⟩
        · cases hi

/-- What becomes of the instructions of a draft: all stay as they are, or the jump of the
innermost opening, which has no target yet, gets one and is open no longer. -/
inductive Patches (d d' : Draft) : Prop where
  | nothing (h : ∀ c i, d.code.get? c = some i → d'.code.get? c = some i)
  | innermost (o : Opening) (outer : List Opening) (target : Nat) (hd : d.openings = o :: outer)
      (before : d.code.get? o.index = some ⟨o.pos, o.role.jump⟩)
      (after : d'.code.get? o.index = some ⟨o.pos, o.role.jump.resolve target⟩)
      (closed : ∀ o' ∈ d'.openings, o'.index ≠ o.index)
      (others : ∀ c i, c ≠ o.index → d.code.get? c = some i → d'.code.get? c = some i)

theorem patches_patch {d : Draft} (h : d.Coherent) (o : Opening) (outer openings : List Opening)
    (hd : d.openings = o :: outer) (xs : List Instruction) (target : Nat)
    (hopenings : ∀ o' ∈ openings, o' ∈ outer ∨ o'.index = d.code.size) :
    d.Patches ⟨d.store, d.patch xs o target, openings⟩ := by
  have hmem : o ∈ d.openings := by
    rw [hd]
    exact List.mem_cons_self
  refine .innermost o outer target hd (h.pending o hmem) (get?_patch_self xs target h hmem) ?_ ?_
  · intro o' ho'
    rcases hopenings o' ho' with houter | hsize
    · exact Nat.ne_of_lt (h.outer_lt o outer hd o' houter)
    · rw [hsize]
      exact Nat.ne_of_gt (h.lt_size o hmem)
  · intro c i hc hi
    exact (get?_patch_of_ne xs target hc (d.code.lt_size_of_get? c i hi)).trans hi

theorem patches_append {d : Draft} (σ : Store) (xs : List Instruction) (openings : List Opening) :
    d.Patches ⟨σ, d.code.append xs, openings⟩ := by
  refine .nothing fun c i hi => ?_
  rw [Chain.get?_append_of_lt _ _ _ (d.code.lt_size_of_get? c i hi), hi]

theorem patches_of_changes {d d' : Draft} {e : Located Event} (h : d.Coherent)
    (hd : d.Changes e d') : d.Patches d' := by
  cases hd with
  | plain e σ hσ =>
      rw [Chain.push_eq_append]
      exact patches_append σ _ _
  | branch pos | loop pos =>
      rw [Draft.openWith, emit, Chain.push_eq_append]
      exact patches_append _ _ _
  | otherwise pos headPos head outer hopenings =>
      rw [Chain.push_eq_append, Chain.push_append]
      refine patches_patch h ⟨.branch, head, headPos⟩ outer _ hopenings _ _ fun o ho => ?_
      rcases List.mem_cons.mp ho with rfl | ho
      · exact .inr rfl
      · exact .inl ho
  | close pos o outer hopenings =>
      rw [Chain.push_eq_append]
      exact patches_patch h o outer _ hopenings _ _ fun _ ho => .inl ho
  | closeLoop pos headPos o head outer hopenings =>
      rw [Chain.push_eq_append, Chain.push_append]
      exact patches_patch h o _ _ hopenings _ _ fun _ ho => .inl (List.mem_cons_of_mem _ ho)

/-- What is opened is new. -/
theorem openings_of_changes {d d' : Draft} {e : Located Event} (hd : d.Changes e d')
    (o : Opening) (ho : o ∈ d'.openings) : o ∈ d.openings ∨ o.index = d.code.size := by
  cases hd with
  | plain e σ hσ => exact .inl ho
  | branch pos | loop pos =>
      rcases List.mem_cons.mp ho with rfl | ho
      · exact .inr rfl
      · exact .inl ho
  | otherwise pos headPos head outer hopenings =>
      rw [hopenings]
      rcases List.mem_cons.mp ho with rfl | ho
      · exact .inr rfl
      · exact .inl (List.mem_cons_of_mem _ ho)
  | close pos o' outer hopenings =>
      rw [hopenings]
      exact .inl (List.mem_cons_of_mem _ ho)
  | closeLoop pos headPos o' head outer hopenings =>
      rw [hopenings]
      exact .inl (List.mem_cons_of_mem _ (List.mem_cons_of_mem _ ho))

/-- An instruction that is not open stays as it is, and is not opened. -/
theorem settled_of_changes {d d' : Draft} {e : Located Event} (h : d.Coherent)
    (hd : d.Changes e d') (c : Nat) (i : Instruction) (hi : d.code.get? c = some i)
    (hc : ∀ o ∈ d.openings, o.index ≠ c) :
    d'.code.get? c = some i ∧ ∀ o ∈ d'.openings, o.index ≠ c := by
  refine ⟨?_, fun o ho => ?_⟩
  · cases patches_of_changes h hd with
    | nothing hkept => exact hkept c i hi
    | innermost o outer target hopenings before after closed others =>
        refine others c i (hc o ?_).symm hi
        rw [hopenings]
        exact List.mem_cons_self
  · rcases openings_of_changes hd o ho with hold | hnew
    · exact hc o hold
    · rw [hnew]
      exact Nat.ne_of_gt (d.code.lt_size_of_get? c i hi)

theorem wired_foldl_absorb (es : List (Located Event)) : (es.foldl absorb empty).Wired :=
  foldl_absorb_induction (fun _ _ _ h => h.changes) es empty wired_empty

theorem finish_eq_ok_iff (d : Draft) (p : Program) :
    d.finish = .ok p ↔ d.openings = [] ∧ p = ⟨d.code, d.store⟩ := by
  rw [finish, ← unterminated?_eq_none_iff]
  cases unterminated? d.openings with
  | none => simp [eq_comm]
  | some cause => simp

end Draft

/-- Every operation of a program leads where it may, and every variable that is named is
there. -/
structure Program.Routed (p : Program) : Prop where
  routed : ∀ c op, p.code.op? c = some op → op.Routed p.code c
  named : ∀ c op, p.code.op? c = some op → op.Named p.store

namespace Draft

theorem Wired.routed_of_finish {d : Draft} (h : d.Wired) (p : Program) (hp : d.finish = .ok p) :
    p.Routed := by
  obtain ⟨hopenings, rfl⟩ := (d.finish_eq_ok_iff p).mp hp
  refine ⟨fun c op hop => ?_, h.named⟩
  refine (h.routed c op hop).resolve_left ?_
  rintro ⟨o, ho, -⟩
  simp [hopenings] at ho

/-- A draft that keeps track of its jumps. -/
structure Orderly (d : Draft) : Prop where
  /-- From the outermost opening to the innermost, indices rise. -/
  rising : (d.openings.reverse.map Opening.index).Pairwise (· < ·)
  /-- At each of them there is a jump without a target. -/
  pending : ∀ o ∈ d.openings, o.index < d.code.size ∧
    d.code.get? o.index = some ⟨o.pos, o.role.jump⟩
  /-- What is not open has a target, unless it is a loop head or no jump at all. -/
  resolved : ∀ c op, d.code.op? c = some op → (∀ o ∈ d.openings, o.index ≠ c) →
    op ≠ .branch none ∧ op ≠ .jump none
  /-- Whatever comes next, only a jump without a target is given one. -/
  patches : ∀ e, d.Patches (d.absorb e)
  /-- Whatever comes later, what is not open stays as it is. -/
  settled : ∀ c i, d.code.get? c = some i → (∀ o ∈ d.openings, o.index ≠ c) →
    ∀ es : List (Located Event), (es.foldl absorb d).code.get? c = some i
  finished : ∀ p, d.finish = .ok p → p.Routed
  unfinished : d.openings ≠ [] → ∃ cause, d.finish = .error cause

theorem Wired.orderly {d : Draft} (hwired : d.Wired) : d.Orderly := by
  constructor
  · rw [List.pairwise_map, List.pairwise_reverse]
    exact hwired.ordered
  · exact fun o ho => ⟨hwired.lt_size o ho, hwired.pending o ho⟩
  · intro c op hop hclosed
    have hrouted := (hwired.routed c op hop).resolve_left fun ⟨o, ho, hc⟩ => hclosed o ho hc
    refine ⟨?_, ?_⟩
    · rintro rfl
      exact hrouted
    · rintro rfl
      exact hrouted
  · intro e
    rcases d.absorb_cases e with hsame | hchanges
    · rw [hsame]
      exact .nothing fun _ _ hi => hi
    · exact patches_of_changes hwired.toCoherent hchanges
  · intro c i hi hclosed fs
    have hkept := foldl_absorb_induction
      (P := fun d' => d'.Coherent ∧ d'.code.get? c = some i ∧ ∀ o ∈ d'.openings, o.index ≠ c)
      (fun d₁ d₂ e h hchanges => ⟨h.1.changes hchanges,
        settled_of_changes h.1 hchanges c i h.2.1 h.2.2⟩)
      fs d ⟨hwired.toCoherent, hi, hclosed⟩
    exact hkept.2.1
  · exact hwired.routed_of_finish
  · intro hopenings
    cases hfinish : d.finish with
    | error cause => exact ⟨cause, rfl⟩
    | ok p => exact absurd ((d.finish_eq_ok_iff p).mp hfinish).1 hopenings

end Draft

namespace Desk

/-- What becomes of the code on a desk: all stays as it is, or the innermost pending jump, which
has no target yet, gets one and is pending no longer. -/
inductive Patches (k k' : Desk) : Prop where
  | nothing (h : ∀ c i, k.code.get? c = some i → k'.code.get? c = some i)
  | innermost (head : Nat) (outer : List Nat) (pos : Position) (jump : Operation) (target : Nat)
      (hk : k.pending = head :: outer) (hjump : jump.Awaits)
      (before : k.code.get? head = some ⟨pos, jump⟩)
      (after : k'.code.get? head = some ⟨pos, jump.resolve target⟩)
      (closed : head ∉ k'.pending)
      (others : ∀ c i, c ≠ head → k.code.get? c = some i → k'.code.get? c = some i)

/-- A desk that keeps track of its jumps, by their indices alone. -/
structure Orderly (k : Desk) : Prop where
  /-- From the outermost pending jump to the innermost, indices rise. -/
  rising : k.pending.reverse.Pairwise (· < ·)
  /-- At each of them there is a jump without a target. -/
  pending : ∀ i ∈ k.pending, i < k.code.size ∧ ∃ op, k.code.op? i = some op ∧ op.Awaits
  /-- What is not pending has a target, unless it is a loop head or no jump at all. -/
  resolved : ∀ c op, k.code.op? c = some op → c ∉ k.pending → op ≠ .branch none ∧ op ≠ .jump none
  /-- Whatever is called for next, a jump without a target is found where one is looked for. -/
  unbroken : ∀ e, (k.attempt e).1 ≠ .error .broken
  /-- And no other instruction is given a target. -/
  patches : ∀ e, k.Patches (k.attempt e).2
  /-- Whatever is called for later, what is not pending stays as it is. -/
  settled : ∀ c i, k.code.get? c = some i → c ∉ k.pending →
    ∀ es, (k.after es).code.get? c = some i
  finished : ∀ p, k.finish = .ok p → p.Routed
  unfinished : k.pending ≠ [] → ∃ cause, k.finish = .error (.refused cause)

end Desk

namespace Draft

theorem not_mem_pending_iff (d : Draft) (c : Nat) :
    c ∉ d.desk.pending ↔ ∀ o ∈ d.openings, o.index ≠ c := by
  simp [desk]

theorem Patches.desk {d d' : Draft} (h : d.Patches d') : d.desk.Patches d'.desk := by
  cases h with
  | nothing h => exact .nothing h
  | innermost o outer target hd before after closed others =>
      refine .innermost o.index (outer.map Opening.index) o.pos o.role.jump target ?_
        o.role.awaits_jump before after ((d'.not_mem_pending_iff _).mpr closed) others
      simp [Draft.desk, hd]

/-- The desk of a draft that keeps track of its jumps keeps track of them as well. -/
theorem Orderly.desk {d : Draft} (h : d.Orderly) (hd : d.Coherent) : d.desk.Orderly where
  rising := by
    have hrising := h.rising
    rwa [List.map_reverse] at hrising
  pending i hi := by
    obtain ⟨o, ho, rfl⟩ := List.mem_map.mp hi
    obtain ⟨hlt, hjump⟩ := h.pending o ho
    exact ⟨hlt, o.role.jump, Chain.op?_of_get? hjump, o.role.awaits_jump⟩
  resolved c op hop hc := h.resolved c op hop ((d.not_mem_pending_iff c).mp hc)
  unbroken e := (attempt_desk hd e).1
  patches e := by
    rw [(attempt_desk hd e).2]
    exact (h.patches e).desk
  settled c i hi hc es := by
    rw [(erase_failures es d hd).1]
    exact h.settled c i hi ((d.not_mem_pending_iff c).mp hc) es
  finished p hp := h.finished p ((finish_desk_eq_ok_iff hd p).mp hp)
  unfinished hpending := by
    obtain ⟨cause, hcause⟩ := h.unfinished fun hopenings =>
      hpending (by simp [Draft.desk, hopenings])
    exact ⟨cause, by rw [finish_desk hd, hcause]; rfl⟩

/-- Events in any order, refused or not, leave a draft that keeps track of its jumps, and so do
calls in any order with a desk. -/
theorem orderly_foldl_absorb (es : List (Located Event)) :
    (es.foldl absorb empty).Orderly ∧ (Desk.after {} es).Orderly := by
  have horderly := (wired_foldl_absorb es).orderly
  refine ⟨horderly, ?_⟩
  rw [Desk.after_empty]
  exact horderly.desk (coherent_foldl_absorb es)

/-- A loop head right inside of another: the end closes both, and only the inner head is
given a target. -/
example : (([⟨.start, .loop⟩, ⟨.start, .loop⟩, ⟨.start, .close⟩] : List (Located Event)).foldl
    absorb empty).code.toList.map Instruction.op =
      [.loop none, .loop (some 3), .jump (some 0), .close] := by
  decide

end Draft

end StackLang
