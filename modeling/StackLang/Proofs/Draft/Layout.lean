import StackLang.Proofs.Draft.Desk

/-!
# Where the jumps of a well-nested sequence go

The jumps of a construct are given their targets long after they were emitted, by events
that know nothing of the construct but the openings. `Occurs c before ns` says that the
nest `c` stands somewhere in `ns`, at any depth, and that the events `before` come ahead
of its first one. `Laid` is the layout that the construct should have, in terms of the
events alone: an instruction is named by the events ahead of the one that emits it.

The main statement is that a draft which refuses none of the plain events takes all
events of a well-nested sequence, can be finished, and has every construct laid out. The
same program comes of a desk, which has to tell the constructs apart by the indices of
their jumps.
-/

namespace StackLang

namespace Draft

/-- The index of the first instruction that the event behind `es` emits. -/
def reach (es : List (Located Event)) : Nat := (es.foldl absorb empty).code.size

theorem reach_of_applyAll (es : List (Located Event)) (d : Draft)
    (h : empty.applyAll es = .ok d) : reach es = d.code.size := by
  rw [reach, foldl_absorb_of_applyAll empty d es h]

theorem reach_append (es fs : List (Located Event)) (d d' : Draft)
    (h : empty.applyAll es = .ok d) (h' : d.applyAll fs = .ok d') :
    reach (es ++ fs) = d'.code.size := by
  apply reach_of_applyAll
  rw [applyAll_append_of_ok empty d es fs h, h']

end Draft

namespace Nest

open Draft

/-- The nest `c` stands in `ns`, behind the events `before`. -/
inductive Occurs (c : Nest) : List (Located Event) → List Nest → Prop
  | here (ns : List Nest) : Occurs c [] (c :: ns)
  | later {before : List (Located Event)} {ns : List Nest} (n : Nest) (h : Occurs c before ns) :
      Occurs c (n.events ++ before) (n :: ns)
  | branch {before : List (Located Event)} {body : List Nest} (head tail : Position)
      (ns : List Nest) (h : Occurs c before body) :
      Occurs c (⟨head, .branch⟩ :: before) (.branch head body tail :: ns)
  | first {before : List (Located Event)} {body : List Nest} (head middle tail : Position)
      (other ns : List Nest) (h : Occurs c before body) :
      Occurs c (⟨head, .branch⟩ :: before) (.choice head body middle other tail :: ns)
  | second {before : List (Located Event)} {other : List Nest} (head middle tail : Position)
      (body ns : List Nest) (h : Occurs c before other) :
      Occurs c (⟨head, .branch⟩ :: (eventsAll body ++ ⟨middle, .otherwise⟩ :: before))
        (.choice head body middle other tail :: ns)
  | loop {before : List (Located Event)} {body : List Nest} (head exit tail : Position)
      (condition : List Plain) (ns : List Nest) (h : Occurs c before body) :
      Occurs c (⟨head, .loop⟩ :: (condition.map Plain.located ++ ⟨exit, .branch⟩ :: before))
        (.loop head condition exit body tail :: ns)

/-- The layout of a nest behind the events `before`:

* a plain event has its instruction;
* a conditional without a second branch skips to its own end;
* one with a second branch skips to its own marker, in front of which the first branch
  leaves for the end;
* a loop has its head without a target, its condition, an exit to its own end, its body,
  and in front of the end a jump back to the head. -/
def Laid (p : Program) (before : List (Located Event)) : Nest → Prop
  | .plain e => p.code.get? (reach before) = some (e.instruction p.store)
  | .branch head body tail =>
    let close := reach (before ++ ⟨head, .branch⟩ :: eventsAll body)
    p.code.get? (reach before) = some ⟨head, .branch (some close)⟩ ∧
      p.code.get? close = some ⟨tail, .close⟩
  | .choice head body middle other tail =>
    let skip := reach (before ++ ⟨head, .branch⟩ :: eventsAll body)
    let close := reach (before ++ ⟨head, .branch⟩ ::
      (eventsAll body ++ ⟨middle, .otherwise⟩ :: eventsAll other))
    p.code.get? (reach before) = some ⟨head, .branch (some (skip + 1))⟩ ∧
      p.code.get? skip = some ⟨middle, .jump (some close)⟩ ∧
      p.code.get? (skip + 1) = some ⟨middle, .otherwise⟩ ∧
      p.code.get? close = some ⟨tail, .close⟩
  | .loop head condition exit body tail =>
    let leave := reach (before ++ ⟨head, .loop⟩ :: condition.map Plain.located)
    let back := reach (before ++ ⟨head, .loop⟩ ::
      (condition.map Plain.located ++ ⟨exit, .branch⟩ :: eventsAll body))
    p.code.get? (reach before) = some ⟨head, .loop none⟩ ∧
      leave = reach before + 1 + condition.length ∧
      p.code.Placed (reach before + 1) (condition.map (Plain.instruction p.store)) ∧
      p.code.get? leave = some ⟨exit, .branch (some (back + 1))⟩ ∧
      p.code.get? back = some ⟨tail, .jump (some (reach before))⟩ ∧
      p.code.get? (back + 1) = some ⟨tail, .close⟩

/-- In the instructions `code`, which `d` lays down, those of `c` start where the draft
stands behind the events `before`. -/
def Found (c : Nest) (τ : Store) (d : Draft) (before : List (Located Event))
    (code : List Instruction) : Prop :=
  ∃ d' σ left right, d.applyAll before = .ok d' ∧ d'.Settled ∧
    d'.store.afterAll? c.plains = some σ ∧ σ.Within τ ∧
    code = left ++ c.code τ d'.code.size ++ right ∧ d'.code.size = d.code.size + left.length

/-- What is found behind some events is found behind more, in a longer piece of code. -/
theorem Found.under {c : Nest} {τ : Store} {d d₁ : Draft} {before : List (Located Event)}
    {code : List Instruction} (h : c.Found τ d₁ before code) (outer : List (Located Event))
    (left right : List Instruction) (houter : ∀ es, d.applyAll (outer ++ es) = d₁.applyAll es)
    (hsize : d₁.code.size = d.code.size + left.length) :
    c.Found τ d (outer ++ before) (left ++ code ++ right) := by
  obtain ⟨d', σ, left', right', hbefore, hsettled, hσ, hτ, hcode, hsize'⟩ := h
  refine ⟨d', σ, left ++ left', right' ++ right, ?_, hsettled, hσ, hτ, ?_, ?_⟩
  · rw [houter, hbefore]
  · simp [hcode]
  · rw [hsize', hsize, List.length_append, Nat.add_assoc]

theorem Occurs.found {c : Nest} {before : List (Located Event)} {ns : List Nest}
    (h : Occurs c before ns) : ∀ (d : Draft) (σ τ : Store), d.Settled →
      d.store.afterAll? (plainsAll ns) = some σ → σ.Within τ →
      c.Found τ d before (codeAll τ d.code.size ns) := by
  induction h with
  | here ns =>
      intro d σ τ hd hσ hτ
      obtain ⟨υ, hυ, -, hυσ⟩ := Store.split_of_afterAll?_append _ _ _ _ hσ
      exact ⟨d, υ, [], _, rfl, hd, hυ, hυσ.trans hτ, rfl, rfl⟩
  | @later before ns n h ih =>
      intro d σ τ hd hσ hτ
      obtain ⟨υ, hυ, hrest, hυσ⟩ := Store.split_of_afterAll?_append _ _ _ _ hσ
      have htakes := (n.lays d hd).takes υ hυ τ (hυσ.trans hτ)
      have hfound := ih { d with store := υ, code := d.code.append (n.code τ d.code.size) } σ τ hd
        hrest hτ
      have hall := hfound.under n.events (n.code τ d.code.size) []
        (fun es => applyAll_append_of_ok d _ _ es htakes) (by simp)
      simpa [codeAll] using hall
  | @branch before body head tail ns h ih =>
      intro d σ τ hd hσ hτ
      obtain ⟨υ, hυ, -, hυσ⟩ := Store.split_of_afterAll?_append _ _ _ _ hσ
      have hfound := ih (d.openWith .branch head (.branch none)) υ τ
        (d.settled_openWith _ _ _ (by simp)) hυ (hυσ.trans hτ)
      have hall := hfound.under [⟨head, .branch⟩]
        [⟨head, .branch (some (d.code.size + 1 + sizeAll body))⟩]
        (⟨tail, .close⟩ :: codeAll τ (d.code.size + size (.branch head body tail)) ns)
        (d.applyAll_branch head) (size_openWith _ _ _ _)
      simpa [codeAll, code] using hall
  | @first before body head middle tail other ns h ih =>
      intro d σ τ hd hσ hτ
      obtain ⟨υ, hυ, -, hυσ⟩ := Store.split_of_afterAll?_append _ _ _ _ hσ
      obtain ⟨χ, hχ, -, hχυ⟩ := Store.split_of_afterAll?_append _ _ _ _ hυ
      have hfound := ih (d.openWith .branch head (.branch none)) χ τ
        (d.settled_openWith _ _ _ (by simp)) hχ ((hχυ.trans hυσ).trans hτ)
      have hall := hfound.under [⟨head, .branch⟩]
        [⟨head, .branch (some (d.code.size + 1 + sizeAll body + 1))⟩]
        (⟨middle, .jump (some (d.code.size + 1 + sizeAll body + 2 + sizeAll other))⟩ ::
          ⟨middle, .otherwise⟩ :: (codeAll τ (d.code.size + 1 + sizeAll body + 2) other ++
            ⟨tail, .close⟩ :: codeAll τ (d.code.size + size (.choice head body middle other tail)) ns))
        (d.applyAll_branch head) (size_openWith _ _ _ _)
      simpa [codeAll, code] using hall
  | @second before other head middle tail body ns h ih =>
      intro d σ τ hd hσ hτ
      obtain ⟨υ, hυ, -, hυσ⟩ := Store.split_of_afterAll?_append _ _ _ _ hσ
      obtain ⟨χ, hχ, hother, hχυ⟩ := Store.split_of_afterAll?_append _ _ _ _ hυ
      have hbody := laysAll body _ (d.settled_openWith .branch head (.branch none) (by simp))
      have hn : (codeAll τ (d.code.size + 1) body).length = sizeAll body := length_codeAll τ _ body
      have hfound := ih (d.divided head middle (sizeAll body) χ (codeAll τ (d.code.size + 1) body))
        υ τ (settled_of_cons _ _ d.openings rfl (by simp)) hother (hυσ.trans hτ)
      have hall := hfound.under
        (⟨head, .branch⟩ :: (eventsAll body ++ [⟨middle, .otherwise⟩]))
        (⟨head, .branch (some (d.code.size + 1 + sizeAll body + 1))⟩ ::
          (codeAll τ (d.code.size + 1) body ++
            [⟨middle, .jump (some (d.code.size + 1 + sizeAll body + 2 + sizeAll other))⟩,
              ⟨middle, .otherwise⟩]))
        (⟨tail, .close⟩ :: codeAll τ (d.code.size + size (.choice head body middle other tail)) ns)
        (fun es => by
          have hdivided := d.applyAll_divided head middle (fun τ => length_codeAll τ _ body) hbody
            χ τ hχ ((hχυ.trans hυσ).trans hτ) es
          simpa using hdivided)
        (by rw [size_divided d head middle χ _ hn]; simp; omega)
      rw [size_divided d head middle χ _ hn] at hall
      simpa [codeAll, code] using hall
  | @loop before body head exit tail condition ns h ih =>
      intro d σ τ hd hσ hτ
      obtain ⟨υ, hυ, -, hυσ⟩ := Store.split_of_afterAll?_append _ _ _ _ hσ
      obtain ⟨χ, hχ, hbody, hχυ⟩ := Store.split_of_afterAll?_append _ _ _ _ hυ
      have hfound := ih (d.entered head exit χ (condition.map (Plain.instruction τ))) υ τ
        (settled_of_cons _ _ _ rfl (by simp)) hbody (hυσ.trans hτ)
      have hall := hfound.under
        (⟨head, .loop⟩ :: (condition.map Plain.located ++ [⟨exit, .branch⟩]))
        (⟨head, .loop none⟩ :: (condition.map (Plain.instruction τ) ++
          [⟨exit, .branch (some (d.code.size + 1 + condition.length + 1 + sizeAll body + 1))⟩]))
        (⟨tail, .jump (some d.code.size)⟩ :: ⟨tail, .close⟩ ::
          codeAll τ (d.code.size + size (.loop head condition exit body tail)) ns)
        (fun es => by
          have hentered := d.applyAll_entered head exit condition χ τ hχ
            ((hχυ.trans hυσ).trans hτ) es
          simpa using hentered)
        (by rw [size_entered]; simp; omega)
      rw [size_entered, List.length_map] at hall
      simpa [codeAll, code] using hall

/-- A nest whose code lies where its first event finds the draft is laid out. -/
theorem laid_of_placed (c : Nest) (p : Program) (before : List (Located Event)) (d : Draft)
    (σ : Store) (hbefore : empty.applyAll before = .ok d)
    (hσ : d.store.afterAll? c.plains = some σ) (hwithin : σ.Within p.store)
    (hplaced : p.code.Placed d.code.size (c.code p.store d.code.size)) : c.Laid p before := by
  have hreach : reach before = d.code.size := reach_of_applyAll before d hbefore
  cases c with
  | plain e =>
      rw [Laid, hreach]
      exact hplaced.head
  | branch head body tail =>
      have hbody := laysAll body _ (d.settled_openWith .branch head (.branch none) (by simp))
      have hclose : reach (before ++ ⟨head, .branch⟩ :: eventsAll body) =
          d.code.size + 1 + sizeAll body := by
        rw [reach_append before _ d _ hbefore
          ((d.applyAll_branch head _).trans (hbody.takes σ hσ _ hwithin))]
        simp
      simp only [Laid, hreach, hclose]
      have hend := hplaced.tail.right.head
      rw [length_codeAll] at hend
      exact ⟨hplaced.head, hend⟩
  | choice head body middle other tail =>
      obtain ⟨υ, hυ, hother, hυσ⟩ := Store.split_of_afterAll?_append _ _ _ _ hσ
      have hbody := laysAll body _ (d.settled_openWith .branch head (.branch none) (by simp))
      rw [size_openWith] at hbody
      have hskip : reach (before ++ ⟨head, .branch⟩ :: eventsAll body) =
          d.code.size + 1 + sizeAll body := by
        rw [reach_append before _ d _ hbefore
          ((d.applyAll_branch head _).trans (hbody.takes υ hυ _ (hυσ.trans hwithin)))]
        simp
      have hclose : reach (before ++ ⟨head, .branch⟩ ::
          (eventsAll body ++ ⟨middle, .otherwise⟩ :: eventsAll other)) =
          d.code.size + 1 + sizeAll body + 2 + sizeAll other := by
        have hdivided := d.applyAll_divided head middle (fun τ => length_codeAll τ _ body) hbody υ
          p.store hυ (hυσ.trans hwithin) (eventsAll other)
        have hrest := laysAll other (d.divided head middle (sizeAll body) υ
          (codeAll p.store (d.code.size + 1) body)) (settled_of_cons _ _ d.openings rfl (by simp))
        rw [reach_append before _ d _ hbefore (hdivided.trans (hrest.takes σ hother _ hwithin)),
          Chain.size_append, length_codeAll,
          size_divided d head middle υ _ (length_codeAll p.store _ body)]
      simp only [Laid, hreach, hskip, hclose]
      have hmiddle := hplaced.tail.right
      rw [length_codeAll] at hmiddle
      have hend := hmiddle.tail.tail.right.head
      rw [length_codeAll] at hend
      exact ⟨hplaced.head, hmiddle.head, hmiddle.tail.head, hend⟩
  | loop head condition exit body tail =>
      obtain ⟨υ, hυ, hbody, hυσ⟩ := Store.split_of_afterAll?_append _ _ _ _ hσ
      have hcondition := (d.openWith .loop head (.loop none)).lays_plains condition
      have hleave : reach (before ++ ⟨head, .loop⟩ :: condition.map Plain.located) =
          d.code.size + 1 + condition.length := by
        rw [reach_append before _ d _ hbefore
          ((d.applyAll_loop head _).trans (hcondition.takes υ hυ _ (hυσ.trans hwithin)))]
        simp
      have hback : reach (before ++ ⟨head, .loop⟩ ::
          (condition.map Plain.located ++ ⟨exit, .branch⟩ :: eventsAll body)) =
          d.code.size + 1 + condition.length + 1 + sizeAll body := by
        have hentered := d.applyAll_entered head exit condition υ p.store hυ (hυσ.trans hwithin)
          (eventsAll body)
        have hrest := laysAll body (d.entered head exit υ (condition.map (Plain.instruction p.store)))
          (settled_of_cons _ _ _ rfl (by simp))
        rw [reach_append before _ d _ hbefore (hentered.trans (hrest.takes σ hbody _ hwithin)),
          Chain.size_append, length_codeAll, size_entered, List.length_map]
      simp only [Laid, hreach, hleave, hback]
      have hexit := hplaced.tail.right
      rw [List.length_map] at hexit
      have hend := hexit.tail.right
      rw [length_codeAll] at hend
      exact ⟨hplaced.head, trivial, hplaced.tail.left, hexit.head, hend.head, hend.tail.head⟩

end Nest

namespace Draft

/-- If events are refused, one of them is refused where all before it were taken. -/
theorem exists_refused (d : Draft) (es : List (Located Event)) (cause : Located DraftError)
    (h : d.applyAll es = .error cause) :
    ∃ before e after d', es = before ++ e :: after ∧ d.applyAll before = .ok d' ∧
      d'.apply e = .error cause := by
  induction es generalizing d with
  | nil => simp at h
  | cons e es ih =>
      rw [applyAll] at h
      cases happly : d.apply e with
      | error other =>
          rw [happly] at h
          obtain rfl := Except.error.inj h
          exact ⟨[], e, es, d, rfl, rfl, happly⟩
      | ok d₁ =>
          rw [happly] at h
          obtain ⟨before, e', after, d', rfl, hbefore, hrefused⟩ := ih d₁ h
          have hall : d.applyAll (e :: before) = .ok d' := by
            rw [applyAll_cons_of_apply d d₁ e before happly, hbefore]
          exact ⟨e :: before, e', after, d', rfl, hall, hrefused⟩

/-- A control event is refused for a lack of balance only. -/
theorem unbalanced_of_apply_control (d : Draft) (e : Located Event) (cause : Located DraftError)
    (he : e.item.isControl = true) (h : d.apply e = .error cause) :
    ∃ i, cause.item = .unbalanced i := by
  rcases e with ⟨pos, event⟩
  cases event with
  | branch | loop => simp [apply, take, Except.mapError] at h
  | otherwise =>
      simp only [apply, take, otherwise] at h
      split at h
      · simp [Except.mapError] at h
      · obtain rfl := Except.error.inj h
        exact ⟨_, rfl⟩
  | close =>
      simp only [apply, take, close] at h
      split at h
      · obtain rfl := Except.error.inj h
        exact ⟨_, rfl⟩
      · simp [Except.mapError] at h
      · simp [Except.mapError] at h
  | declare | target | read | integer | string | operator | assign | print =>
      simp [Event.isControl] at he

/-- Of events that are all taken, each is taken behind those before it. -/
theorem taken_of_applyAll (d d' : Draft) (es : List (Located Event)) (h : d.applyAll es = .ok d')
    (before : List (Located Event)) (e : Located Event) (after : List (Located Event))
    (hes : es = before ++ e :: after) (d₁ : Draft) (hbefore : d.applyAll before = .ok d₁) :
    ∃ d₂, d₁.apply e = .ok d₂ := by
  rw [hes, applyAll_append_of_ok d d₁ before _ hbefore, applyAll] at h
  cases happly : d₁.apply e with
  | ok d₂ => exact ⟨d₂, rfl⟩
  | error cause => simp [happly] at h

end Draft

namespace Desk

/-- All calls for the events succeed and leave the program `p`; the index that an event reaches
is that of the next instruction on the desk. -/
structure Yields (es : List (Located Event)) (p : Program) : Prop where
  succeeded : ∀ x ∈ log {} es, x.2 = .ok ()
  finished : (after {} es).finish = .ok p
  reached : ∀ before, Draft.reach before = (after {} before).code.size

theorem log_of_applyAll (es : List (Located Event)) (d d' : Draft) (hd : d.Coherent)
    (h : d.applyAll es = .ok d') : ∀ x ∈ d.desk.log es, x.2 = .ok () := by
  induction es generalizing d with
  | nil => simp [log]
  | cons e es ih =>
      obtain ⟨d₁, happly, hrest⟩ := Draft.exists_of_applyAll_cons h
      have hattempt := Draft.attempt_desk_of_ok hd happly
      intro x hx
      rw [log, hattempt] at hx
      rcases List.mem_cons.mp hx with rfl | hx
      · rfl
      · exact ih d₁ (hd.changes (d.changes_of_apply d₁ e happly)) hrest x hx

theorem yields_of_applyAll {es : List (Located Event)} {d : Draft} {p : Program}
    (h : Draft.empty.applyAll es = .ok d) (hp : d.finish = .ok p) : Yields es p where
  succeeded := log_of_applyAll es Draft.empty d Draft.coherent_empty h
  finished := by
    rw [finish_after, Draft.foldl_absorb_of_applyAll _ _ _ h, hp]
    rfl
  reached before := by
    rw [after_empty]
    rfl

end Desk

namespace Nest

open Draft

/-- Well-nested events of which no plain one is refused are all taken, the draft can be
finished, and every construct among them, however deep, has its jumps in place. A desk takes
the same events, to the same program. -/
theorem every_construct_laid (ns : List Nest)
    (h : ∀ before e after d, eventsAll ns = before ++ e :: after → e.item.isControl = false →
      Draft.empty.applyAll before = .ok d → ∃ d', d.apply e = .ok d') :
    ∃ d p, Draft.empty.applyAll (eventsAll ns) = .ok d ∧ d.finish = .ok p ∧
      (∀ c before, Occurs c before ns → c.Laid p before) ∧ Desk.Yields (eventsAll ns) p := by
  have hlays := laysAll ns Draft.empty settled_empty
  cases hstore : Draft.empty.store.afterAll? (plainsAll ns) with
  | none =>
      obtain ⟨cause, hcause, p, -, hrefusal⟩ := hlays.refuses hstore
      obtain ⟨before, e, after, d, hes, hbefore, hrefused⟩ := exists_refused _ _ cause hcause
      cases hcontrol : e.item.isControl with
      | false =>
          obtain ⟨d', hd'⟩ := h before e after d hes hcontrol hbefore
          simp [hrefused] at hd'
      | true =>
          obtain ⟨i, hi⟩ := unbalanced_of_apply_control d e cause hcontrol hrefused
          exact absurd hi (hrefusal.ne_unbalanced i)
  | some σ =>
      have htakes := hlays.takes σ hstore σ (Store.Within.refl σ)
      refine ⟨_, ⟨_, σ⟩, htakes, rfl, ?_, Desk.yields_of_applyAll htakes rfl⟩
      intro c before hoccurs
      obtain ⟨d', σ', left, right, hbefore, -, hplains, hwithin, hcode, hsize⟩ :=
        hoccurs.found Draft.empty σ σ settled_empty hstore (Store.Within.refl σ)
      refine c.laid_of_placed _ before d' σ' hbefore hplains hwithin ?_
      have hleft : left.length = d'.code.size := by
        rw [hsize]
        exact (Nat.zero_add _).symm
      rw [← hleft]
      apply Chain.placed_of_toList _ left _ right
      rw [Chain.toList_append, hcode, hleft]
      rfl

/-- A loop around a conditional with two branches, the second of which holds a loop. -/
def loopAroundChoice : List Nest :=
  [.plain ⟨⟨1, 1⟩, .declare .integer "x", rfl⟩,
    .loop ⟨2, 1⟩ [⟨⟨2, 7⟩, .read "x", rfl⟩, ⟨⟨2, 11⟩, .integer "3", rfl⟩, ⟨⟨2, 9⟩, .operator "<", rfl⟩]
      ⟨2, 1⟩
      [.plain ⟨⟨3, 6⟩, .read "x", rfl⟩,
        .choice ⟨3, 3⟩ [.plain ⟨⟨4, 5⟩, .print, rfl⟩] ⟨5, 3⟩
          [.loop ⟨6, 5⟩ [] ⟨6, 5⟩ [.branch ⟨7, 7⟩ [] ⟨7, 9⟩] ⟨8, 5⟩] ⟨9, 3⟩]
      ⟨10, 1⟩]

theorem every_construct_laid_loopAroundChoice :
    ∃ d p, Draft.empty.applyAll (eventsAll loopAroundChoice) = .ok d ∧ d.finish = .ok p ∧
      (∀ c before, Occurs c before loopAroundChoice → c.Laid p before) ∧
        Desk.Yields (eventsAll loopAroundChoice) p := by
  have htaken : (Draft.empty.applyAll (eventsAll loopAroundChoice)).isOk = true := by
    decide +kernel
  cases hd : Draft.empty.applyAll (eventsAll loopAroundChoice) with
  | error cause => simp [hd, Except.isOk, Except.toBool] at htaken
  | ok d' =>
      rw [← hd]
      exact every_construct_laid loopAroundChoice fun before e after d hes _ hbefore =>
        taken_of_applyAll _ d' _ hd before e after hes d hbefore

end Nest

end StackLang
