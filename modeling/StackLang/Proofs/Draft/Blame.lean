import StackLang.Proofs.Draft.Jumps
import StackLang.Proofs.Draft.Layout

/-!
# What an unfinished draft is blamed on

A draft that stops somewhere in a well-nested sequence of events may have constructs open.
`Leaves ns es os` says which: of the events of `ns` those in `es` have come, and `os` lists
the constructs that are open behind them, the innermost first, each as what it lacks and the
position that it is to be blamed at. The draft has only its openings to tell. A conditional
jump among them belongs to a conditional or to a loop, and which of the two it is shows in
the opening below it, as long as no loop head lies on top where a construct starts.

The main statement is that a draft can be finished if nothing is open, and is otherwise
blamed on the innermost construct that is. Plain events may be refused on the way. A desk
has even less to tell, the indices of the pending jumps, and is blamed on the same.
-/

namespace StackLang

namespace Nest

/-- Behind the events `es` of `ns`, the constructs in `os` are open, innermost first. -/
inductive Leaves : List Nest → List (Located Event) → List (Located Imbalance) → Prop
  | start (ns : List Nest) : Leaves ns [] []
  | later {ns : List Nest} {es : List (Located Event)} {os : List (Located Imbalance)} (n : Nest)
      (h : Leaves ns es os) : Leaves (n :: ns) (n.events ++ es) os
  | branch {body : List Nest} {es : List (Located Event)} {os : List (Located Imbalance)}
      (head tail : Position) (ns : List Nest) (h : Leaves body es os) :
      Leaves (.branch head body tail :: ns) (⟨head, .branch⟩ :: es)
        (os ++ [⟨head, .unterminatedBranch⟩])
  | first {body : List Nest} {es : List (Located Event)} {os : List (Located Imbalance)}
      (head middle tail : Position) (other ns : List Nest) (h : Leaves body es os) :
      Leaves (.choice head body middle other tail :: ns) (⟨head, .branch⟩ :: es)
        (os ++ [⟨head, .unterminatedBranch⟩])
  | second {other : List Nest} {es : List (Located Event)} {os : List (Located Imbalance)}
      (head middle tail : Position) (body ns : List Nest) (h : Leaves other es os) :
      Leaves (.choice head body middle other tail :: ns)
        (⟨head, .branch⟩ :: (eventsAll body ++ ⟨middle, .otherwise⟩ :: es))
        (os ++ [⟨middle, .unterminatedOtherwise⟩])
  | condition (head exit tail : Position) (done rest : List Plain) (body ns : List Nest) :
      Leaves (.loop head (done ++ rest) exit body tail :: ns)
        (⟨head, .loop⟩ :: done.map Plain.located) [⟨head, .unterminatedLoop⟩]
  | loop {body : List Nest} {es : List (Located Event)} {os : List (Located Imbalance)}
      (head exit tail : Position) (condition : List Plain) (ns : List Nest)
      (h : Leaves body es os) :
      Leaves (.loop head condition exit body tail :: ns)
        (⟨head, .loop⟩ :: (condition.map Plain.located ++ ⟨exit, .branch⟩ :: es))
        (os ++ [⟨head, .unterminatedLoop⟩])

theorem leaves_events (n : Nest) (ns : List Nest) : Leaves (n :: ns) n.events [] := by
  have hlater := Leaves.later n (Leaves.start ns)
  rwa [List.append_nil] at hlater

/-- What is cut off behind two pieces in a row is cut off inside of the first, or in the second
with the first complete. -/
theorem cut_append {α : Type} {es xs ys : List α} (h : es <+: xs ++ ys) :
    es <+: xs ∨ ∃ fs, fs <+: ys ∧ es = xs ++ fs := by
  obtain ⟨more, hmore⟩ := h
  rcases List.append_eq_append_iff.mp hmore with ⟨as, hxs, -⟩ | ⟨fs, hes, hys⟩
  · exact .inl ⟨as, hxs.symm⟩
  · exact .inr ⟨fs, ⟨more, hys.symm⟩, hes⟩

/-- With a bracket between the pieces, it comes with the second. -/
theorem cut_append_cons {α : Type} {es xs ys : List α} {y : α} (h : es <+: xs ++ y :: ys) :
    es <+: xs ∨ ∃ fs, fs <+: ys ∧ es = xs ++ y :: fs := by
  rcases cut_append h with hxs | ⟨gs, hgs, rfl⟩
  · exact .inl hxs
  rcases List.prefix_cons_iff.mp hgs with rfl | ⟨fs, rfl, hfs⟩
  · exact .inl ⟨[], by rw [List.append_nil, List.append_nil]⟩
  · exact .inr ⟨fs, hfs, rfl⟩

mutual

/-- Wherever the events of a nest are cut, something can be said of what is open. -/
theorem exists_leaves : ∀ (n : Nest) (es : List (Located Event)), es <+: n.events →
    ∀ ns, ∃ os, Leaves (n :: ns) es os
  | .plain e, es, h, ns => by
      rcases List.prefix_cons_iff.mp h with rfl | ⟨fs, rfl, hfs⟩
      · exact ⟨[], .start _⟩
      · obtain rfl := List.prefix_nil.mp hfs
        exact ⟨[], leaves_events (.plain e) ns⟩
  | .branch head body tail, es, h, ns => by
      rcases List.prefix_cons_iff.mp h with rfl | ⟨fs, rfl, hfs⟩
      · exact ⟨[], .start _⟩
      rcases List.prefix_concat_iff.mp hfs with rfl | hbody
      · exact ⟨[], leaves_events (.branch head body tail) ns⟩
      · obtain ⟨os, hos⟩ := exists_leavesAll body fs hbody
        exact ⟨_, .branch head tail ns hos⟩
  | .choice head body middle other tail, es, h, ns => by
      rcases List.prefix_cons_iff.mp h with rfl | ⟨fs, rfl, hfs⟩
      · exact ⟨[], .start _⟩
      rcases cut_append_cons hfs with hbody | ⟨gs, hgs, rfl⟩
      · obtain ⟨os, hos⟩ := exists_leavesAll body fs hbody
        exact ⟨_, .first head middle tail other ns hos⟩
      rcases List.prefix_concat_iff.mp hgs with rfl | hother
      · exact ⟨[], leaves_events (.choice head body middle other tail) ns⟩
      · obtain ⟨os, hos⟩ := exists_leavesAll other gs hother
        exact ⟨_, .second head middle tail body ns hos⟩
  | .loop head condition exit body tail, es, h, ns => by
      rcases List.prefix_cons_iff.mp h with rfl | ⟨fs, rfl, hfs⟩
      · exact ⟨[], .start _⟩
      rcases cut_append_cons hfs with hcondition | ⟨gs, hgs, rfl⟩
      · obtain ⟨done, ⟨rest, rfl⟩, rfl⟩ := List.prefix_map_iff.mp hcondition
        exact ⟨_, .condition head exit tail done rest body ns⟩
      rcases List.prefix_concat_iff.mp hgs with rfl | hbody
      · exact ⟨[], leaves_events (.loop head condition exit body tail) ns⟩
      · obtain ⟨os, hos⟩ := exists_leavesAll body gs hbody
        exact ⟨_, .loop head exit tail condition ns hos⟩

theorem exists_leavesAll : ∀ (ns : List Nest) (es : List (Located Event)), es <+: eventsAll ns →
    ∃ os, Leaves ns es os
  | [], es, h => by
      obtain rfl := List.prefix_nil.mp h
      exact ⟨[], .start []⟩
  | n :: ns, es, h => by
      rcases cut_append h with hn | ⟨fs, hfs, rfl⟩
      · exact exists_leaves n es hn ns
      · obtain ⟨os, hos⟩ := exists_leavesAll ns fs hfs
        exact ⟨os, .later n hos⟩

end

end Nest

namespace Draft

theorem openings_absorb_plain (d : Draft) (e : Plain) :
    (d.absorb e.located).openings = d.openings := by
  rw [absorb]
  cases hσ : d.store.after? e.event with
  | none =>
      obtain ⟨cause, hcause, -⟩ := d.apply_plain_of_after?_eq_none e hσ
      rw [hcause]
  | some σ => rw [d.apply_plain_of_after?_eq_some e σ σ hσ (Store.Within.refl σ)]

theorem openings_foldl_plains (es : List Plain) (d : Draft) :
    ((es.map Plain.located).foldl absorb d).openings = d.openings := by
  induction es generalizing d with
  | nil => rfl
  | cons e es ih => exact (ih _).trans (d.openings_absorb_plain e)

section Absorb

variable {d : Draft} {o : Opening} {outer : List Opening} {head : Nat} {headPos : Position}

theorem openings_absorb_otherwise (h : d.openings = ⟨.branch, head, headPos⟩ :: outer)
    (pos : Position) :
    (d.absorb ⟨pos, .otherwise⟩).openings = ⟨.skip, d.code.size, pos⟩ :: outer := by
  rw [absorb, d.otherwise_of_branch pos headPos head outer h]

theorem openings_absorb_close (h : d.openings = o :: outer)
    (houter : { d with openings := outer }.Settled) (pos : Position) :
    (d.absorb ⟨pos, .close⟩).openings = outer := by
  rw [absorb, d.close_of_settled pos o outer h houter]

theorem openings_absorb_closeLoop (h : d.openings = o :: ⟨.loop, head, headPos⟩ :: outer)
    (pos : Position) : (d.absorb ⟨pos, .close⟩).openings = outer := by
  rw [absorb, d.close_of_loop pos headPos o head outer h]

theorem unterminated?_branch_of_settled (h : d.Settled) (index : Nat) (pos : Position) :
    unterminated? (⟨.branch, index, pos⟩ :: d.openings) = some ⟨pos, .unterminatedBranch⟩ := by
  rcases hopenings : d.openings with - | ⟨⟨role, head, headPos⟩, outer⟩
  · rfl
  · cases role with
    | loop => simp [Settled, hopenings] at h
    | branch | skip => rfl

end Absorb

/-- Events that open and close in turn: whatever is open before them is open behind them. -/
def Balanced (es : List (Located Event)) : Prop :=
  ∀ d : Draft, d.Settled → (es.foldl absorb d).openings = d.openings

section Constructs

variable {body other : List (Located Event)} (d : Draft) (head middle exit : Position)

theorem Balanced.openings_first (h : Balanced body) :
    (body.foldl absorb (d.absorb ⟨head, .branch⟩)).openings =
      ⟨.branch, d.code.size, head⟩ :: d.openings :=
  h _ (settled_openWith d .branch head _ (by decide))

theorem Balanced.exists_openings_second (h : Balanced body) :
    ∃ index, ((body.foldl absorb (d.absorb ⟨head, .branch⟩)).absorb
      ⟨middle, .otherwise⟩).openings = ⟨.skip, index, middle⟩ :: d.openings :=
  ⟨_, openings_absorb_otherwise (h.openings_first d head) middle⟩

theorem openings_condition (condition : List Plain) :
    ((condition.map Plain.located).foldl absorb (d.absorb ⟨head, .loop⟩)).openings =
      ⟨.loop, d.code.size, head⟩ :: d.openings :=
  openings_foldl_plains condition _

theorem exists_openings_body (condition : List Plain) :
    ∃ index, (((condition.map Plain.located).foldl absorb (d.absorb ⟨head, .loop⟩)).absorb
      ⟨exit, .branch⟩).openings =
        ⟨.branch, index, exit⟩ :: ⟨.loop, d.code.size, head⟩ :: d.openings :=
  ⟨_, congrArg _ (d.openings_condition head condition)⟩

end Constructs

theorem Balanced.append {es fs : List (Located Event)} (hes : Balanced es) (hfs : Balanced fs) :
    Balanced (es ++ fs) := by
  intro d hd
  have hsettled : (es.foldl absorb d).Settled := by rwa [Settled, hes d hd]
  rw [List.foldl_append, hfs _ hsettled, hes d hd]

end Draft

namespace Nest

open Draft

mutual

/-- Complete constructs leave nothing open. -/
theorem balanced_events : ∀ n : Nest, Balanced n.events
  | .plain e => fun d _ => d.openings_absorb_plain e
  | .branch head body tail => by
      intro d hd
      have hbody := (balanced_eventsAll body).openings_first d head
      simp only [events, List.foldl_cons, List.foldl_append, List.foldl_nil]
      exact openings_absorb_close hbody hd tail
  | .choice head body middle other tail => by
      intro d hd
      obtain ⟨index, hsecond⟩ :=
        (balanced_eventsAll body).exists_openings_second d head middle
      have hother := balanced_eventsAll other _ (settled_of_cons _ _ _ hsecond (by simp))
      simp only [events, List.foldl_cons, List.foldl_append, List.foldl_nil]
      exact openings_absorb_close (hother.trans hsecond) hd tail
  | .loop head condition exit body tail => by
      intro d _
      obtain ⟨index, hentered⟩ := d.exists_openings_body head exit condition
      have hbody := balanced_eventsAll body _ (settled_of_cons _ _ _ hentered (by simp))
      simp only [events, List.foldl_cons, List.foldl_append, List.foldl_nil]
      exact openings_absorb_closeLoop (hbody.trans hentered) tail

theorem balanced_eventsAll : ∀ ns : List Nest, Balanced (eventsAll ns)
  | [] => fun _ _ => rfl
  | n :: ns => (balanced_events n).append (balanced_eventsAll ns)

end

end Nest

namespace Draft

/-- What the openings show where the constructs `os` are open on top of the openings `outer`:
the innermost of `os`, or else just `outer`. -/
def Shows (outer : List Opening) : List (Located Imbalance) → List Opening → Prop
  | [], openings => openings = outer
  | o :: _, openings => unterminated? openings = some o

/-- A construct that is open in `inner` is shown unless another is open inside of it. -/
theorem Shows.under {inner outer openings : List Opening} {os : List (Located Imbalance)}
    {o : Located Imbalance} (h : Shows inner os openings) (ho : unterminated? inner = some o) :
    Shows outer (os ++ [o]) openings := by
  cases os with
  | nil =>
      obtain rfl : openings = inner := h
      exact ho
  | cons o' os => exact h

/-- A conditional is shown up to its second branch, if there is one. -/
theorem shows_first (d : Draft) (hd : d.Settled) (head : Position) {es : List (Located Event)}
    {os : List (Located Imbalance)}
    (h : ∀ d' : Draft, d'.Settled → Shows d'.openings os (es.foldl absorb d').openings) :
    Shows d.openings (os ++ [⟨head, .unterminatedBranch⟩])
      ((⟨head, .branch⟩ :: es : List (Located Event)).foldl absorb d).openings := by
  have hinner := h (d.openWith .branch head (.branch none))
    (settled_openWith d .branch head _ (by decide))
  exact hinner.under (unterminated?_branch_of_settled hd _ head)

end Draft

namespace Nest

open Draft

/-- The openings show what a cut leaves open, whichever settled draft the events come to. -/
theorem Leaves.shows {ns : List Nest} {es : List (Located Event)} {os : List (Located Imbalance)}
    (h : Leaves ns es os) :
    ∀ d : Draft, d.Settled → Shows d.openings os (es.foldl absorb d).openings := by
  induction h with
  | start ns => exact fun d _ => rfl
  | later n h ih =>
      intro d hd
      have hn := balanced_events n d hd
      have hsettled : (n.events.foldl absorb d).Settled := by rwa [Settled, hn]
      rw [List.foldl_append, ← hn]
      exact ih _ hsettled
  | branch head tail ns h ih => exact fun d hd => shows_first d hd head ih
  | first head middle tail other ns h ih => exact fun d hd => shows_first d hd head ih
  | second head middle tail body ns h ih =>
      intro d hd
      obtain ⟨index, hsecond⟩ :=
        (balanced_eventsAll body).exists_openings_second d head middle
      have hinner := ih _ (settled_of_cons _ _ _ hsecond (by simp))
      simp only [List.foldl_cons, List.foldl_append]
      exact hinner.under (by rw [hsecond, unterminated?])
  | condition head exit tail done rest body ns =>
      intro d _
      rw [Shows, List.foldl_cons, d.openings_condition head done, unterminated?]
  | loop head exit tail condition ns h ih =>
      intro d _
      obtain ⟨index, hentered⟩ := d.exists_openings_body head exit condition
      have hinner := ih _ (settled_of_cons _ _ _ hentered (by simp))
      simp only [List.foldl_cons, List.foldl_append]
      exact hinner.under (by rw [hentered, unterminated?])

/-- What becomes of a draft and of a desk that get the events `es` of `ns` and no more, and leave
out those that they have to refuse. -/
structure Diagnosed (ns : List Nest) (es : List (Located Event)) : Prop where
  /-- Something can be said of what is open. -/
  cut : ∃ os, Leaves ns es os
  finished : ∀ os, Leaves ns es os →
    ((∃ p, (es.foldl absorb empty).finish = .ok p) ↔ os = [])
  /-- The innermost construct that is open is to blame, at the position that it has to be
  blamed at. -/
  blamed : ∀ o os, Leaves ns es (o :: os) →
    (es.foldl absorb empty).finish = .error (o.map .unbalanced)
  /-- By the indices of the pending jumps alone it comes to the same. -/
  deskFinished : ∀ os, Leaves ns es os → ((∃ p, (Desk.after {} es).finish = .ok p) ↔ os = [])
  deskBlamed : ∀ o os, Leaves ns es (o :: os) →
    (Desk.after {} es).finish = .error (.refused (o.map .unbalanced))

/-- Wherever well-nested events are cut off, the draft is blamed on the innermost construct
that is open there, and on nothing if none is. So is the desk. -/
theorem diagnosed_of_cut (ns : List Nest) (es : List (Located Event)) (h : es <+: eventsAll ns) :
    Diagnosed ns es := by
  have hblamed : ∀ o os, Leaves ns es (o :: os) →
      (es.foldl absorb empty).finish = .error (o.map .unbalanced) := by
    intro o os hos
    have hshown : unterminated? (es.foldl absorb empty).openings = some o :=
      hos.shows empty settled_empty
    rw [finish, hshown]
  have hfinished : ∀ os, Leaves ns es os →
      ((∃ p, (es.foldl absorb empty).finish = .ok p) ↔ os = []) := by
    intro os hos
    cases os with
    | nil =>
        have hempty : (es.foldl absorb empty).openings = [] := hos.shows empty settled_empty
        exact iff_of_true ⟨_, (finish_eq_ok_iff _ _).mpr ⟨hempty, rfl⟩⟩ rfl
    | cons o os => simp [hblamed o os hos]
  refine ⟨exists_leavesAll ns es h, hfinished, hblamed, fun os hos => ?_, fun o os hos => ?_⟩
  · simp only [Desk.after_empty, finish_desk_eq_ok_iff (coherent_foldl_absorb es)]
    exact hfinished os hos
  · rw [Desk.finish_after, hblamed o os hos]
    rfl

/-- Cut in the body of a loop that lies in the second branch of a conditional. -/
theorem diagnosed_of_cut_loopAroundChoice :
    (eventsAll loopAroundChoice).take 12 <+: eventsAll loopAroundChoice ∧
      (((eventsAll loopAroundChoice).take 12).foldl absorb empty).finish =
        .error ⟨⟨6, 5⟩, .unbalanced .unterminatedLoop⟩ := by
  have hleaves : Leaves loopAroundChoice ((eventsAll loopAroundChoice).take 12)
      [⟨⟨6, 5⟩, .unterminatedLoop⟩, ⟨⟨5, 3⟩, .unterminatedOtherwise⟩,
        ⟨⟨2, 1⟩, .unterminatedLoop⟩] :=
    .later _ (.loop _ _ _ _ _ (.later _ (.second _ _ _ _ _ (.loop _ _ _ _ _ (.start _)))))
  have hcut := List.take_prefix 12 (eventsAll loopAroundChoice)
  exact ⟨hcut, (diagnosed_of_cut loopAroundChoice _ hcut).blamed _ _ hleaves⟩

end Nest

end StackLang
