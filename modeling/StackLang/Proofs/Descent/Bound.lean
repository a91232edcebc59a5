import Mathlib.Data.List.Chain
import Mathlib.Data.List.Perm.Subperm
import StackLang.Proofs.Descent.Agreement
import StackLang.Proofs.Grammar.Loops

/-!
# The descent is bounded

How many calls are active at once does not depend on the source text. The counter is the
number of statements and operands whose bodies are running, so these are limited. Between
two of them, one function calls another in a fixed order, with one exception: climbing calls
itself. There the power grows with every call, and only six powers can be asked for in turn.
The operand behind a prefix operator is read with a seventh power, which is higher than all
of these, so that it is the only one of its level.

`need` is the budget that a call takes with a given number of levels left. Every call that it
makes in turn takes less, or has a level less. With the budget of a whole program the descent
never runs out of it, and comes to the same end as the grammar.
-/

namespace StackLang

namespace Descent

open Grammar

section Paths

/-- The calls that can be active at once: the first is for the program, and each other was
made by the one before it. -/
inductive Active : List Call → Call → Prop where
  | program : Active [] .program
  | call {outer : List Call} {c c' : Call} (h : Active outer c) (hcalls : c.Calls c') :
      Active (outer ++ [c]) c'

theorem Call.eq_climb_of_power? {c : Call} {power : Nat} (h : c.power? = some power) :
    c = .climb power := by
  cases c with
  | climb p => rw [Option.some.inj h]
  | _ => cases h

theorem Call.Calls.possible {c c' : Call} (h : c.Calls c') : c'.Possible := by
  intro power hpower
  cases h with
  | expression | unary =>
      obtain rfl := Option.some.inj hpower
      decide
  | right lower higher hlt hmem =>
      obtain rfl := Option.some.inj hpower
      exact List.mem_cons_of_mem 0 (List.mem_append_left [11] hmem)
  | _ => cases hpower

theorem Active.possible {outer : List Call} {c : Call} (h : Active outer c) :
    ∀ a ∈ outer ++ [c], a.Possible := by
  induction h with
  | program => simp [Call.Possible, Call.power?]
  | @call outer c c' h hcalls ih =>
      intro a ha
      rcases List.mem_append.mp ha with ha | ha
      · exact ih a ha
      · obtain rfl := List.mem_singleton.mp ha
        exact hcalls.possible

theorem Active.isChain {outer : List Call} {c : Call} (h : Active outer c) :
    (outer ++ [c]).IsChain Call.Calls := by
  induction h with
  | program => exact .singleton _
  | @call outer c c' h hcalls ih =>
      refine ih.append (.singleton c') ?_
      intro a ha b hb
      obtain rfl : c = a := by simpa using ha
      obtain rfl : c' = b := by simpa using hb
      exact hcalls

/-- Powers that are asked for in turn: higher and higher ones of six, or that of a prefix
operator alone. -/
structure Climbs (powers : List Nat) : Prop where
  increasing : powers.Pairwise (· < ·)
  possible : powers ⊆ [0, 2, 4, 6, 8, 10] ∨ powers = [11]
  length_le : powers.length ≤ 6

theorem length_le_of_increasing {powers : List Nat} (h : powers.Pairwise (· < ·))
    (hsub : powers ⊆ [0, 2, 4, 6, 8, 10]) : powers.length ≤ 6 := by
  have hnodup : powers.Nodup := h.imp Nat.ne_of_lt
  exact (List.subperm_of_subset hnodup hsub).length_le

/-- Climbing goes on with climbing, as long as no body runs deeper. -/
theorem climbs_of_climb (power : Nat) (calls : List Call)
    (hchain : (.climb power :: calls).IsChain Call.Calls) (hnests : ∀ c ∈ calls, c.nests = false) :
    (power :: calls.filterMap Call.power?).IsChain (· < ·) ∧
      calls.filterMap Call.power? ⊆ [2, 4, 6, 8, 10] := by
  induction calls generalizing power with
  | nil => exact ⟨.singleton power, List.nil_subset _⟩
  | cons c calls ih =>
      obtain ⟨hcalls, hrest⟩ := List.isChain_cons_cons.mp hchain
      cases hcalls with
      | operand _ t => cases hnests _ List.mem_cons_self
      | right _ higher hlt hmem =>
          have hnests' (a : Call) (ha : a ∈ calls) : a.nests = false :=
            hnests a (List.mem_cons_of_mem _ ha)
          obtain ⟨hincreasing, hsub⟩ := ih higher hrest hnests'
          exact ⟨List.isChain_cons_cons.mpr ⟨hlt, hincreasing⟩, List.cons_subset.mpr ⟨hmem, hsub⟩⟩

/-- Along calls of one nesting level the powers climb. -/
theorem climbs_of_isChain (calls : List Call) (hchain : calls.IsChain Call.Calls)
    (hnests : ∀ c ∈ calls, c.nests = false) (hpossible : ∀ c ∈ calls, c.Possible) :
    Climbs (calls.filterMap Call.power?) := by
  induction calls with
  | nil => exact ⟨.nil, .inl (List.nil_subset _), Nat.zero_le 6⟩
  | cons c calls ih =>
      have hnests' (a : Call) (ha : a ∈ calls) : a.nests = false :=
        hnests a (List.mem_cons_of_mem c ha)
      cases hpower : c.power? with
      | none =>
          rw [List.filterMap_cons_none hpower]
          exact ih hchain.tail hnests' fun a ha => hpossible a (List.mem_cons_of_mem c ha)
      | some power =>
          obtain rfl := Call.eq_climb_of_power? hpower
          obtain ⟨hincreasing, hsub⟩ := climbs_of_climb power calls hchain hnests'
          have hmem := hpossible _ List.mem_cons_self power hpower
          rw [List.filterMap_cons_some hpower]
          generalize calls.filterMap Call.power? = powers at hincreasing hsub
          have hpairwise := List.isChain_iff_pairwise.mp hincreasing
          by_cases hunary : power = 11
          · -- No power is higher than that of a prefix operator.
            subst hunary
            have hnil : powers = [] := by
              refine List.eq_nil_iff_forall_not_mem.mpr fun higher hhigher => ?_
              have hlt := List.rel_of_pairwise_cons hpairwise hhigher
              have hmem := hsub hhigher
              simp only [List.mem_cons, List.not_mem_nil, or_false] at hmem
              omega
            rw [hnil]
            exact ⟨List.pairwise_singleton _ _, .inr rfl, by decide⟩
          · have hsix : power :: powers ⊆ [0, 2, 4, 6, 8, 10] := by
              refine List.cons_subset.mpr ⟨?_, fun higher hhigher => ?_⟩
              · simp only [List.mem_cons, List.not_mem_nil, or_false] at hmem ⊢
                omega
              · exact List.mem_cons_of_mem 0 (hsub hhigher)
            exact ⟨hpairwise, .inl hsix, length_le_of_increasing hpairwise hsix⟩

end Paths

theorem Active.exists_prefix {outer : List Call} (h : Active outer (.climb 11)) :
    ∃ before t, outer = before ++ [.operandAt t] ∧ (t.kind = .minus ∨ t.kind = .bang) := by
  cases h with
  | @call outer c _ h hcalls =>
      cases hcalls with
      | right lower _ hlt hmem => simp at hmem
      | unary t ht => exact ⟨outer, t, rfl, ht⟩

/-- What holds of each call. The counter is the number of bodies that are running deeper, it
is limited, and it is back where it was when the call returns. And of the active calls, those
of one nesting level ask for higher and higher powers. -/
structure Visit.Orderly (v : Visit) : Prop where
  counted : v.entered = nesting v.outer
  limited : v.entered ≤ maxLevel
  restored : v.left = v.entered
  climbs : ∀ calls, calls <:+: v.path → (∀ c ∈ calls, c.nests = false) →
    Climbs (calls.filterMap Call.power?)
  /-- The highest power is asked for behind a prefix operator only. -/
  lone : v.call = .climb 11 →
    ∃ before t, v.outer = before ++ [.operandAt t] ∧ (t.kind = .minus ∨ t.kind = .bang)
  /-- What is called in a loop takes tokens. -/
  progress : v.call.repeats = true → ∀ n, v.after = some n → n < v.before

theorem Active.orderly {outer : List Call} {c : Call} (h : Active outer c)
    (hlevel : nesting outer ≤ maxLevel) {before : Nat} {after : Option Nat}
    (hprogress : c.repeats = true → ∀ n, after = some n → n < before) :
    Visit.Orderly ⟨outer, c, nesting outer, nesting outer, before, after⟩ := by
  refine ⟨rfl, hlevel, rfl, ?_, ?_, hprogress⟩
  · rintro calls ⟨before, after, hpath⟩ hnests
    have hpath : before ++ calls ++ after = outer ++ [c] := hpath
    have hchain := h.isChain
    have hpossible := h.possible
    rw [← hpath] at hchain hpossible
    refine climbs_of_isChain calls hchain.left_of_append.right_of_append hnests fun a ha => ?_
    exact hpossible a (List.mem_append_left after (List.mem_append_right before ha))
  · rintro rfl
    exact h.exists_prefix

theorem consumes_reading (level : Nat) (c : Call) (h : c.repeats = true) :
    Consumes (reading level c) := by
  cases c with
  | statement => exact consumes_statement level
  | climb power => exact consumes_binary level (List.drop_suffix _ _)
  | _ => cases h

section Budget

/-- The budget that a call takes, with the given number of levels left. -/
def need (level : Nat) : Call → Nat
  | .program | .block _ => 9 * level + 4
  | .statement => 9 * level + 3
  | .nestedStatement _ => 9 * level + 2
  | .statementAt _ => 9 * level + 10
  | .assignment _ | .conditional _ | .loop _ | .operandAt _ => 9 * level + 9
  | .declaration _ | .closing => 1
  | .expression => 9 * level + 8
  -- An operand, and those operators that bind more tightly.
  | .climb power => 9 * level + 2 + (10 - power) / 2
  | .nestedOperand _ => 9 * level + 1

theorem need_pos (level : Nat) (c : Call) : 0 < need level c := by
  cases c <;> simp only [need] <;> omega

theorem need_lt_of_calls {c c' : Call} (h : c.Calls c') (hc : c.nests = false)
    (hpossible : c.Possible) (level : Nat) : need level c' < need level c := by
  cases h with
  | nestedStatement | nestedOperand => cases hc
  | right lower higher hlt hmem =>
      have hlower := hpossible lower rfl
      simp only [List.mem_cons, List.not_mem_nil, or_false] at hlower hmem
      simp only [need]
      omega
  | _ =>
      simp only [need]
      omega

theorem need_lt_of_nests {c c' : Call} (h : c.Calls c') (hc : c.nests = true) (level : Nat) :
    need level c' < need (level + 1) c := by
  cases h with
  | nestedStatement | nestedOperand =>
      simp only [need]
      omega
  | _ => cases hc

theorem nesting_append_singleton (outer : List Call) (c : Call) :
    nesting (outer ++ [c]) = nesting outer + if c.nests then 1 else 0 := by
  rw [nesting, List.countP_append, List.countP_singleton]
  rfl

/-- A body runs one level deeper, or not at all. -/
theorem follows_within {t : Token} {x : Descent TokenStream} {r : Nat → Reader} {n : Nat}
    {good : Visit → Prop} {s : TokenStream} (hn : n ≤ maxLevel)
    (h : n + 1 ≤ maxLevel → Follows good (n + 1) x (r (maxLevel - (n + 1)) s)) :
    Follows good n (deeper t x) (within t r (maxLevel - n) s) := by
  rcases Nat.eq_or_lt_of_le hn with rfl | hlt
  · rw [Nat.sub_self]
    exact follows_deeper_limit t x
  · rw [show maxLevel - n = maxLevel - (n + 1) + 1 by omega]
    exact follows_deeper hlt (h hlt)

/-- With the budget that it takes, each call follows the grammar. -/
theorem follows_run (budget : Nat) {outer : List Call} {c : Call} (h : Active outer c)
    (hlevel : nesting outer ≤ maxLevel) (hbudget : need (maxLevel - nesting outer) c ≤ budget)
    (s : TokenStream) :
    Follows Visit.Orderly (nesting outer) (run budget outer c s)
      (reading (maxLevel - nesting outer) c s) := by
  induction budget generalizing outer c s with
  | zero => exact absurd (need_pos _ c) (Nat.not_lt.mpr hbudget)
  | succ budget ih =>
      refine Follows.noted (h.orderly hlevel fun _ n hn => nomatch hn) (fun rest hrest => ?_) ?_
      · refine h.orderly hlevel fun hrepeats n hn => ?_
        obtain rfl := Option.some.inj hn
        exact consumes_reading _ c hrepeats s _ rest (congrArg (Reading.mk _) hrest)
      have hnesting := nesting_append_singleton outer c
      have hpossible := h.possible c (List.mem_append_right outer (List.mem_singleton_self c))
      cases hc : c.nests with
      | false =>
          rw [hc] at hnesting
          rw [reading_eq_respond _ c hc hpossible fun _ r => r]
          refine follows_respond c hc (fun c' hcalls s => ?_) s
          have hless := need_lt_of_calls hcalls hc hpossible (maxLevel - nesting outer)
          have hcallee := ih (h.call hcalls)
          rw [show nesting (outer ++ [c]) = nesting outer from hnesting] at hcallee
          exact hcallee hlevel (by omega) s
      | true =>
          rw [hc] at hnesting
          have hbody (body : Call) (hcalls : c.Calls body) (hdeeper : nesting outer + 1 ≤ maxLevel) :
              Follows Visit.Orderly (nesting outer + 1) (run budget (outer ++ [c]) body s)
                (reading (maxLevel - (nesting outer + 1)) body s) := by
            have hless := need_lt_of_nests hcalls hc (maxLevel - (nesting outer + 1))
            rw [show maxLevel - (nesting outer + 1) + 1 = maxLevel - nesting outer by omega] at hless
            have hcallee := ih (h.call hcalls)
            rw [show nesting (outer ++ [c]) = nesting outer + 1 from hnesting] at hcallee
            exact hcallee hdeeper (by omega) s
          cases c with
          | nestedStatement t => exact follows_within hlevel (hbody _ (.nestedStatement t))
          | nestedOperand t => exact follows_within hlevel (hbody _ (.nestedOperand t))
          | _ => cases hc

end Budget

theorem program_eq (s : TokenStream) :
    Grammar.program s = reading maxLevel .program s >>= fun _ => pure () := by
  rw [reading]
  simp only [Grammar.program, bind_assoc]
  rfl

theorem compile_eq (r : Reading Unit) :
    r.compile = r.onto .empty >>= fun x => x.2.finish.mapError fun e => e.map .draft := by
  rw [Reading.compile, Reading.onto]
  cases Draft.empty.applyAll r.events with
  | error e => rfl
  | ok d => cases r.outcome <;> rfl

/-- The program of a text, by what comes of its reading. -/
theorem ofSource_eq (source : String) :
    Program.ofSource source =
      (reading maxLevel .program (TokenStream.ofSource source).significant).onto .empty >>=
        fun x => x.2.finish.mapError fun e => e.map .draft := by
  rw [Program.ofSource, compile_eq, readSource, program_eq, Reading.onto_bind, bind_assoc]
  rfl

/-- The call for the program is visited. -/
theorem exists_root (budget : Nat) (source : String) :
    ∃ v ∈ (compile (budget + 1) source).visits, v.outer = [] ∧ v.call = .program := by
  rw [compile, run, noted]
  generalize respond deeper (run budget _) .program _ _ = last
  cases last with
  | ok | error => exact ⟨_, List.mem_append_right _ (List.mem_singleton_self _), rfl, rfl⟩

/-- The descent ended as the text demands, and all its calls were orderly. -/
structure Report.Bounded (source : String) (r : Report) : Prop where
  outcome : r.outcome = (Program.ofSource source).mapError .fault
  orderly : ∀ v ∈ r.visits, v.Orderly
  /-- Every call that was made has its visit, and there was a call for the program. -/
  complete : (r.visits.map fun v => (v.outer, v.call)).Perm r.calls
  root : ∃ v ∈ r.visits, v.outer = [] ∧ v.call = .program

/-- A budget that is enough for every text: what a program takes with all levels left. -/
def enough : Nat := 2308

/-- With this budget the descent through any text comes to the end that the text demands; it
never runs out of the budget, and all its calls are orderly. -/
theorem compile_bounded (source : String) (budget : Nat) (h : enough ≤ budget) :
    (compile budget source).Bounded source := by
  have hneed : need maxLevel .program ≤ budget := h
  have hend : Ends Visit.Orderly {}
      ((reading maxLevel .program (TokenStream.ofSource source).significant).onto .empty)
      (run budget [] .program (TokenStream.ofSource source).significant {}) :=
    follows_run budget .program (Nat.zero_le maxLevel) hneed _ {} rfl
  have hroot : ∃ v ∈ (compile budget source).visits, v.outer = [] ∧ v.call = .program := by
    obtain ⟨b, rfl⟩ := Nat.exists_eq_add_of_le' (Nat.le_trans (Nat.le_add_left 1 2307) h)
    exact exists_root b source
  have hlog {q : Progress} (h : Onward Visit.Orderly {} q) :
      (∀ v ∈ q.visits, v.Orderly) ∧ (q.visits.map fun v => (v.outer, v.call)).Perm q.calls := by
    obtain ⟨cs, vs, hlogs⟩ := h.log
    rw [hlogs.visits, hlogs.calls]
    exact ⟨hlogs.good, hlogs.complete⟩
  have hsource := ofSource_eq source
  rw [compile] at hroot ⊢
  generalize (reading maxLevel .program _).onto .empty = end₁,
    run budget [] .program (TokenStream.ofSource source).significant {} = end₂ at hend hsource hroot
  cases hend with
  | error honward =>
      obtain ⟨horderly, hcomplete⟩ := hlog honward
      refine ⟨?_, horderly, hcomplete, hroot⟩
      rw [hsource]
      rfl
  | @ok a q honward =>
      obtain ⟨horderly, hcomplete⟩ := hlog honward
      refine ⟨?_, horderly, hcomplete, hroot⟩
      rw [hsource]
      change q.draft.finish.mapError _ = (q.draft.finish.mapError _).mapError _
      cases q.draft.finish <;> rfl

def layered : String := "print -1 + 2 * (3 || 4);"

theorem compile_bounded_layered :
    enough ≤ 2308 ∧ (compile 2308 layered).Bounded layered :=
  ⟨Nat.le_refl 2308, compile_bounded layered 2308 (Nat.le_refl 2308)⟩

/-- The operand behind the sign is read with a power that is none of the six. -/
def negation : String := "print -1;"

theorem compile_negation_exceeds_six :
    ¬ ∀ v ∈ (compile enough negation).visits, ∀ calls, calls <:+: v.path →
      (∀ c ∈ calls, c.nests = false) → calls.filterMap Call.power? ⊆ [0, 2, 4, 6, 8, 10] := by
  intro hall
  obtain ⟨v, hv, hcall⟩ :
      ∃ v ∈ (compile enough negation).visits, v.call = .climb 11 := by
    decide +kernel
  have hsub := hall v hv [v.call] ⟨v.outer, [], List.append_nil _⟩ (by simp [hcall, Call.nests])
  simp [hcall, Call.power?] at hsub

-- The last operand is read within three calls that climb, none of which has returned.
example : [0, 2, 10] ∈
    (compile 20 "print 1 || 2 * 3;").visits.map fun v => v.path.filterMap Call.power? := by
  decide +kernel

end Descent

end StackLang
