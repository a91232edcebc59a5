import StackLang.Proofs.Draft.Coherence

/-!
# Drafts worked on in place

A draft goes from one state to the next as a whole, so an event that it refuses cannot leave
anything behind. Here the same work is done in single strokes on a `Desk`. A stroke changes
the variables, the code or the list of pending jumps, and what has been done before a call
fails stays done. The desk keeps bare indices of the pending jumps: what a jump is pending
for has to be read off the code, and a stroke that finds something else there than a jump
without a target ends the work (`Failure.broken`).

The main statement is that calls which fail do so before their first stroke. So a desk and a
draft that are given the same events stay the same, and the calls that fail can be deleted
from any sequence of calls: the results of the others, the desk at the end and what can be
finished from it do not change.
-/

namespace StackLang

structure Desk where
  store : Store := {}
  code : Chain Instruction := {}
  /-- The indices of the jumps that have no target yet, innermost first. -/
  pending : List Nat := []

/-- What a draft has on the desk. -/
def Draft.desk (d : Draft) : Desk := ⟨d.store, d.code, d.openings.map Opening.index⟩

namespace Desk

inductive Failure where
  | refused (cause : Located DraftError)
  /-- An index leads to nothing, or not to a jump without a target. -/
  | broken
  deriving DecidableEq

/-- Work on a desk. What has been done stays done if it fails. -/
abbrev Work (α : Type) := EStateM Failure Desk α

section Strokes

def refuse (pos : Position) (cause : DraftError) : Work Unit := throw (.refused ⟨pos, cause⟩)

/-- Appends an instruction; the result is its index. -/
def emit (pos : Position) (op : Operation) : Work Nat := fun k =>
  .ok k.code.size { k with code := k.code.push ⟨pos, op⟩ }

/-- The operation at an index. -/
def operation (i : Nat) : Work Operation := fun k =>
  match k.code.get? i with
  | some x => .ok x.op k
  | none => .error .broken k

/-- Gives the jump at an index its target. -/
def patch (i target : Nat) : Work Unit := do
  match ← operation i with
  | .branch none | .loop none | .jump none =>
    modify fun k => { k with code := k.code.modify i (Instruction.resolve target) }
  | _ => throw .broken

def push (i : Nat) : Work Unit := fun k => .ok () { k with pending := i :: k.pending }

/-- The innermost pending jump. -/
def top : Work (Option Nat) := fun k => .ok k.pending.head? k

/-- Takes the innermost pending jump off the list. -/
def pop : Work (Option Nat) := fun k => .ok k.pending.head? { k with pending := k.pending.tail }

def find (name : String) : Work (Option Nat) := fun k => .ok (k.store.find? name) k

/-- The kind of the variable at an index. -/
def kind (x : Nat) : Work VariableKind := fun k =>
  match k.store.get? x with
  | some v => .ok v.kind k
  | none => .error .broken k

/-- Adds a variable; the result is its index. -/
def enter (name : String) (kind : VariableKind) : Work Nat := fun k =>
  .ok k.store.size { k with store := k.store.add name kind }

end Strokes

section Calls

variable (pos : Position)

def declare (kind : VariableKind) (name : String) : Work Unit := do
  match ← find name with
  | some _ => refuse pos (.duplicateDeclaration name)
  | none =>
    let x ← enter name kind
    discard (emit pos (.declare kind x))

def target (name : String) : Work Unit := do
  match ← find name with
  | none => refuse pos (.undeclaredVariable name)
  | some x => discard (emit pos (.target x))

def read (name : String) : Work Unit := do
  match ← find name with
  | none => refuse pos (.undeclaredVariable name)
  | some x => discard (emit pos (.read (← kind x) x))

def integer (text : String) : Work Unit :=
  match Decimal.readInt64? text.toList with
  | none => refuse pos (.invalidInteger text)
  | some n => discard (emit pos (.constant (.integer n)))

def operator (spelling : String) : Work Unit :=
  match Operator.ofSymbol? spelling with
  | none => refuse pos (.unknownOperator spelling)
  | some op => discard (emit pos (.operator op))

/-- Emits a jump without a target and leaves it pending. -/
def openWith (op : Operation) : Work Unit := do
  push (← emit pos op)

def otherwise : Work Unit := do
  match ← top with
  | none => refuse pos (.unbalanced .otherwiseWithoutBranch)
  | some head =>
    match ← operation head with
    | .branch _ =>
      let _ ← pop
      let skip ← emit pos (.jump none)
      let marker ← emit pos .otherwise
      patch head marker
      push skip
    | _ => refuse pos (.unbalanced .otherwiseWithoutBranch)

/-- A jump back to the head of a loop, if one lies on top of the pending jumps. -/
def turnBack : Work Unit := do
  match ← top with
  | none => pure ()
  | some head =>
    match ← operation head with
    | .loop _ =>
      let _ ← pop
      discard (emit pos (.jump (some head)))
    | _ => pure ()

def close : Work Unit := do
  match ← pop with
  | none => refuse pos (.unbalanced .closeWithoutBlock)
  | some inner =>
    turnBack pos
    let tail ← emit pos .close
    patch inner tail

/-- Does what an event asks for. -/
def perform (e : Located Event) : Work Unit :=
  match e.item with
  | .declare kind name => declare e.pos kind name
  | .target name => target e.pos name
  | .read name => read e.pos name
  | .integer text => integer e.pos text
  | .string text => discard (emit e.pos (.constant (.string text)))
  | .operator spelling => operator e.pos spelling
  | .assign => discard (emit e.pos .assign)
  | .print => discard (emit e.pos .print)
  | .branch => openWith e.pos (.branch none)
  | .otherwise => otherwise e.pos
  | .loop => openWith e.pos (.loop none)
  | .close => close e.pos

end Calls

/-- The program on the desk, if no jump is pending. The construct to blame is read off the
code at the two innermost pending jumps. -/
def finish (k : Desk) : Except Failure Program :=
  let blame (pos : Position) (cause : Imbalance) : Except Failure Program :=
    .error (.refused ⟨pos, .unbalanced cause⟩)
  match k.pending with
  | [] => .ok ⟨k.code, k.store⟩
  | i :: outer =>
    match k.code.get? i, outer.head?.bind k.code.get? with
    | some ⟨_, .branch _⟩, some ⟨pos, .loop _⟩ => blame pos .unterminatedLoop
    | some ⟨pos, .branch _⟩, _ => blame pos .unterminatedBranch
    | some ⟨pos, .jump _⟩, _ => blame pos .unterminatedOtherwise
    | some ⟨pos, .loop _⟩, _ => blame pos .unterminatedLoop
    | _, _ => .error .broken

/-- Makes a call: its result, and the desk that it leaves, be it a success or not. -/
def attempt (k : Desk) (e : Located Event) : Except Failure Unit × Desk :=
  match perform e k with
  | .ok () k' => (.ok (), k')
  | .error c k' => (.error c, k')

/-- The desk behind calls in a row. -/
def after (k : Desk) (es : List (Located Event)) : Desk := es.foldl (fun k e => (k.attempt e).2) k

/-- Calls in a row with their results. -/
def log (k : Desk) : List (Located Event) → List (Located Event × Except Failure Unit)
  | [] => []
  | e :: es => (e, (k.attempt e).1) :: log (k.attempt e).2 es

/-- Those of the calls that succeed. -/
def successes (k : Desk) (es : List (Located Event)) : List (Located Event) :=
  ((k.log es).filter fun x => x.2.isOk).map Prod.fst

end Desk

namespace Draft

open Desk

@[simp] theorem store_desk (d : Draft) : d.desk.store = d.store := rfl

@[simp] theorem code_desk (d : Draft) : d.desk.code = d.code := rfl

/-- What the desk of a draft should come to by an event. -/
def expected (d : Draft) (e : Located Event) : EStateM.Result Failure Desk Unit :=
  match d.apply e with
  | .ok d' => .ok () d'.desk
  | .error cause => .error (.refused cause) d.desk

section Plain

variable (d : Draft) (pos : Position)

theorem perform_declare (kind : VariableKind) (name : String) :
    perform ⟨pos, .declare kind name⟩ d.desk = d.expected ⟨pos, .declare kind name⟩ := by
  simp only [perform, Desk.declare, expected, apply, take, Draft.declare, Store.declare, bind,
    EStateM.bind, find, store_desk]
  cases d.store.find? name with
  | none => rfl
  | some x => rfl

theorem perform_target (name : String) :
    perform ⟨pos, .target name⟩ d.desk = d.expected ⟨pos, .target name⟩ := by
  simp only [perform, Desk.target, expected, apply, take, lookup, bind, EStateM.bind, find,
    store_desk]
  cases hname : d.store.find? name with
  | none => rfl
  | some x =>
      obtain ⟨v, hv, -⟩ := d.store.get?_of_find?_eq_some name x hname
      simp only [hv]
      rfl

theorem perform_read (name : String) :
    perform ⟨pos, .read name⟩ d.desk = d.expected ⟨pos, .read name⟩ := by
  simp only [perform, Desk.read, expected, apply, take, lookup, bind, EStateM.bind, find,
    store_desk]
  cases hname : d.store.find? name with
  | none => rfl
  | some x =>
      obtain ⟨v, hv, -⟩ := d.store.get?_of_find?_eq_some name x hname
      have hkind : Desk.kind x d.desk = .ok v.kind d.desk := by
        simp only [Desk.kind, store_desk, hv]
      simp only [EStateM.bind, hkind, hv]
      rfl

theorem perform_integer (text : String) :
    perform ⟨pos, .integer text⟩ d.desk = d.expected ⟨pos, .integer text⟩ := by
  simp only [perform, Desk.integer, expected, apply, take, Draft.integer]
  cases Decimal.readInt64? text.toList with
  | none => rfl
  | some n => rfl

theorem perform_operator (spelling : String) :
    perform ⟨pos, .operator spelling⟩ d.desk = d.expected ⟨pos, .operator spelling⟩ := by
  simp only [perform, Desk.operator, expected, apply, take, Draft.operator]
  cases Operator.ofSymbol? spelling with
  | none => rfl
  | some op => rfl

end Plain

section Control

variable {d : Draft} (pos : Position)

theorem operation_desk (h : d.Coherent) {o : Opening} (ho : o ∈ d.openings) :
    Desk.operation o.index d.desk = .ok o.role.jump d.desk := by
  simp only [Desk.operation, code_desk, h.pending o ho]

/-- A jump without a target can be given one. -/
theorem patch_of_get? {code : Chain Instruction} {i : Nat} {o : Opening}
    (h : code.get? i = some ⟨o.pos, o.role.jump⟩) (σ : Store) (pending : List Nat) (target : Nat) :
    Desk.patch i target ⟨σ, code, pending⟩ =
      .ok () ⟨σ, code.modify i (Instruction.resolve target), pending⟩ := by
  simp only [Desk.patch, bind, EStateM.bind, Desk.operation, h]
  cases o.role with
  | branch | skip | loop => rfl

/-- More code behind it leaves the jump of an opening where it is. -/
theorem get?_append_of_mem (h : d.Coherent) {o : Opening} (ho : o ∈ d.openings)
    (xs : List Instruction) : (d.code.append xs).get? o.index = some ⟨o.pos, o.role.jump⟩ := by
  rw [Chain.get?_append_of_lt _ _ _ (h.lt_size o ho), h.pending o ho]

theorem perform_otherwise (h : d.Coherent) :
    perform ⟨pos, .otherwise⟩ d.desk = d.expected ⟨pos, .otherwise⟩ := by
  cases hopenings : d.openings with
  | nil =>
      have htop : top d.desk = .ok none d.desk := by simp [top, desk, hopenings]
      simp only [perform, Desk.otherwise, bind, EStateM.bind, htop, expected, apply, take,
        Draft.otherwise, hopenings]
      rfl
  | cons o outer =>
      have ho : o ∈ d.openings := by simp [hopenings]
      have htop : top d.desk = .ok (some o.index) d.desk := by simp [top, desk, hopenings]
      have hpatch := patch_of_get? (get?_append_of_mem h ho
        [⟨pos, .jump none⟩, ⟨pos, .otherwise⟩]) d.store d.desk.pending.tail (d.code.size + 1)
      rw [← Chain.push_append, ← Chain.push_eq_append] at hpatch
      simp only [perform, Desk.otherwise, bind, EStateM.bind, htop, operation_desk h ho]
      rcases o with ⟨role, head, headPos⟩
      cases role with
      | skip | loop =>
          simp only [Role.jump, expected, apply, take, Draft.otherwise, hopenings]
          rfl
      | branch =>
          simp only [Role.jump, EStateM.bind, pop, Desk.emit, Chain.size_push,
            code_desk, store_desk, hpatch,
            expected, d.otherwise_of_branch pos headPos head outer hopenings]
          simp [Desk.push, desk, hopenings]

/-- A loop head on top of the pending jumps is jumped back to. -/
theorem turnBack_of_loop (h : d.Coherent) {head : Nat} {headPos : Position} {outer : List Opening}
    (hopenings : d.openings = ⟨.loop, head, headPos⟩ :: outer) :
    turnBack pos d.desk =
      .ok () ⟨d.store, d.code.push ⟨pos, .jump (some head)⟩, outer.map Opening.index⟩ := by
  have hoperation := operation_desk h (hopenings ▸ List.mem_cons_self)
  have htop : top d.desk = .ok (some head) d.desk := by simp [top, desk, hopenings]
  simp only [turnBack, bind, EStateM.bind, htop, hoperation, Role.jump]
  simp only [pop, desk, hopenings, List.map_cons, List.tail_cons]
  rfl

theorem turnBack_of_settled (h : d.Coherent) (hsettled : d.Settled) :
    turnBack pos d.desk = .ok () d.desk := by
  cases hopenings : d.openings with
  | nil =>
      have htop : top d.desk = .ok none d.desk := by simp [top, desk, hopenings]
      simp only [turnBack, bind, EStateM.bind, htop]
      rfl
  | cons o outer =>
      have hoperation := operation_desk h (hopenings ▸ List.mem_cons_self)
      have htop : top d.desk = .ok (some o.index) d.desk := by simp [top, desk, hopenings]
      have hrole : o.role ≠ .loop := by simpa [Settled, hopenings] using hsettled
      simp only [turnBack, bind, EStateM.bind, htop, hoperation]
      cases hjump : o.role with
      | branch | skip => rfl
      | loop => exact absurd hjump hrole

theorem perform_close (h : d.Coherent) :
    perform ⟨pos, .close⟩ d.desk = d.expected ⟨pos, .close⟩ := by
  cases hopenings : d.openings with
  | nil =>
      simp only [perform, Desk.close, bind, EStateM.bind, pop, desk, hopenings, expected, apply,
        take, Draft.close]
      rfl
  | cons o outer =>
      have ho : o ∈ d.openings := by simp [hopenings]
      have hpop : pop d.desk = .ok (some o.index) { d with openings := outer }.desk := by
        simp [pop, desk, hopenings]
      have houter : { d with openings := outer }.Coherent :=
        h.keep _ _ _ (hopenings ▸ List.suffix_cons o outer) fun _ _ => rfl
      simp only [perform, Desk.close, bind, EStateM.bind, hpop, expected]
      by_cases hsettled : { d with openings := outer }.Settled
      · have hpatch := patch_of_get? (get?_append_of_mem h ho [⟨pos, .close⟩]) d.store
          (outer.map Opening.index) d.code.size
        rw [← Chain.push_eq_append] at hpatch
        simp only [turnBack_of_settled pos houter hsettled,
          d.close_of_settled pos o outer hopenings hsettled, Desk.emit]
        exact hpatch
      · obtain ⟨head, headPos, outer', rfl⟩ := exists_loop_of_not_settled hsettled
        have hpatch := patch_of_get? (get?_append_of_mem h ho
          [⟨pos, .jump (some head)⟩, ⟨pos, .close⟩]) d.store (outer'.map Opening.index)
          (d.code.size + 1)
        rw [← Chain.push_append, ← Chain.push_eq_append] at hpatch
        simp only [turnBack_of_loop pos houter rfl,
          d.close_of_loop pos headPos o head outer' hopenings, Desk.emit, Chain.size_push]
        exact hpatch

end Control

section Runs

variable {d : Draft}

/-- A call on the desk of a draft does what the draft does with the event. If it fails, it has
changed nothing. -/
theorem perform_desk (h : d.Coherent) (e : Located Event) : perform e d.desk = d.expected e := by
  rcases e with ⟨pos, event⟩
  cases event with
  | declare kind name => exact perform_declare d pos kind name
  | target name => exact perform_target d pos name
  | read name => exact perform_read d pos name
  | integer text => exact perform_integer d pos text
  | operator spelling => exact perform_operator d pos spelling
  | string | assign | print | branch | loop => rfl
  | otherwise => exact perform_otherwise pos h
  | close => exact perform_close pos h

theorem attempt_desk_of_ok (h : d.Coherent) {d' : Draft} {e : Located Event}
    (he : d.apply e = .ok d') : d.desk.attempt e = (.ok (), d'.desk) := by
  simp only [attempt, perform_desk h, expected, he]

theorem attempt_desk_of_error (h : d.Coherent) {cause : Located DraftError} {e : Located Event}
    (he : d.apply e = .error cause) : d.desk.attempt e = (.error (.refused cause), d.desk) := by
  simp only [attempt, perform_desk h, expected, he]

/-- A call leaves the desk of the draft that takes the event if it fits. It fails for a reason
that the draft has, or not at all. -/
theorem attempt_desk (h : d.Coherent) (e : Located Event) :
    (d.desk.attempt e).1 ≠ .error .broken ∧ (d.desk.attempt e).2 = (d.absorb e).desk := by
  cases he : d.apply e with
  | ok d' =>
      rw [attempt_desk_of_ok h he, absorb, he]
      exact ⟨by simp, rfl⟩
  | error cause =>
      rw [attempt_desk_of_error h he, absorb, he]
      exact ⟨by simp, rfl⟩

theorem finish_desk (h : d.Coherent) : d.desk.finish = d.finish.mapError .refused := by
  cases hopenings : d.openings with
  | nil => simp [Desk.finish, desk, finish, hopenings, unterminated?, Except.mapError]
  | cons o outer =>
      have ho := h.pending o (by simp [hopenings])
      rcases o with ⟨role, i, pos⟩
      cases outer with
      | nil =>
          simp only [Desk.finish, desk, finish, hopenings, List.map_cons, List.map_nil, ho]
          cases role with
          | branch | skip | loop => rfl
      | cons o' outer =>
          have ho' := h.pending o' (by simp [hopenings])
          rcases o' with ⟨role', i', pos'⟩
          simp only [Desk.finish, desk, finish, hopenings, List.map_cons, List.head?_cons,
            Option.bind_some, ho, ho']
          cases role with
          | skip | loop => rfl
          | branch =>
              cases role' with
              | branch | skip | loop => rfl

theorem finish_desk_eq_ok_iff (h : d.Coherent) (p : Program) :
    d.desk.finish = .ok p ↔ d.finish = .ok p := by
  rw [finish_desk h]
  cases d.finish <;> simp [Except.mapError]

/-- The calls that succeed are those whose events the draft takes. Without the others the
desk comes to the same. -/
theorem erase_failures (es : List (Located Event)) (d : Draft) (h : d.Coherent) :
    d.desk.after es = (es.foldl absorb d).desk ∧
      d.applyAll (d.desk.successes es) = .ok (es.foldl absorb d) ∧
      d.desk.log (d.desk.successes es) = (d.desk.log es).filter (fun x => x.2.isOk) := by
  induction es generalizing d with
  | nil => exact ⟨rfl, rfl, rfl⟩
  | cons e es ih =>
      cases he : d.apply e with
      | error cause =>
          have hattempt := attempt_desk_of_error h he
          have habsorb : d.absorb e = d := by simp only [absorb, he]
          obtain ⟨hafter, htaken, hlog⟩ := ih d h
          have hsuccesses : d.desk.successes (e :: es) = d.desk.successes es := by
            simp [successes, log, hattempt, Except.isOk, Except.toBool]
          refine ⟨?_, ?_, ?_⟩
          · simp only [after, List.foldl_cons, hattempt, habsorb]
            exact hafter
          · rw [hsuccesses, List.foldl_cons, habsorb, htaken]
          · rw [hsuccesses, hlog, log, hattempt]
            rfl
      | ok d' =>
          have hattempt := attempt_desk_of_ok h he
          have habsorb : d.absorb e = d' := by simp only [absorb, he]
          obtain ⟨hafter, htaken, hlog⟩ := ih d' (h.changes (d.changes_of_apply d' e he))
          have hsuccesses : d.desk.successes (e :: es) = e :: d'.desk.successes es := by
            simp [successes, log, hattempt, Except.isOk, Except.toBool]
          refine ⟨?_, ?_, ?_⟩
          · simp only [after, List.foldl_cons, hattempt, habsorb]
            exact hafter
          · rw [hsuccesses, List.foldl_cons, habsorb, applyAll_cons_of_apply d d' e _ he, htaken]
          · rw [hsuccesses, log, log, hattempt, hlog]
            rfl

end Runs

end Draft

namespace Desk

section Reached

variable (es : List (Located Event))

/-- The desk is that of the draft which takes the events that fit. -/
theorem after_empty : after {} es = (es.foldl Draft.absorb Draft.empty).desk :=
  (Draft.erase_failures es Draft.empty Draft.coherent_empty).1

theorem finish_after :
    (after {} es).finish = (es.foldl Draft.absorb Draft.empty).finish.mapError .refused := by
  rw [after_empty, Draft.finish_desk (Draft.coherent_foldl_absorb es)]

end Reached

/-- Calls in any order fail without a trace. -/
structure Traceless (es : List (Located Event)) : Prop where
  /-- The desk is that of the draft which takes the events that fit. -/
  reached : after {} es = (es.foldl Draft.absorb Draft.empty).desk
  /-- A call that fails next leaves the variables, the code and the pending jumps as they are.
  It fails for the reason that the draft gives. -/
  failing : ∀ e c k, perform e (after {} es) = .error c k →
    k = after {} es ∧
      ∃ cause, c = .refused cause ∧
        (es.foldl Draft.absorb Draft.empty).apply e = .error cause
  /-- Without the calls that failed, the others have the results they had. -/
  results : log {} (successes {} es) = (log {} es).filter fun x => x.2.isOk
  /-- The desk at the end is the same, instruction by instruction. -/
  ended : after {} (successes {} es) = after {} es
  /-- So is the program, or the construct that is to blame if there is none. -/
  finished : (after {} (successes {} es)).finish = (after {} es).finish ∧
    (after {} es).finish = (es.foldl Draft.absorb Draft.empty).finish.mapError .refused
  /-- A draft refuses none of the events whose calls succeeded, and ends as it did with all. -/
  taken : Draft.empty.applyAll (successes {} es) = .ok (es.foldl Draft.absorb Draft.empty)

/-- Whatever calls are made, those that fail leave no trace. -/
theorem traceless_of_calls (es : List (Located Event)) : Traceless es := by
  have hafter := after_empty es
  obtain ⟨-, htaken, hlog⟩ := Draft.erase_failures es Draft.empty Draft.coherent_empty
  have hended : after {} (successes {} es) = after {} es := by
    rw [after_empty, hafter]
    exact congrArg Draft.desk (Draft.foldl_absorb_of_applyAll _ _ _ htaken)
  refine ⟨hafter, ?_, hlog, hended, ⟨by rw [hended], finish_after es⟩, htaken⟩
  intro e c k hfailed
  rw [hafter, Draft.perform_desk (Draft.coherent_foldl_absorb es), Draft.expected] at hfailed
  cases happly : (es.foldl Draft.absorb Draft.empty).apply e with
  | ok d =>
      rw [happly] at hfailed
      cases hfailed
  | error cause =>
      rw [happly] at hfailed
      cases hfailed
      exact ⟨hafter.symm, cause, rfl, rfl⟩

/-- A second branch for a loop that has not come to its condition, and an end too many. The
pending jumps are told apart by the code alone. -/
example : (log {} [⟨.start, .loop⟩, ⟨.start, .otherwise⟩, ⟨.start, .branch⟩, ⟨.start, .close⟩,
    ⟨.start, .close⟩]).map Prod.snd =
      [.ok (), .error (.refused ⟨.start, .unbalanced .otherwiseWithoutBranch⟩), .ok (), .ok (),
        .error (.refused ⟨.start, .unbalanced .closeWithoutBlock⟩)] := by
  decide

end Desk

end StackLang
