import Mathlib.Data.List.Nodup
import Mathlib.Logic.Function.Basic
import StackLang.Store

/-!
# How a store grows, and what it holds

Declarations only add variables at the end, so a store lies within every later one: an
index that was found once is found again, and names the same variable. `Within` is that
order.

A run changes values only. `holding ρ` is the store with the same variables in which
every variable has the value that `ρ` gives to its name, so a run can be followed on
valuations of names. Where names are distinct, writing to a variable is an update of the
valuation at one name.
-/

namespace StackLang.Store

theorem find?_eq_findIdx? (s : Store) (name : String) :
    s.find? name = s.slots.toList.findIdx? fun x => x.name = name := by
  rw [find?, Chain.toList, ← List.findIdx?_toArray, Array.toArray_toList]

theorem get?_eq_getElem? (s : Store) (i : Nat) : s.get? i = s.slots.toList[i]? := by
  simp [get?, Chain.get?, Chain.toList]

/-- An index that a name is found at names a variable of that name. -/
theorem get?_of_find?_eq_some (s : Store) (name : String) (i : Nat)
    (h : s.find? name = some i) : ∃ x, s.get? i = some x ∧ x.name = name := by
  rw [find?_eq_findIdx?, List.findIdx?_eq_some_iff_getElem] at h
  obtain ⟨hi, hname, -⟩ := h
  refine ⟨s.slots.toList[i], ?_, ?_⟩
  · rw [get?_eq_getElem?, List.getElem?_eq_getElem hi]
  · exact of_decide_eq_true hname

theorem find?_eq_none_iff (s : Store) (name : String) :
    s.find? name = none ↔ name ∉ s.slots.toList.map Variable.name := by
  rw [find?_eq_findIdx?, List.findIdx?_eq_none_iff]
  simp [eq_comm]

@[simp] theorem toList_add (s : Store) (name : String) (kind : VariableKind) :
    (s.add name kind).slots.toList =
      s.slots.toList ++ [⟨name, kind, Value.default kind.toKind⟩] := by
  simp [add]

/-- The variables of `σ` are the first variables of `τ`. -/
def Within (σ τ : Store) : Prop := σ.slots.toList <+: τ.slots.toList

namespace Within

theorem refl (σ : Store) : σ.Within σ := List.prefix_refl _

theorem trans {σ τ υ : Store} (h : σ.Within τ) (h' : τ.Within υ) : σ.Within υ :=
  List.IsPrefix.trans h h'

theorem add (σ : Store) (name : String) (kind : VariableKind) :
    σ.Within (σ.add name kind) := by
  rw [Within, toList_add]
  exact List.prefix_append _ _

theorem find? {σ τ : Store} (h : σ.Within τ) (name : String) (i : Nat)
    (hi : σ.find? name = some i) : τ.find? name = some i := by
  obtain ⟨more, hmore⟩ := h
  rw [find?_eq_findIdx?] at hi ⊢
  rw [← hmore, List.findIdx?_append, hi]
  rfl

theorem get? {σ τ : Store} (h : σ.Within τ) (i : Nat) (x : Variable)
    (hi : σ.get? i = some x) : τ.get? i = some x := by
  obtain ⟨more, hmore⟩ := h
  rw [get?_eq_getElem?] at hi ⊢
  obtain ⟨hlt, -⟩ := List.getElem?_eq_some_iff.mp hi
  rw [← hmore, List.getElem?_append_left hlt, hi]

end Within

/-- No name is declared twice. -/
def Distinct (σ : Store) : Prop := (σ.slots.toList.map Variable.name).Nodup

theorem distinct_empty : empty.Distinct := List.nodup_nil

theorem Distinct.add {σ : Store} (h : σ.Distinct) (name : String) (kind : VariableKind)
    (hname : σ.find? name = none) : (σ.add name kind).Distinct := by
  have hfresh : name ∉ σ.slots.toList.map Variable.name := (σ.find?_eq_none_iff name).mp hname
  rw [Distinct, toList_add, List.map_append]
  simpa using h.concat hfresh

theorem Distinct.index_eq {σ : Store} (h : σ.Distinct) {i j : Nat} {x y : Variable}
    (hx : σ.get? i = some x) (hy : σ.get? j = some y) (hname : x.name = y.name) : i = j := by
  rw [get?_eq_getElem?] at hx hy
  apply (List.getElem?_inj (by simpa using (List.getElem?_eq_some_iff.mp hx).1) h).mp
  rw [List.getElem?_map, List.getElem?_map, hx, hy]
  simp [hname]

/-- Where names are distinct, a variable is found by its name. -/
theorem Distinct.find?_name {σ : Store} (h : σ.Distinct) {i : Nat} {x : Variable}
    (hx : σ.get? i = some x) : σ.find? x.name = some i := by
  cases hfind : σ.find? x.name with
  | none =>
      have hmem : x ∈ σ.slots.toList := by
        rw [get?_eq_getElem?] at hx
        exact List.mem_of_getElem? hx
      exact absurd (List.mem_map_of_mem hmem) ((σ.find?_eq_none_iff x.name).mp hfind)
  | some j =>
      obtain ⟨y, hy, hname⟩ := σ.get?_of_find?_eq_some x.name j hfind
      rw [h.index_eq hy hx hname]

/-- The same variables with the values that `ρ` gives to their names. -/
def holding (σ : Store) (ρ : String → Value) : Store :=
  ⟨⟨σ.slots.items.map fun x => { x with value := ρ x.name }⟩⟩

theorem toList_holding (σ : Store) (ρ : String → Value) :
    (σ.holding ρ).slots.toList = σ.slots.toList.map fun x => { x with value := ρ x.name } := by
  simp [holding, Chain.toList]

theorem get?_holding (σ : Store) (ρ : String → Value) (i : Nat) :
    (σ.holding ρ).get? i = (σ.get? i).map fun x => { x with value := ρ x.name } := by
  rw [get?_eq_getElem?, get?_eq_getElem?, toList_holding, List.getElem?_map]

theorem ext_get? (σ τ : Store) (h : ∀ i, σ.get? i = τ.get? i) : σ = τ := by
  rcases σ with ⟨⟨xs⟩⟩
  rcases τ with ⟨⟨ys⟩⟩
  congr 2
  exact Array.ext_getElem? h

/-- Where names are distinct, a write changes the valuation at the name of the variable
and nowhere else. -/
theorem write_holding (σ : Store) (hσ : σ.Distinct) (ρ : String → Value) (i : Nat)
    (x : Variable) (hx : σ.get? i = some x) (v : Value) :
    (σ.holding ρ).write i v = σ.holding (Function.update ρ x.name v) := by
  apply ext_get?
  intro j
  rw [get?_write, get?_holding, get?_holding]
  by_cases hij : i = j
  · subst hij
    simp [hx]
  · rw [if_neg hij]
    cases hy : σ.get? j with
    | none => rfl
    | some y =>
        have hne : y.name ≠ x.name := fun hname => hij (hσ.index_eq hx hy hname.symm)
        simp [Function.update_of_ne hne]

end StackLang.Store
