import StackLang.Proofs.Indifference

/-!
# Stores as ordered maps

Whatever is declared, looked up and written, in whatever order, a store stays an ordered map
from names to variables: a name is found exactly at the index of its variable, an index
keeps its variable for good, and the variables stand in the order in which their names first
came up. The second side of this is read off the calls alone: `firsts` are the declarations
that count, and `latest` is the value that was written last.

A store goes through its variables to find a name. A `Ledger` looks the name up in a map
that is kept beside the variables, and names them by handles of 32 bits. Map and variables
are changed one after the other, and refused calls come in between; still each is the
inverse of the other at all times, and a ledger answers every call as the store does, as
long as there are handles left.
-/

namespace StackLang

namespace Chain

variable {α : Type} (c : Chain α)

theorem map_fst_entries : c.entries.map Prod.fst = List.range c.size := by
  rw [entries, List.map_map, List.range_eq_range']
  exact List.zipIdx_map_snd 0 c.toList

theorem mem_entries (i : Nat) (a : α) : (i, a) ∈ c.entries ↔ c.get? i = some a := by
  rw [entries, get?_eq_getElem?]
  simp [List.mem_zipIdx_iff_getElem?]

end Chain

namespace Store

/-- What can be asked of a store. -/
inductive Call where
  | declare (name : String) (kind : VariableKind)
  | find (name : String)
  | write (index : Nat) (v : Value)
  deriving DecidableEq

inductive Answer where
  | declared (index : Nat)
  /-- The name has a variable already, at the index. -/
  | taken (index : Nat)
  | found (index : Option Nat)
  | written
  | outOfRange (e : OutOfRange)
  deriving DecidableEq

/-- The answer to a call, and the store behind it. -/
def call (σ : Store) : Call → Answer × Store
  | .declare name kind =>
    match σ.declare name kind with
    | .ok (i, τ) => (.declared i, τ)
    | .error i => (.taken i, σ)
  | .find name => (.found (σ.find? name), σ)
  | .write i v =>
    match σ.get i with
    | .ok _ => (.written, σ.write i v)
    | .error e => (.outOfRange e, σ)

/-- The store behind calls in a row. -/
def afterCalls (σ : Store) (cs : List Call) : Store := cs.foldl (fun σ c => (σ.call c).2) σ

def answers (σ : Store) : List Call → List Answer
  | [] => []
  | c :: cs => (σ.call c).1 :: (σ.call c).2.answers cs

/-- The first declaration of every name, in the order of the calls. -/
def firsts : List Call → List (String × VariableKind)
  | [] => []
  | .declare name kind :: cs => (name, kind) :: (firsts cs).filter fun d => d.1 ≠ name
  | _ :: cs => firsts cs

/-- The value that was written last to an index, or `v` if none was. -/
def latest (i : Nat) (v : Value) : List Call → Value
  | [] => v
  | .write j w :: cs => latest i (if j = i then w else v) cs
  | _ :: cs => latest i v cs

section Names

variable (σ : Store)

theorem find?_eq_findIdx?_declarations (name : String) :
    σ.find? name = σ.declarations.findIdx? fun d => d.1 = name := by
  rw [find?_eq_findIdx?, declarations, List.findIdx?_map]
  rfl

theorem find?_write (i : Nat) (v : Value) (name : String) :
    (σ.write i v).find? name = σ.find? name := by
  rw [find?_eq_findIdx?_declarations, declarations_write, ← find?_eq_findIdx?_declarations]

theorem find?_add_of_ne {name name' : String} (h : name ≠ name') (kind : VariableKind) :
    (σ.add name kind).find? name' = σ.find? name' := by
  rw [find?_eq_findIdx?, toList_add, List.findIdx?_append, find?_eq_findIdx?]
  simp [List.findIdx?_cons, h]

theorem find?_empty (name : String) : empty.find? name = none :=
  (empty.find?_eq_none_iff name).mpr List.not_mem_nil

theorem declarations_add (name : String) (kind : VariableKind) :
    (σ.add name kind).declarations = σ.declarations ++ [(name, kind)] := by
  simp [declarations]

theorem map_name_eq : σ.slots.toList.map Variable.name = σ.declarations.map Prod.fst := by
  rw [declarations, List.map_map]
  rfl

theorem lt_size_of_get? {i : Nat} {x : Variable} (h : σ.get? i = some x) : i < σ.size :=
  σ.slots.lt_size_of_get? i x h

/-- Where names are distinct, a name is found exactly at the index of its variable. -/
theorem Distinct.find?_eq_some_iff {σ : Store} (h : σ.Distinct) (name : String) (i : Nat) :
    σ.find? name = some i ↔ ∃ x, σ.get? i = some x ∧ x.name = name := by
  constructor
  · exact σ.get?_of_find?_eq_some name i
  · rintro ⟨x, hx, rfl⟩
    exact h.find?_name hx

end Names

section Calls

variable {σ : Store}

/-- A call changes nothing, or it declares a new name, or it writes to a variable. -/
theorem call_cases (σ : Store) (c : Call) :
    (σ.call c).2 = σ ∨
      (∃ name kind, c = .declare name kind ∧ σ.find? name = none ∧
        σ.call c = (.declared σ.size, σ.add name kind)) ∨
      ∃ i v, c = .write i v ∧ σ.call c = (.written, σ.write i v) := by
  cases c with
  | declare name kind =>
      simp only [call, declare]
      cases hname : σ.find? name with
      | none => exact .inr (.inl ⟨name, kind, rfl, hname, rfl⟩)
      | some i => exact .inl rfl
  | find name => exact .inl rfl
  | write i v =>
      simp only [call]
      cases σ.get i with
      | ok x => exact .inr (.inr ⟨i, v, rfl, rfl⟩)
      | error e => exact .inl rfl

theorem call_declare_of_find?_eq_none {name : String} (h : σ.find? name = none)
    (kind : VariableKind) : σ.call (.declare name kind) = (.declared σ.size, σ.add name kind) := by
  simp only [call, declare, h]

theorem call_declare_of_find?_eq_some {name : String} {i : Nat} (h : σ.find? name = some i)
    (kind : VariableKind) : σ.call (.declare name kind) = (.taken i, σ) := by
  simp only [call, declare, h]

theorem afterCalls_cons (c : Call) (cs : List Call) :
    σ.afterCalls (c :: cs) = (σ.call c).2.afterCalls cs := rfl

theorem afterCalls_append (before rest : List Call) :
    σ.afterCalls (before ++ rest) = (σ.afterCalls before).afterCalls rest := List.foldl_append

/-- What calls keep one by one, they keep in a row. -/
theorem afterCalls_induction {P : Store → Prop} (hP : ∀ σ c, P σ → P (σ.call c).2)
    (cs : List Call) (hσ : P σ) : P (σ.afterCalls cs) := by
  induction cs generalizing σ with
  | nil => exact hσ
  | cons c cs ih => exact ih (hP σ c hσ)

theorem distinct_call (h : σ.Distinct) (c : Call) : (σ.call c).2.Distinct := by
  rcases σ.call_cases c with hsame | ⟨name, kind, -, hname, hadd⟩ | ⟨i, v, -, hwrite⟩
  · rwa [hsame]
  · rw [hadd]
    exact h.add name kind hname
  · rw [hwrite, Distinct, map_name_eq, declarations_write, ← map_name_eq]
    exact h

theorem size_le_size_afterCalls (cs : List Call) : σ.size ≤ (σ.afterCalls cs).size := by
  refine afterCalls_induction (P := fun τ => σ.size ≤ τ.size) (fun τ c hτ => ?_) cs (Nat.le_refl _)
  rcases τ.call_cases c with hsame | ⟨name, kind, -, -, hadd⟩ | ⟨i, v, -, hwrite⟩
  · rwa [hsame]
  · rw [hadd, size_add]
    exact Nat.le_succ_of_le hτ
  · rwa [hwrite, size_write]

/-- A call leaves a variable at its index, with its name and its kind. -/
theorem get?_call {i : Nat} {x : Variable} (h : σ.get? i = some x) (c : Call) :
    (σ.call c).2.get? i = some { x with value := latest i x.value [c] } := by
  cases c with
  | declare name kind =>
      cases hname : σ.find? name with
      | none =>
          rw [call_declare_of_find?_eq_none hname, get?_add,
            if_neg (Nat.ne_of_lt (σ.lt_size_of_get? h)), h]
          rfl
      | some j =>
          rw [call_declare_of_find?_eq_some hname, h]
          rfl
  | find name => exact h
  | write j v =>
      have hwrite : (σ.write j v).get? i =
          some { x with value := latest i x.value [.write j v] } := by
        rw [get?_write, h]
        by_cases hj : j = i
        · simp [latest, hj]
        · simp [latest, hj]
      simp only [call, get, Chain.get]
      cases hj : σ.slots.get? j with
      | some y => exact hwrite
      | none =>
          -- A write past the end misses every variable.
          have hne : j ≠ i := by
            rintro rfl
            rw [get?, hj] at h
            cases h
          simpa [latest, hne] using h

theorem latest_cons (i : Nat) (v : Value) (c : Call) (cs : List Call) :
    latest i v (c :: cs) = latest i (latest i v [c]) cs := by
  cases c <;> rfl

/-- Calls in a row leave a variable at its index, with the value that was written last. -/
theorem get?_afterCalls {i : Nat} {x : Variable} (h : σ.get? i = some x) (cs : List Call) :
    (σ.afterCalls cs).get? i = some { x with value := latest i x.value cs } := by
  induction cs generalizing σ x with
  | nil => exact h
  | cons c cs ih =>
      rw [afterCalls_cons, latest_cons]
      exact ih (get?_call h c)

/-- Of the first declarations, those count that are new to the store. -/
theorem declarations_afterCalls (cs : List Call) :
    (σ.afterCalls cs).declarations =
      σ.declarations ++ (firsts cs).filter fun d => σ.find? d.1 = none := by
  induction cs generalizing σ with
  | nil => simp [afterCalls, firsts]
  | cons c cs ih =>
      rw [afterCalls_cons, ih]
      cases c with
      | find name => rfl
      | write i v =>
          rcases σ.call_cases (.write i v) with hsame | ⟨name, kind, ⟨⟩, -⟩ | ⟨i, v, -, hwrite⟩
          · rw [hsame]
            rfl
          · simp only [hwrite, declarations_write, find?_write, firsts]
      | declare name kind =>
          cases hname : σ.find? name with
          | some i =>
              rw [call_declare_of_find?_eq_some hname, firsts,
                List.filter_cons_of_neg (by simp [hname]), List.filter_filter]
              congr 1
              refine List.filter_congr fun d _ => ?_
              by_cases hd : d.1 = name
              · simp [hd, hname]
              · simp [hd]
          | none =>
              rw [call_declare_of_find?_eq_none hname, declarations_add, firsts,
                List.filter_cons_of_pos (by simp [hname]), List.filter_filter, List.append_assoc,
                List.singleton_append]
              congr 2
              refine List.filter_congr fun d _ => ?_
              by_cases hd : d.1 = name
              · simp [hd, σ.find?_add_self name kind hname]
              · simp [hd, σ.find?_add_of_ne (Ne.symm hd)]

/-- A name that is found is found at the same index for good. -/
theorem find?_afterCalls {name : String} {i : Nat} (h : σ.find? name = some i) (cs : List Call) :
    (σ.afterCalls cs).find? name = some i := by
  refine afterCalls_induction (P := fun τ => τ.find? name = some i) (fun τ c hτ => ?_) cs h
  rcases τ.call_cases c with hsame | ⟨name', kind, -, -, hadd⟩ | ⟨j, v, -, hwrite⟩
  · rwa [hsame]
  · rw [hadd]
    exact (Within.add τ name' kind).find? name i hτ
  · rwa [hwrite, find?_write]

/-- A call that does not declare a name leaves it without a variable. -/
theorem find?_call_eq_none {name : String} (h : σ.find? name = none) {c : Call}
    (hc : ∀ kind, c ≠ .declare name kind) : (σ.call c).2.find? name = none := by
  rcases σ.call_cases c with hsame | ⟨name', kind, rfl, -, hadd⟩ | ⟨j, v, -, hwrite⟩
  · rwa [hsame]
  · have hne : name' ≠ name := by
      rintro rfl
      exact hc kind rfl
    rwa [hadd, σ.find?_add_of_ne hne]
  · rwa [hwrite, find?_write]

/-- A name that has come in has the index that its first declaration was answered with. -/
theorem exists_declare_of_find? {name : String} {i : Nat} (cs : List Call)
    (hσ : σ.find? name = none) (h : (σ.afterCalls cs).find? name = some i) :
    ∃ before kind rest, cs = before ++ .declare name kind :: rest ∧
      (∀ k, .declare name k ∉ before) ∧
      ((σ.afterCalls before).call (.declare name kind)).1 = .declared i := by
  induction cs generalizing σ with
  | nil =>
      rw [show σ.afterCalls [] = σ from rfl, hσ] at h
      cases h
  | cons c cs ih =>
      by_cases hc : ∃ kind, c = .declare name kind
      · obtain ⟨kind, rfl⟩ := hc
        have hdeclare := call_declare_of_find?_eq_none hσ kind
        rw [afterCalls_cons, hdeclare,
          find?_afterCalls (σ.find?_add_self name kind hσ)] at h
        obtain rfl := Option.some.inj h
        exact ⟨[], kind, cs, rfl, by simp, by rw [show σ.afterCalls [] = σ from rfl, hdeclare]⟩
      · have hnone := find?_call_eq_none hσ fun kind hkind => hc ⟨kind, hkind⟩
        obtain ⟨before, kind, rest, rfl, hbefore, hanswer⟩ := ih hnone h
        refine ⟨c :: before, kind, rest, rfl, fun k hk => ?_, hanswer⟩
        rcases List.mem_cons.mp hk with hfirst | hlater
        · exact hc ⟨k, hfirst.symm⟩
        · exact hbefore k hlater

end Calls

end Store

/-- A handle of 32 bits: an index plus one, so that it is never zero. -/
structure Handle where
  raw : UInt32
  ne_zero : raw ≠ 0
  deriving DecidableEq

namespace Handle

/-- How many indices have a handle. -/
def capacity : Nat := 2 ^ 32 - 1

def index (h : Handle) : Nat := h.raw.toNat - 1

theorem toNat_ofNat_succ {i : Nat} (h : i < capacity) : (UInt32.ofNat (i + 1)).toNat = i + 1 := by
  rw [UInt32.toNat_ofNat', Nat.mod_eq_of_lt]
  rw [capacity] at h
  omega

/-- The handle of an index, if there is one. -/
def ofIndex? (i : Nat) : Option Handle :=
  if h : i < capacity then
    some ⟨UInt32.ofNat (i + 1), fun hzero => by simpa [hzero] using toNat_ofNat_succ h⟩
  else none

theorem index_lt (h : Handle) : h.index < capacity := by
  have hlt := h.raw.toNat_lt
  rw [index, capacity]
  omega

theorem index_injective {h h' : Handle} (heq : h.index = h'.index) : h = h' := by
  have hpos (h : Handle) : h.raw.toNat ≠ 0 := fun hzero => h.ne_zero (UInt32.toNat_inj.mp hzero)
  have hraw : h.raw = h'.raw := by
    have := hpos h
    have := hpos h'
    apply UInt32.toNat_inj.mp
    rw [index, index] at heq
    omega
  rcases h with ⟨raw, hne⟩
  rcases h' with ⟨raw', hne'⟩
  obtain rfl : raw = raw' := hraw
  rfl

/-- Handles and the indices below the capacity are the same things. -/
theorem ofIndex?_eq_some_iff (i : Nat) (h : Handle) : ofIndex? i = some h ↔ h.index = i := by
  have hindex {i : Nat} {h : Handle} (heq : ofIndex? i = some h) : h.index = i := by
    rw [ofIndex?] at heq
    split at heq
    · next hlt =>
      obtain rfl := Option.some.inj heq
      rw [index, toNat_ofNat_succ hlt, Nat.add_sub_cancel]
    · cases heq
  refine ⟨hindex, ?_⟩
  rintro rfl
  obtain ⟨h', hh'⟩ : ∃ h', ofIndex? h.index = some h' := ⟨_, dif_pos h.index_lt⟩
  rw [hh', index_injective (hindex hh')]

theorem ofIndex?_eq_none_iff (i : Nat) : ofIndex? i = none ↔ capacity ≤ i := by
  rw [ofIndex?]
  split
  · next h => simpa using h
  · next h => simpa using h

end Handle

/-- Variables, and a map from their names to their handles. -/
structure Ledger where
  names : Std.HashMap String Handle := {}
  slots : Chain Variable := {}

namespace Ledger

open Store (Call Answer)

/-- The answer to a call, and the ledger behind it; `none` if there is no handle left. -/
def call (k : Ledger) : Call → Option (Answer × Ledger)
  | .declare name kind =>
    match k.names[name]? with
    | some h => some (.taken h.index, k)
    | none => do
      let h ← Handle.ofIndex? k.slots.size
      return (.declared h.index, {
        names := k.names.insert name h
        slots := k.slots.push ⟨name, kind, Value.default kind.toKind⟩ })
  | .find name => some (.found (k.names[name]?.map Handle.index), k)
  | .write i v =>
    match k.slots.get i with
    | .ok _ => some (.written, { k with slots := k.slots.modify i fun x => { x with value := v } })
    | .error e => some (.outOfRange e, k)

/-- The answers to calls in a row, and the ledger behind them. -/
def serve (k : Ledger) : List Call → Option (List Answer × Ledger)
  | [] => some ([], k)
  | c :: cs => do
    let (a, k') ← k.call c
    let (as, k'') ← k'.serve cs
    return (a :: as, k'')

/-- The ledger has the variables of the store, and the map of names finds them. -/
structure Records (k : Ledger) (σ : Store) : Prop where
  slots : k.slots = σ.slots
  names : ∀ name, k.names[name]?.map Handle.index = σ.find? name

variable {k : Ledger} {σ : Store}

theorem records_empty : Records {} Store.empty where
  slots := rfl
  names name := by
    rw [Store.find?_empty, Option.map_eq_none_iff]
    exact Std.HashMap.getElem?_empty

theorem Records.declare (h : k.Records σ) {name : String} (hname : σ.find? name = none)
    {i : Handle} (hi : i.index = σ.size) (kind : VariableKind) :
    Records ⟨k.names.insert name i, k.slots.push ⟨name, kind, Value.default kind.toKind⟩⟩
      (σ.add name kind) where
  slots := by rw [h.slots, Store.add]
  names name' := by
    rw [Std.HashMap.getElem?_insert]
    by_cases hne : name = name'
    · subst hne
      simp [hi, σ.find?_add_self name kind hname]
    · rw [if_neg (by simpa using hne), h.names, σ.find?_add_of_ne hne]

theorem Records.write (h : k.Records σ) (i : Nat) (v : Value) :
    Records { k with slots := k.slots.modify i fun x => { x with value := v } } (σ.write i v) where
  slots := by rw [h.slots, Store.write]
  names name := by rw [σ.find?_write, h.names]

/-- As long as there are handles, a ledger answers a call as the store does. -/
theorem Records.call_of_le (h : k.Records σ) (c : Call)
    (hsize : (σ.call c).2.size ≤ Handle.capacity) :
    ∃ k', k.call c = some ((σ.call c).1, k') ∧ k'.Records (σ.call c).2 := by
  cases c with
  | find name =>
      refine ⟨k, ?_, h⟩
      rw [call, h.names]
      rfl
  | write i v =>
      simp only [call, Store.call, Store.get, h.slots]
      cases σ.slots.get i with
      | ok x =>
          have hwrite := h.write i v
          rw [h.slots] at hwrite
          exact ⟨_, rfl, hwrite⟩
      | error e => exact ⟨k, rfl, h⟩
  | declare name kind =>
      have hnames := h.names name
      cases hname : σ.find? name with
      | some i =>
          rw [hname] at hnames
          obtain ⟨i, hi, rfl⟩ := Option.map_eq_some_iff.mp hnames
          refine ⟨k, ?_, ?_⟩
          · simp only [call, hi, Store.call_declare_of_find?_eq_some hname]
          · rwa [Store.call_declare_of_find?_eq_some hname]
      | none =>
          rw [hname, Option.map_eq_none_iff] at hnames
          rw [Store.call_declare_of_find?_eq_none hname, Store.size_add] at hsize
          obtain ⟨i, hi⟩ : ∃ i, Handle.ofIndex? k.slots.size = some i := by
            rw [← Option.ne_none_iff_exists', Ne, Handle.ofIndex?_eq_none_iff, h.slots]
            exact Nat.not_le.mpr hsize
          have hindex : i.index = σ.size := by
            rw [(Handle.ofIndex?_eq_some_iff _ i).mp hi, h.slots]
            rfl
          refine ⟨⟨k.names.insert name i, k.slots.push ⟨name, kind, Value.default kind.toKind⟩⟩,
            ?_, ?_⟩
          · simp only [call, hnames, hi, Store.call_declare_of_find?_eq_none hname, ← hindex]
            rfl
          · rw [Store.call_declare_of_find?_eq_none hname]
            exact h.declare hname hindex kind

/-- A declaration for which there is no handle is the end of a ledger. -/
theorem Records.call_of_lt (h : k.Records σ) (c : Call) (hσ : σ.size ≤ Handle.capacity)
    (hsize : Handle.capacity < (σ.call c).2.size) : k.call c = none := by
  rcases σ.call_cases c with hsame | ⟨name, kind, rfl, hname, hadd⟩ | ⟨i, v, -, hwrite⟩
  · rw [hsame] at hsize
    exact absurd hσ (Nat.not_le.mpr hsize)
  · rw [hadd, Store.size_add] at hsize
    have hnames := h.names name
    rw [hname, Option.map_eq_none_iff] at hnames
    have hfull : Handle.ofIndex? k.slots.size = none := by
      rw [Handle.ofIndex?_eq_none_iff, h.slots]
      exact Nat.le_of_lt_succ hsize
    simp only [call, hnames, hfull]
    rfl
  · rw [hwrite, Store.size_write] at hsize
    exact absurd hσ (Nat.not_le.mpr hsize)

theorem Records.serve_of_le (h : k.Records σ) (cs : List Call)
    (hsize : (σ.afterCalls cs).size ≤ Handle.capacity) :
    ∃ k', k.serve cs = some (σ.answers cs, k') ∧ k'.Records (σ.afterCalls cs) := by
  induction cs generalizing k σ with
  | nil => exact ⟨k, rfl, h⟩
  | cons c cs ih =>
      obtain ⟨k', hcall, hk'⟩ :=
        h.call_of_le c (Nat.le_trans (Store.size_le_size_afterCalls cs) hsize)
      obtain ⟨k'', hserve, hk''⟩ := ih hk' hsize
      refine ⟨k'', ?_, hk''⟩
      simp only [serve, hcall, hserve, Option.bind_eq_bind, Option.bind_some]
      rfl

theorem Records.serve_of_lt (h : k.Records σ) (cs : List Call) (hσ : σ.size ≤ Handle.capacity)
    (hsize : Handle.capacity < (σ.afterCalls cs).size) : k.serve cs = none := by
  induction cs generalizing k σ with
  | nil => exact absurd hσ (Nat.not_le.mpr hsize)
  | cons c cs ih =>
      rcases Nat.lt_or_ge Handle.capacity (σ.call c).2.size with hlt | hle
      · simp only [serve, h.call_of_lt c hσ hlt, Option.bind_eq_bind, Option.bind_none]
      · obtain ⟨k', hcall, hk'⟩ := h.call_of_le c hle
        simp only [serve, hcall, ih hk' hle hsize, Option.bind_eq_bind, Option.bind_some,
          Option.bind_none]

/-- Where names are distinct, the map and the variables are each the inverse of the other. -/
theorem Records.names_eq_some_iff (h : k.Records σ) (hσ : σ.Distinct) (name : String)
    (i : Handle) :
    k.names[name]? = some i ↔ ∃ x, k.slots.get? i.index = some x ∧ x.name = name := by
  rw [h.slots]
  refine Iff.trans ?_ (hσ.find?_eq_some_iff name i.index)
  rw [← h.names, Option.map_eq_some_iff]
  constructor
  · exact fun hi => ⟨i, hi, rfl⟩
  · rintro ⟨i', hi', hindex⟩
    rwa [← Handle.index_injective hindex]

end Ledger

namespace Store

/-- The store `σ` is an ordered map that the calls `cs` have come to. -/
structure Faithful (cs : List Call) (σ : Store) : Prop where
  /-- A name is found at an index exactly if the variable there has that name. -/
  found_iff : ∀ name i, σ.find? name = some i ↔ i < σ.size ∧ ∃ x, σ.get? i = some x ∧ x.name = name
  /-- No two variables have the same name. -/
  distinct : σ.Distinct
  /-- A declaration succeeds exactly if no variable has the name. -/
  fresh_iff : ∀ name kind, (∃ i τ, σ.declare name kind = .ok (i, τ)) ↔
    ∀ x ∈ σ.slots.toList, x.name ≠ name
  /-- It is answered with the next index, where the new variable has the default value. -/
  declared : ∀ name kind i τ, σ.declare name kind = .ok (i, τ) →
    i = σ.size ∧
      τ.slots.entries = σ.slots.entries ++ [(σ.size, ⟨name, kind, Value.default kind.toKind⟩)]
  /-- One that does not succeed changes nothing. It is answered with the index that the first
  declaration of the name was answered with. -/
  taken : ∀ name kind i, σ.declare name kind = .error i →
    σ.call (.declare name kind) = (.taken i, σ) ∧
      ∃ before kind' rest, cs = before ++ .declare name kind' :: rest ∧
        (∀ k, .declare name k ∉ before) ∧
        ((empty.afterCalls before).call (.declare name kind')).1 = .declared i
  /-- An index keeps its variable, with its name, its kind and the value written last. -/
  stable : ∀ before rest i x, cs = before ++ rest → (empty.afterCalls before).get? i = some x →
    σ.get? i = some { x with value := latest i x.value rest }
  /-- Every variable is listed once, under its index, in the order of the first declarations. -/
  listed : σ.slots.entries.map Prod.fst = List.range σ.size ∧
    (∀ i x, (i, x) ∈ σ.slots.entries ↔ σ.get? i = some x) ∧
    (σ.slots.entries.map fun e => (e.2.name, e.2.kind)) = firsts cs
  /-- With a map of names beside the variables all of this is the same, as long as there are
  handles: every call has the same answer, and map and variables are inverse. -/
  mapped : σ.size ≤ Handle.capacity → ∃ k, Ledger.serve {} cs = some (empty.answers cs, k) ∧
    k.slots = σ.slots ∧
    ∀ name i, k.names[name]? = some i ↔ ∃ x, k.slots.get? i.index = some x ∧ x.name = name
  full : Handle.capacity < σ.size → Ledger.serve {} cs = none

theorem entries_add (σ : Store) (name : String) (kind : VariableKind) :
    (σ.add name kind).slots.entries =
      σ.slots.entries ++ [(σ.size, ⟨name, kind, Value.default kind.toKind⟩)] := by
  rw [Chain.entries, toList_add, List.zipIdx_append, List.map_append, Chain.entries]
  simp [size, Chain.size, Chain.toList]

theorem declare_eq_ok_iff (σ : Store) (name : String) (kind : VariableKind) (i : Nat) (τ : Store) :
    σ.declare name kind = .ok (i, τ) ↔ σ.find? name = none ∧ i = σ.size ∧ τ = σ.add name kind := by
  rw [declare]
  cases σ.find? name with
  | none => simp [eq_comm]
  | some j => simp

theorem declare_eq_error_iff (σ : Store) (name : String) (kind : VariableKind) (i : Nat) :
    σ.declare name kind = .error i ↔ σ.find? name = some i := by
  rw [declare]
  cases σ.find? name with
  | none => simp
  | some j => simp

/-- Whatever calls are made, a store is an ordered map from names to variables. -/
theorem faithful_of_calls (cs : List Call) : Faithful cs (empty.afterCalls cs) := by
  have hdistinct : (empty.afterCalls cs).Distinct :=
    afterCalls_induction (P := Distinct) (fun _ c hτ => distinct_call hτ c) cs distinct_empty
  have hledger := Ledger.records_empty
  refine ⟨?_, hdistinct, ?_, ?_, ?_, ?_, ?_, ?_, ?_⟩
  · intro name i
    rw [hdistinct.find?_eq_some_iff]
    constructor
    · rintro ⟨x, hx, hname⟩
      exact ⟨lt_size_of_get? _ hx, x, hx, hname⟩
    · exact And.right
  · intro name kind
    simp only [declare_eq_ok_iff, find?_eq_none_iff]
    simp
  · intro name kind i τ h
    obtain ⟨-, rfl, rfl⟩ := (declare_eq_ok_iff _ name kind i τ).mp h
    exact ⟨rfl, entries_add _ name kind⟩
  · intro name kind i h
    have hfound := (declare_eq_error_iff _ name kind i).mp h
    exact ⟨call_declare_of_find?_eq_some hfound kind,
      exists_declare_of_find? cs (find?_empty name) hfound⟩
  · rintro before rest i x rfl hx
    rw [afterCalls_append]
    exact get?_afterCalls hx rest
  · refine ⟨Chain.map_fst_entries _, Chain.mem_entries _, ?_⟩
    rw [show (fun e : Nat × Variable => (e.2.name, e.2.kind)) =
        (fun x : Variable => (x.name, x.kind)) ∘ Prod.snd from rfl, ← List.map_map,
      Chain.map_snd_entries, ← declarations, declarations_afterCalls]
    simp only [find?_empty, decide_true, List.filter_true]
    rfl
  · intro hsize
    obtain ⟨k, hserve, hk⟩ := hledger.serve_of_le cs hsize
    exact ⟨k, hserve, hk.slots, hk.names_eq_some_iff hdistinct⟩
  · exact hledger.serve_of_lt cs (Nat.zero_le _)

/-- A name that is taken, and a write past the end. -/
example : empty.answers [.declare "a" .integer, .declare "s" .string, .declare "a" .string,
    .write 0 (.integer 7), .find "s", .find "b", .write 2 (.integer 1)] =
      [.declared 0, .declared 1, .taken 0, .written, .found (some 1), .found none,
        .outOfRange ⟨2, 2⟩] := by
  decide +kernel

end Store

end StackLang
