import StackLang.Decimal

/-!
# Chains

A chain only grows at its end, and its members are named by their index. An index stays
good for as long as the chain lives; one that was taken from a longer chain may point
past the end, and reading there fails.
-/

namespace StackLang

/-- An index past the end of a chain. -/
structure OutOfRange where
  size : Nat
  index : Nat
  deriving DecidableEq

def OutOfRange.message (e : OutOfRange) : String :=
  "index out of bounds: the len is " ++ Decimal.ofNat e.size ++ " but the index is " ++
    Decimal.ofNat e.index

structure Chain (α : Type) where
  items : Array α := #[]

namespace Chain

variable {α : Type}

def empty : Chain α := {}

def size (c : Chain α) : Nat := c.items.size

def isEmpty (c : Chain α) : Bool := c.items.isEmpty

def toList (c : Chain α) : List α := c.items.toList

def push (c : Chain α) (a : α) : Chain α := ⟨c.items.push a⟩

def get? (c : Chain α) (i : Nat) : Option α := c.items[i]?

def get (c : Chain α) (i : Nat) : Except OutOfRange α :=
  match c.get? i with
  | some a => .ok a
  | none => .error ⟨c.size, i⟩

/-- Replaces the member at an index by its image; past the end nothing happens. -/
def modify (c : Chain α) (i : Nat) (f : α → α) : Chain α := ⟨c.items.modify i f⟩

def set (c : Chain α) (i : Nat) (a : α) : Except OutOfRange (Chain α) :=
  if i < c.size then .ok (c.modify i fun _ => a) else .error ⟨c.size, i⟩

/-- The index of the first member. -/
def first? (c : Chain α) : Option Nat := if c.isEmpty then none else some 0

/-- The index of the member behind the one at `i`. -/
def next? (c : Chain α) (i : Nat) : Option Nat := if i + 1 < c.size then some (i + 1) else none

/-- The members with their indices. -/
def entries (c : Chain α) : List (Nat × α) := c.toList.zipIdx.map fun e => (e.2, e.1)

/-- How an index is shown. -/
def dumpIndex (i : Nat) : String := "Idx(" ++ Decimal.ofNat i ++ ")"

def dump (dumpItem : α → String) (c : Chain α) : String :=
  let texts := c.entries.map fun e => Decimal.ofNat e.1 ++ ": " ++ dumpItem e.2
  "\x7b" ++ String.intercalate ", " texts ++ "\x7d"

@[simp] theorem size_empty : (empty : Chain α).size = 0 := rfl

@[simp] theorem size_push (c : Chain α) (a : α) : (c.push a).size = c.size + 1 := by
  simp [size, push]

@[simp] theorem size_modify (c : Chain α) (i : Nat) (f : α → α) : (c.modify i f).size = c.size := by
  simp [size, modify]

@[simp] theorem get?_empty (i : Nat) : (empty : Chain α).get? i = none := rfl

theorem get?_push (c : Chain α) (a : α) (i : Nat) :
    (c.push a).get? i = if i = c.size then some a else c.get? i :=
  Array.getElem?_push

theorem get?_modify (c : Chain α) (i : Nat) (f : α → α) (j : Nat) :
    (c.modify i f).get? j = if i = j then (c.get? j).map f else c.get? j :=
  Array.getElem?_modify

theorem get?_eq_none_iff (c : Chain α) (i : Nat) : c.get? i = none ↔ c.size ≤ i := by
  simp [get?, size]

@[simp] theorem toList_empty : (empty : Chain α).toList = [] := rfl

@[simp] theorem toList_push (c : Chain α) (a : α) : (c.push a).toList = c.toList ++ [a] := by
  simp [toList, push]

end Chain

end StackLang
