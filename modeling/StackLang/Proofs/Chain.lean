import StackLang.Chain

/-!
# Lists in chains

A chain read as a list: growing it by a whole list, and finding a list at an index of
it. `Placed` is how a piece of code is known to lie inside a program.
-/

namespace StackLang

namespace Chain

variable {α : Type}

/-- A chain with a list of members behind it. -/
def append (c : Chain α) (xs : List α) : Chain α := ⟨c.items ++ xs.toArray⟩

@[simp] theorem toList_append (c : Chain α) (xs : List α) :
    (c.append xs).toList = c.toList ++ xs := by
  simp [append, toList]

@[simp] theorem size_append (c : Chain α) (xs : List α) :
    (c.append xs).size = c.size + xs.length := by
  simp [append, size]

theorem get?_eq_getElem? (c : Chain α) (i : Nat) : c.get? i = c.toList[i]? := by
  simp [get?, toList]

theorem map_snd_entries (c : Chain α) : c.entries.map Prod.snd = c.toList := by
  rw [entries, List.map_map]
  exact List.zipIdx_map_fst 0 c.toList

theorem lt_size_of_get? (c : Chain α) (i : Nat) (a : α) (h : c.get? i = some a) : i < c.size := by
  rcases Nat.lt_or_ge i c.size with hlt | hge
  · exact hlt
  · simp [(c.get?_eq_none_iff i).mpr hge] at h

theorem ext_toList (c c' : Chain α) (h : c.toList = c'.toList) : c = c' := by
  rcases c with ⟨⟨xs⟩⟩
  rcases c' with ⟨⟨ys⟩⟩
  obtain rfl : xs = ys := h
  rfl

@[simp] theorem append_nil (c : Chain α) : c.append [] = c := by
  apply ext_toList
  simp

theorem push_eq_append (c : Chain α) (a : α) : c.push a = c.append [a] := by
  apply ext_toList
  simp

theorem push_append (c : Chain α) (a : α) (xs : List α) :
    (c.push a).append xs = c.append (a :: xs) := by
  apply ext_toList
  simp

theorem append_push (c : Chain α) (xs : List α) (a : α) :
    (c.append xs).push a = c.append (xs ++ [a]) := by
  apply ext_toList
  simp

theorem append_append (c : Chain α) (xs ys : List α) :
    (c.append xs).append ys = c.append (xs ++ ys) := by
  apply ext_toList
  simp

theorem get?_append_of_lt (c : Chain α) (xs : List α) (i : Nat) (h : i < c.size) :
    (c.append xs).get? i = c.get? i := by
  rw [get?_eq_getElem?, get?_eq_getElem?, toList_append, List.getElem?_append_left]
  simpa [size, toList] using h

theorem get?_append_size (c : Chain α) (a : α) (xs : List α) :
    (c.append (a :: xs)).get? c.size = some a := by
  rw [get?_eq_getElem?, toList_append]
  simp [size, toList]

/-- The member behind the first `c.size` ones is the one that changes. -/
theorem modify_append_cons (c : Chain α) (a : α) (xs : List α) (f : α → α) :
    (c.append (a :: xs)).modify c.size f = c.append (f a :: xs) := by
  apply ext_toList
  have hlist : ∀ (ys : List α), (ys ++ a :: xs).modify ys.length f = ys ++ f a :: xs := by
    intro ys
    induction ys with
    | nil => rfl
    | cons y ys ih => simp [ih]
  simpa [modify, toList, append, size] using hlist c.toList

/-- The members of `c` from the index `base` on start with `xs`. -/
def Placed (c : Chain α) (base : Nat) (xs : List α) : Prop :=
  ∀ i a, xs[i]? = some a → c.get? (base + i) = some a

namespace Placed

variable {c : Chain α} {base : Nat} {a : α} {xs ys : List α}

theorem head (h : c.Placed base (a :: xs)) : c.get? base = some a := h 0 a rfl

theorem tail (h : c.Placed base (a :: xs)) : c.Placed (base + 1) xs := by
  intro i b hi
  have hb := h (i + 1) b hi
  rwa [Nat.add_comm i 1, ← Nat.add_assoc] at hb

theorem left (h : c.Placed base (xs ++ ys)) : c.Placed base xs := by
  intro i b hi
  obtain ⟨hlt, -⟩ := List.getElem?_eq_some_iff.mp hi
  exact h i b (by rw [List.getElem?_append_left hlt, hi])

theorem right (h : c.Placed base (xs ++ ys)) : c.Placed (base + xs.length) ys := by
  intro i b hi
  have hb := h (xs.length + i) b (by rw [List.getElem?_append_right (by omega)]; simpa using hi)
  rwa [← Nat.add_assoc] at hb

end Placed

/-- Whatever lies between two parts of a chain is placed behind the first. -/
theorem placed_of_toList (c : Chain α) (left xs right : List α)
    (h : c.toList = left ++ xs ++ right) : c.Placed left.length xs := by
  intro i a hi
  obtain ⟨hlt, -⟩ := List.getElem?_eq_some_iff.mp hi
  rw [get?_eq_getElem?, h, List.append_assoc, List.getElem?_append_right (by omega),
    Nat.add_sub_cancel_left, List.getElem?_append_left hlt, hi]

end Chain

end StackLang
