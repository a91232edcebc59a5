import Mathlib.Data.List.Basic
import Mathlib.Data.List.Induction
import Mathlib.Data.Nat.Digits.Defs
import StackLang.Decimal

/-!
# What numerals denote

A numeral is at most one sign and then digits, and `Denotes` says which integer it stands
for, by the places of its digits. Reading finds that integer if it has 64 bits, and it finds
nothing otherwise. It makes no difference whether the range is looked at in the end, when
the whole numeral is read, or after every digit, in 64 bits: behind a number that is too
large, more digits make it larger still, to the side of its sign.

Among the numerals of an integer there is one without anything that could be left out, and
that is the one that is written.
-/

namespace StackLang.Decimal

variable {cs : List Char}

theorem isDigit_iff (c : Char) : isDigit c = true ↔ 48 ≤ c.toNat ∧ c.toNat ≤ 57 := by
  simp only [isDigit, Bool.and_eq_true, decide_eq_true_eq, Char.le_def, UInt32.le_iff_toNat_le]
  exact Iff.rfl

/-- There are digits and nothing else. -/
def Digital (cs : List Char) : Prop := cs ≠ [] ∧ ∀ c ∈ cs, isDigit c = true

/-- At least one digit and nothing else. -/
def IsNumeral (text : String) : Prop := text.toList ≠ [] ∧ ∀ c ∈ text.toList, isDigit c = true

section Reading

theorem readNat?_eq_some_iff {n : Nat} : readNat? cs = some n ↔ Digital cs ∧ value cs = n := by
  by_cases h : Digital cs
  · have hread : readNat? cs = some (value cs) := by
      rw [readNat?, if_neg]
      simpa [h.1] using h.2
    simp [hread, h]
  · have hread : readNat? cs = none := by
      rw [readNat?, if_pos]
      by_contra hcs
      exact h (by simpa [Digital] using hcs)
    simp [hread, h]

/-- The sign of a numeral, and what stands behind it. -/
def signed : List Char → Int × List Char
  | '-' :: cs => (-1, cs)
  | '+' :: cs => (1, cs)
  | cs => (1, cs)

theorem sign_cases (cs : List Char) : (signed cs).1 = 1 ∨ (signed cs).1 = -1 := by
  fun_cases signed cs with
  | case1 => exact .inr rfl
  | case2 => exact .inl rfl
  | case3 => exact .inl rfl

/-- No digit is a sign. -/
theorem signed_of_digital (h : Digital cs) : signed cs = (1, cs) := by
  fun_cases signed cs with
  | case1 ds => exact absurd (h.2 '-' List.mem_cons_self) (by decide)
  | case2 ds => exact absurd (h.2 '+' List.mem_cons_self) (by decide)
  | case3 => rfl

theorem readInt?_eq_map (cs : List Char) :
    readInt? cs = (readNat? (signed cs).2).map fun n : Nat => (signed cs).1 * (n : Int) := by
  fun_cases signed cs with
  | case1 ds => rw [readInt?]; cases readNat? ds <;> simp
  | case2 ds => rw [readInt?]; cases readNat? ds <;> simp
  | case3 _ hminus hplus =>
      rw [readInt?]
      · cases readNat? cs <;> simp
      · exact hminus
      · exact hplus

/-- Every place counts ten times as much as the next. -/
theorem value_eq_ofDigits (cs : List Char) :
    value cs = Nat.ofDigits 10 (cs.reverse.map digitValue) := by
  induction cs using List.reverseRecOn with
  | nil => rfl
  | append_singleton cs c ih =>
      rw [value_append_singleton, ih, List.reverse_append, List.reverse_singleton,
        List.singleton_append, List.map_cons, Nat.ofDigits_cons, Nat.add_comm]

/-- The text is a numeral for the integer. -/
inductive Denotes : List Char → Int → Prop where
  | unsigned (cs : List Char) (h : Digital cs) :
      Denotes cs (Nat.ofDigits 10 (cs.reverse.map digitValue) : Nat)
  | plus (cs : List Char) (h : Digital cs) :
      Denotes ('+' :: cs) (Nat.ofDigits 10 (cs.reverse.map digitValue) : Nat)
  | minus (cs : List Char) (h : Digital cs) :
      Denotes ('-' :: cs) (-(Nat.ofDigits 10 (cs.reverse.map digitValue) : Nat))

theorem denotes_signed (h : Digital (signed cs).2) :
    Denotes cs ((signed cs).1 * (value (signed cs).2 : Int)) := by
  rw [value_eq_ofDigits]
  revert h
  fun_cases signed cs with
  | case1 ds => rw [Int.neg_one_mul]; exact .minus ds
  | case2 ds => rw [Int.one_mul]; exact .plus ds
  | case3 => rw [Int.one_mul]; exact .unsigned cs

theorem readInt?_eq_some_iff {z : Int} : readInt? cs = some z ↔ Denotes cs z := by
  rw [readInt?_eq_map, Option.map_eq_some_iff]
  constructor
  · rintro ⟨n, hn, rfl⟩
    obtain ⟨hcs, rfl⟩ := readNat?_eq_some_iff.mp hn
    exact denotes_signed hcs
  · rintro (⟨_, h⟩ | ⟨ds, h⟩ | ⟨ds, h⟩)
    · rw [signed_of_digital h]
      exact ⟨_, readNat?_eq_some_iff.mpr ⟨h, value_eq_ofDigits cs⟩, Int.one_mul _⟩
    · exact ⟨_, readNat?_eq_some_iff.mpr ⟨h, value_eq_ofDigits ds⟩, Int.one_mul _⟩
    · exact ⟨_, readNat?_eq_some_iff.mpr ⟨h, value_eq_ofDigits ds⟩, Int.neg_one_mul _⟩

end Reading

section Range

/-- An integer as one of 64 bits; `none` outside the range. -/
def narrow? (z : Int) : Option Int64 :=
  if Int64.minValue.toInt ≤ z ∧ z ≤ Int64.maxValue.toInt then some (Int64.ofInt z) else none

theorem readInt64?_eq_bind (cs : List Char) : readInt64? cs = (readInt? cs).bind narrow? := by
  rw [readInt64?]
  cases readInt? cs <;> rfl

theorem narrow?_toInt (n : Int64) : narrow? n.toInt = some n := by
  rw [narrow?, if_pos ⟨n.minValue_le_toInt, n.toInt_le⟩, Int64.ofInt_toInt]

theorem narrow?_eq_some_iff {z : Int} {n : Int64} : narrow? z = some n ↔ n.toInt = z := by
  constructor
  · intro h
    rw [narrow?] at h
    split at h
    · next hrange =>
      obtain rfl := Option.some.inj h
      exact Int64.toInt_ofInt_of_le hrange.1 (Int.lt_add_one_of_le hrange.2)
    · cases h
  · rintro rfl
    exact narrow?_toInt n

theorem exists_toInt_iff {z : Int} : (∃ n : Int64, n.toInt = z) ↔ -2 ^ 63 ≤ z ∧ z ≤ 2 ^ 63 - 1 := by
  constructor
  · rintro ⟨n, rfl⟩
    exact ⟨n.minValue_le_toInt, n.toInt_le⟩
  · rintro ⟨hmin, hmax⟩
    exact ⟨Int64.ofInt z, Int64.toInt_ofInt_of_le hmin (Int.lt_add_one_of_le hmax)⟩

/-- Reading finds the integer that a numeral stands for, if it has 64 bits. -/
theorem readInt64?_eq_some_iff {n : Int64} : readInt64? cs = some n ↔ Denotes cs n.toInt := by
  rw [readInt64?_eq_bind, Option.bind_eq_some_iff]
  constructor
  · rintro ⟨z, hz, hn⟩
    rw [narrow?_eq_some_iff.mp hn]
    exact readInt?_eq_some_iff.mp hz
  · exact fun h => ⟨n.toInt, readInt?_eq_some_iff.mpr h, narrow?_toInt n⟩

theorem exists_readInt64?_iff (cs : List Char) :
    (∃ n, readInt64? cs = some n) ↔ ∃ z, Denotes cs z ∧ -2 ^ 63 ≤ z ∧ z ≤ 2 ^ 63 - 1 := by
  simp only [readInt64?_eq_some_iff, ← exists_toInt_iff]
  constructor
  · exact fun ⟨n, hn⟩ => ⟨n.toInt, hn, n, rfl⟩
  · rintro ⟨_, hz, n, rfl⟩
    exact ⟨n, hz⟩

theorem readInt?_of_isNumeral {text : String} (h : IsNumeral text) :
    readInt? text.toList = some (value text.toList : Int) := by
  rw [readInt?_eq_map, signed_of_digital h, readNat?_eq_some_iff.mpr ⟨h, rfl⟩]
  simp

/-- A numeral can be read if its value fits in 63 bits. -/
theorem readInt64?_of_isNumeral {text : String} (h : IsNumeral text) :
    readInt64? text.toList =
      if value text.toList ≤ 2 ^ 63 - 1 then some (Int64.ofInt (value text.toList)) else none := by
  have hmin : Int64.minValue.toInt ≤ (value text.toList : Int) := by
    have : Int64.minValue.toInt = -2 ^ 63 := rfl
    omega
  have hmax : (value text.toList : Int) ≤ Int64.maxValue.toInt ↔
      value text.toList ≤ 2 ^ 63 - 1 := by
    have : Int64.maxValue.toInt = 2 ^ 63 - 1 := rfl
    omega
  simp only [readInt64?, readInt?_of_isNumeral h, hmin, true_and, hmax]

end Range

section Accumulation

/-- One more digit behind a number. Both operations are checked. -/
def shift? (sign : Int) (n : Int64) (c : Char) : Option Int64 :=
  (narrow? (n.toInt * 10)).bind fun tens => narrow? (tens.toInt + sign * digitValue c)

/-- Takes one digit after the other, as long as the number has 64 bits. -/
def accumulate? (sign : Int) (n : Int64) : List Char → Option Int64
  | [] => some n
  | c :: cs => if isDigit c then (shift? sign n c).bind fun m => accumulate? sign m cs else none

/-- A numeral as a 64-bit integer, with no number on the way that has more bits. -/
def scan? (cs : List Char) : Option Int64 :=
  if (signed cs).2.isEmpty then none else accumulate? (signed cs).1 0 (signed cs).2

/-- The number with more digits behind it. -/
def extended (a : Nat) (cs : List Char) : Nat := cs.foldl (fun n c => 10 * n + digitValue c) a

theorem le_extended (a : Nat) (cs : List Char) : a ≤ extended a cs := by
  induction cs generalizing a with
  | nil => exact Nat.le_refl a
  | cons c cs ih => exact Nat.le_trans (by omega) (ih (10 * a + digitValue c))

variable {sign : Int} (hsign : sign = 1 ∨ sign = -1)
include hsign

/-- What is out of range stays so when it grows to the side of its sign. -/
theorem narrow?_eq_none_of_le {a b : Nat} (hab : a ≤ b) (h : narrow? (sign * a) = none) :
    narrow? (sign * b) = none := by
  have hmin : Int64.minValue.toInt = -2 ^ 63 := rfl
  have hmax : Int64.maxValue.toInt = 2 ^ 63 - 1 := rfl
  have hrange : ¬ (Int64.minValue.toInt ≤ sign * a ∧ sign * a ≤ Int64.maxValue.toInt) := by
    simpa [narrow?] using h
  rw [narrow?, if_neg]
  rcases hsign with rfl | rfl <;> omega

theorem shift?_eq {n : Int64} {a : Nat} (hn : n.toInt = sign * a) (c : Char) :
    shift? sign n c = narrow? (sign * (10 * a + digitValue c : Nat)) := by
  have htens : n.toInt * 10 = sign * (10 * a : Nat) := by rw [hn]; push_cast; ring
  rw [shift?, htens]
  cases hnarrow : narrow? (sign * (10 * a : Nat)) with
  | none => rw [narrow?_eq_none_of_le hsign (Nat.le_add_right _ _) hnarrow, Option.bind_none]
  | some tens =>
      rw [Option.bind_some, narrow?_eq_some_iff.mp hnarrow, ← Int.mul_add, Nat.cast_add]

/-- Checking after every digit comes to the same as checking in the end. -/
theorem accumulate?_eq (cs : List Char) {n : Int64} {a : Nat} (hn : n.toInt = sign * a) :
    accumulate? sign n cs =
      if cs.all isDigit then narrow? (sign * (extended a cs : Nat)) else none := by
  -- The number so far is `a` with the sign; all that follows can only add to `a`.
  induction cs generalizing n a with
  | nil =>
      rw [accumulate?, List.all_nil, if_pos rfl]
      exact (narrow?_eq_some_iff.mpr hn).symm
  | cons c cs ih =>
      rw [accumulate?, List.all_cons, shift?_eq hsign hn]
      cases isDigit c with
      | false => rfl
      | true =>
          rw [if_pos rfl, Bool.true_and]
          cases hshift : narrow? (sign * (10 * a + digitValue c : Nat)) with
          | some m => exact ih (narrow?_eq_some_iff.mp hshift)
          | none =>
              have hnone := narrow?_eq_none_of_le hsign (le_extended _ cs) hshift
              rw [Option.bind_none, extended, List.foldl_cons, ← extended, hnone, ite_self]

omit hsign in
theorem scan?_eq_readInt64? (cs : List Char) : scan? cs = readInt64? cs := by
  have hzero : (0 : Int64).toInt = (signed cs).1 * (0 : Nat) := by simp
  rw [scan?, accumulate?_eq (sign_cases cs) _ hzero, readInt64?_eq_bind, readInt?_eq_map, readNat?]
  cases (signed cs).2.isEmpty <;> cases (signed cs).2.all isDigit <;> rfl

end Accumulation

section Writing

theorem digitValue_digit {n : Nat} (h : n < 10) : digitValue (digit n) = n := by
  revert n
  decide

theorem isDigit_digit {n : Nat} (h : n < 10) : isDigit (digit n) = true := by
  revert n
  decide

theorem digitValue_lt {c : Char} (h : isDigit c = true) : digitValue c < 10 := by
  rw [isDigit_iff] at h
  have hzero : '0'.toNat = 48 := rfl
  rw [digitValue]
  omega

theorem digit_digitValue {c : Char} (h : isDigit c = true) : digit (digitValue c) = c := by
  rw [isDigit_iff] at h
  have hzero : '0'.toNat = 48 := rfl
  have hsum : '0'.toNat + (c.toNat - '0'.toNat) = c.toNat := by omega
  rw [digit, digitValue, hsum, Char.ofNat_toNat]

theorem isDigit_of_mem_digits (n : Nat) : ∀ c ∈ digits n, isDigit c = true := by
  fun_induction digits n with
  | case1 n h => simpa using isDigit_digit h
  | case2 n h ih =>
      intro c hc
      rcases List.mem_append.mp hc with hc | hc
      · exact ih c hc
      · obtain rfl := List.mem_singleton.mp hc
        exact isDigit_digit (Nat.mod_lt n (by decide))

theorem value_digits (n : Nat) : value (digits n) = n := by
  fun_induction digits n with
  | case1 n h =>
      rw [← List.nil_append [digit n], value_append_singleton, digitValue_digit h]
      simp
  | case2 n h ih =>
      rw [value_append_singleton, ih, digitValue_digit (Nat.mod_lt n (by decide))]
      exact Nat.div_add_mod n 10

/-- Digits without a zero in front that could be left out. -/
def Terse (cs : List Char) : Prop := Digital cs ∧ (cs.head? = some '0' → cs = ['0'])

theorem digits_ten_mul {n : Nat} (hn : n ≠ 0) {k : Nat} (hk : k < 10) :
    digits (10 * n + k) = digits n ++ [digit k] := by
  rw [digits, if_neg (by omega), show (10 * n + k) / 10 = n by omega,
    show (10 * n + k) % 10 = k by omega]

theorem digits_of_lt {n : Nat} (h : n < 10) : digits n = [digit n] := by
  rw [digits, if_pos h]

theorem terse_digits (n : Nat) : Terse (digits n) := by
  refine ⟨⟨digits_ne_nil n, isDigit_of_mem_digits n⟩, ?_⟩
  fun_induction digits n with
  | case1 n h => simp
  | case2 n h ih =>
      intro hhead
      rw [List.head?_append_of_ne_nil _ (digits_ne_nil _)] at hhead
      have hzero := congrArg value (ih hhead)
      rw [value_digits] at hzero
      have hten : n / 10 = 0 := hzero
      omega

theorem isNumeral_ofNat (n : Nat) : IsNumeral (ofNat n) := by
  rw [IsNumeral, ofNat, String.toList_ofList]
  exact (terse_digits n).1

theorem readNat?_ofNat (n : Nat) : readNat? (ofNat n).toList = some n := by
  rw [ofNat, String.toList_ofList]
  exact readNat?_eq_some_iff.mpr ⟨(terse_digits n).1, value_digits n⟩

/-- Digits without needless zeros are those that are written for their value. -/
theorem digits_value (cs : List Char) (h : Terse cs) : digits (value cs) = cs := by
  induction cs using List.reverseRecOn with
  | nil => exact absurd rfl h.1.1
  | append_singleton cs c ih =>
      obtain ⟨⟨-, hdigits⟩, hhead⟩ := h
      have hc : isDigit c = true := hdigits c (by simp)
      have hlt := digitValue_lt hc
      rw [value_append_singleton]
      by_cases hcs : cs = []
      · subst hcs
        rw [value_nil, Nat.mul_zero, Nat.zero_add, digits_of_lt hlt, digit_digitValue hc,
          List.nil_append]
      · -- A zero in front would be the only digit, but there is one behind it.
        have hhead' : cs.head? ≠ some '0' := by
          intro hzero
          rw [List.head?_append_of_ne_nil _ hcs] at hhead
          have hlength := congrArg List.length (hhead hzero)
          simp [hcs] at hlength
        have hdigital : Digital cs := ⟨hcs, fun d hd => hdigits d (by simp [hd])⟩
        have hwritten := ih ⟨hdigital, fun hzero => absurd hzero hhead'⟩
        have hvalue : value cs ≠ 0 := by
          intro hzero
          rw [hzero] at hwritten
          exact hhead' (by rw [← hwritten, digits_of_lt (by decide)]; rfl)
        rw [digits_ten_mul hvalue hlt, hwritten, digit_digitValue hc]

/-- A numeral in which nothing can be left out. -/
def Canonical (cs : List Char) : Prop := Terse cs ∨ ∃ ds, cs = '-' :: ds ∧ Terse ds ∧ ds ≠ ['0']

theorem toList_ofInt_natCast (n : Nat) : (ofInt n).toList = digits n := by
  change (ofNat n).toList = _
  rw [ofNat, String.toList_ofList]

theorem toList_ofInt_negSucc (n : Nat) : (ofInt (.negSucc n)).toList = '-' :: digits (n + 1) := by
  simp [ofInt, ofNat]

theorem denotes_ofInt : ∀ z : Int, Denotes (ofInt z).toList z
  | .ofNat n => by
      have hdenotes := Denotes.unsigned (digits n) (terse_digits n).1
      rwa [← value_eq_ofDigits, value_digits, ← toList_ofInt_natCast] at hdenotes
  | .negSucc n => by
      have hdenotes := Denotes.minus (digits (n + 1)) (terse_digits (n + 1)).1
      rwa [← value_eq_ofDigits, value_digits, ← toList_ofInt_negSucc] at hdenotes

/-- What is written is read back. -/
theorem readInt64?_ofInt (n : Int64) : readInt64? (ofInt n.toInt).toList = some n :=
  readInt64?_eq_some_iff.mpr (denotes_ofInt n.toInt)

theorem canonical_ofInt : ∀ z : Int, Canonical (ofInt z).toList
  | .ofNat n => by
      rw [Int.ofNat_eq_natCast, toList_ofInt_natCast]
      exact .inl (terse_digits n)
  | .negSucc n => by
      refine .inr ⟨digits (n + 1), toList_ofInt_negSucc n, terse_digits (n + 1), ?_⟩
      intro hzero
      have hvalue := congrArg value hzero
      rw [value_digits] at hvalue
      cases hvalue

/-- An integer has one canonical numeral, and that is the one that is written. -/
theorem ofInt_of_canonical {z : Int} (h : Canonical cs) (hz : Denotes cs z) :
    (ofInt z).toList = cs := by
  rw [← readInt?_eq_some_iff, readInt?_eq_map] at hz
  rcases h with hterse | ⟨ds, rfl, hterse, hds⟩
  · rw [signed_of_digital hterse.1, readNat?_eq_some_iff.mpr ⟨hterse.1, rfl⟩] at hz
    obtain rfl : (value cs : Int) = z := by simpa using hz
    rw [toList_ofInt_natCast, digits_value cs hterse]
  · rw [signed, readNat?_eq_some_iff.mpr ⟨hterse.1, rfl⟩] at hz
    obtain rfl : -(value ds : Int) = z := by simpa using hz
    have hwritten := digits_value ds hterse
    cases hvalue : value ds with
    | zero =>
        rw [hvalue, digits_of_lt (by decide)] at hwritten
        exact absurd hwritten.symm hds
    | succ n =>
        rw [hvalue] at hwritten
        exact (toList_ofInt_negSucc n).trans (by rw [hwritten])

end Writing

end StackLang.Decimal
