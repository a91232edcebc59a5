import Mathlib.Data.List.TakeWhile
import StackLang.Program
import StackLang.Proofs.Token.Extent

/-!
# The lines of a listing

A line has the columns of one instruction: the kind, the mnemonic and the operand, behind the
index. The first two have a fixed width, and the operand comes last. Blanks at the end of a
line are dropped, which takes nothing from an operand: names and numerals have no blanks, and
strings stand between quotes. So `Columns.ofLine` finds the columns of a line again. The line
feeds of a line are those of the string in it, if there is one.
-/

namespace StackLang

namespace Text

/-- There is no blank in the text. -/
def Solid (cs : List Char) : Prop := ∀ c ∈ cs, isBlank c = false

/-- There is no blank at the end of the text. -/
def Trimmed (cs : List Char) : Prop := ∀ c ∈ cs.getLast?, isBlank c = false

theorem Solid.trimmed {cs : List Char} (h : Solid cs) : Trimmed cs :=
  fun c hc => h c (List.mem_of_getLast? hc)

theorem Solid.count_feed {cs : List Char} (h : Solid cs) : cs.count '\n' = 0 :=
  List.count_eq_zero.mpr fun hmem => absurd (h '\n' hmem) (by decide)

theorem solid_of_word {cs : List Char} (h : ∀ c ∈ cs, isWordPart c = true) : Solid cs := by
  intro c hc
  rw [Bool.eq_false_iff]
  intro hblank
  exact absurd (h c hc) (by simp [isWordPart_of_isBlank c hblank])

theorem Trimmed.append {ys : List Char} (h : Trimmed ys) (hne : ys ≠ []) (xs : List Char) :
    Trimmed (xs ++ ys) := by
  rwa [Trimmed, List.getLast?_append_of_ne_nil xs hne]

theorem trimEnd_of_trimmed {cs : List Char} (h : Trimmed cs) : trimEnd cs = cs := by
  rcases List.eq_nil_or_concat cs with rfl | ⟨cs, c, rfl⟩
  · rfl
  · have hc : isBlank c = false := h c (by simp)
    simp [trimEnd_append_singleton, hc]

theorem trimEnd_append_fill (cs : List Char) (width n : Nat) :
    trimEnd (cs ++ (fill width n ' ').toList) = trimEnd cs := by
  rw [fill, String.toList_ofList]
  induction width - n with
  | zero => simp
  | succ k ih =>
      rw [List.replicate_succ', ← List.append_assoc, trimEnd_append_singleton,
        if_pos (by decide), ih]

end Text

namespace Decimal

theorem solid_ofNat (n : Nat) : Text.Solid (ofNat n).toList := by
  obtain ⟨-, hdigits⟩ := isNumeral_ofNat n
  exact Text.solid_of_word fun c hc => isWordPart_of_isDigit c (hdigits c hc)

theorem solid_ofInt : ∀ z : Int, Text.Solid (ofInt z).toList
  | .ofNat n => solid_ofNat n
  | .negSucc n => by
      intro c hc
      rcases List.mem_cons.mp (by simpa [ofInt] using hc) with rfl | hc
      · decide
      · exact solid_ofNat (n + 1) c hc

end Decimal

/-- No name has a character that a word cannot have. -/
def Store.Worded (σ : Store) : Prop :=
  ∀ x ∈ σ.slots.toList, ∀ c ∈ x.name.toList, isWordPart c = true

/-- What the line of an instruction tells of it. -/
structure Columns where
  kind : Kind
  mnemonic : String
  operand : String
  deriving DecidableEq

namespace Operation

/-- The string that an operation brings up. -/
def string? : Operation → Option String
  | .constant (.string s) => some s
  | _ => none

def columns (σ : Store) (op : Operation) : Columns :=
  ⟨Program.listedKind σ op, op.mnemonic, Program.operandText σ op⟩

/-- A mnemonic is a word that leaves room for a blank behind it. -/
theorem mnemonic_spec (op : Operation) :
    op.mnemonic.toList ≠ [] ∧ op.mnemonic.length < 6 ∧ Text.Solid op.mnemonic.toList := by
  have hcheck : (op.mnemonic.toList ≠ [] && op.mnemonic.length < 6 &&
      op.mnemonic.toList.all fun c => !Text.isBlank c) = true := by
    cases op with
    | operator op => cases op <;> decide
    | _ => rw [mnemonic]; decide
  simpa [Text.Solid, and_assoc] using hcheck

theorem operandText_of_var? (σ : Store) {op : Operation} {x : Nat} (h : op.var? = some x) :
    Program.operandText σ op = ((σ.get? x).map Variable.name).getD "" := by
  cases op with
  | declare k y | target y | read k y =>
      obtain rfl : y = x := Option.some.inj h
      cases hy : σ.get? y <;> simp [Program.operandText, Program.named?, var?, target?, hy]
  | _ => cases h

/-- Other operands than strings have no blanks. -/
theorem solid_operandText {σ : Store} (hσ : σ.Worded) {op : Operation} (h : op.string? = none) :
    Text.Solid (Program.operandText σ op).toList := by
  have hempty : Text.Solid "".toList := by simp [Text.Solid]
  have hname (x : Nat) (hx : op.var? = some x) :
      Text.Solid (Program.operandText σ op).toList := by
    rw [operandText_of_var? σ hx, Store.get?_eq_getElem?]
    cases hv : σ.slots.toList[x]? with
    | none => exact hempty
    | some v => exact Text.solid_of_word (hσ v (List.mem_of_getElem? hv))
  cases op with
  | constant v =>
      cases v with
      | integer n => exact Decimal.solid_ofInt n.toInt
      | string s => cases h
      | boolean b =>
          have hwords : ∀ b, (Value.booleanText b).toList.all isWordPart = true := by decide
          exact Text.solid_of_word (List.all_eq_true.mp (hwords b))
  | declare k x | target x | read k x => exact hname x rfl
  | branch t | loop t | jump t =>
      cases t with
      | none => exact hempty
      | some t => exact Decimal.solid_ofNat t
  | assign | print | otherwise | close | operator => exact hempty

theorem operandText_of_string? (σ : Store) {op : Operation} {s : String}
    (h : op.string? = some s) :
    (Program.operandText σ op).toList = '"' :: (s.toList ++ ['"']) := by
  cases op with
  | constant v =>
      cases v with
      | string t =>
          obtain rfl : t = s := Option.some.inj h
          simp [Program.operandText]
      | integer | boolean => cases h
  | _ => cases h

theorem trimmed_operandText {σ : Store} (hσ : σ.Worded) (op : Operation) :
    Text.Trimmed (Program.operandText σ op).toList := by
  cases hop : op.string? with
  | none => exact (solid_operandText hσ hop).trimmed
  | some s =>
      have hblank : Text.isBlank '"' = false := by decide
      have hquote : Text.Solid ['"'] := by simpa [Text.Solid] using hblank
      rw [operandText_of_string? σ hop]
      exact hquote.trimmed.append (by simp) ('"' :: s.toList)

theorem count_operandText {σ : Store} (hσ : σ.Worded) (op : Operation) :
    (Program.operandText σ op).toList.count '\n' =
      (op.string?.map fun s => s.toList.count '\n').getD 0 := by
  cases hop : op.string? with
  | none => exact (solid_operandText hσ hop).count_feed
  | some s => simp [operandText_of_string? σ hop]

end Operation

namespace Columns

/-- The mnemonic and the operand in a line. -/
def entry (c : Columns) : List Char :=
  if c.operand = "" then c.mnemonic.toList
  else (Text.alignLeft 6 c.mnemonic).toList ++ c.operand.toList

/-- The text of the columns in a line. -/
def text (c : Columns) : List Char := c.kind.tag.toList ++ c.entry

section Entry

variable {c : Columns}

theorem takeWhile_entry (hlength : c.mnemonic.length < 6) (h : Text.Solid c.mnemonic.toList) :
    c.entry.takeWhile (fun d => !Text.isBlank d) = c.mnemonic.toList := by
  have hword : ∀ d ∈ c.mnemonic.toList, (!Text.isBlank d) = true := by simpa [Text.Solid] using h
  rw [entry]
  split
  · exact List.takeWhile_eq_self_iff.mpr hword
  · obtain ⟨k, hk⟩ := Nat.exists_eq_add_of_lt hlength
    have hfill : 6 - c.mnemonic.length = k + 1 := by omega
    have hblank : Text.isBlank ' ' = true := by decide
    simp [Text.alignLeft, Text.fill, hfill, List.replicate_succ, hblank,
      List.takeWhile_append_of_pos hword]

theorem drop_entry (hlength : c.mnemonic.length < 6) : c.entry.drop 6 = c.operand.toList := by
  rw [entry]
  split
  · next hoperand =>
    rw [hoperand]
    exact List.drop_eq_nil_of_le (Nat.le_of_lt (by rwa [String.length_toList]))
  · refine List.drop_left' ?_
    rw [Text.alignLeft, Text.fill, String.toList_append, List.length_append, String.toList_ofList,
      List.length_replicate, String.length_toList]
    omega

theorem count_entry (h : Text.Solid c.mnemonic.toList) :
    c.entry.count '\n' = c.operand.toList.count '\n' := by
  rw [entry]
  split
  · next hoperand => simp [hoperand, h.count_feed]
  · simp [Text.alignLeft, Text.fill, h.count_feed, List.count_replicate]

theorem count_text (h : Text.Solid c.mnemonic.toList) :
    c.text.count '\n' = c.operand.toList.count '\n' := by
  have htag (k : Kind) : k.tag.toList.count '\n' = 0 := by cases k <;> decide
  rw [text, List.count_append, htag, Nat.zero_add, count_entry h]

end Entry

end Columns

namespace Program

/-- What comes before the columns. -/
def margin (index : Nat) : List Char :=
  (Text.alignRight 5 (Decimal.ofNat index)).toList ++ [':', ' ', ' ']

theorem mem_alignRight (width n : Nat) :
    ∀ c ∈ (Text.alignRight width (Decimal.ofNat n)).toList, c = ' ' ∨ Decimal.isDigit c = true := by
  intro c hc
  rw [Text.alignRight, Text.fill, String.toList_append, String.toList_ofList] at hc
  rcases List.mem_append.mp hc with hc | hc
  · exact .inl (List.eq_of_mem_replicate hc)
  · exact .inr ((Decimal.isNumeral_ofNat n).2 c hc)

/-- The columns begin three characters from the first colon on. -/
theorem drop_margin (index : Nat) (cs : List Char) :
    ((margin index ++ cs).dropWhile (· ≠ ':')).drop 3 = cs := by
  have hindex : ∀ c ∈ (Text.alignRight 5 (Decimal.ofNat index)).toList,
      decide (c ≠ ':') = true := by
    intro c hc
    rw [decide_eq_true_eq]
    rintro rfl
    exact absurd (mem_alignRight 5 index ':' hc) (by decide)
  rw [margin, List.append_assoc, List.dropWhile_append_of_pos hindex]
  simp

theorem count_margin (index : Nat) : (margin index).count '\n' = 0 := by
  rw [List.count_eq_zero, margin]
  intro hmem
  rcases List.mem_append.mp hmem with hmem | hmem
  · exact absurd (mem_alignRight 5 index '\n' hmem) (by decide)
  · simp at hmem

/-- The blanks that are dropped from a line are those behind a mnemonic without an operand. -/
theorem toList_line {σ : Store} (hσ : σ.Worded) (index : Nat) (i : Instruction) :
    (line σ index i).toList = margin index ++ (i.op.columns σ).text := by
  obtain ⟨hne, -, hsolid⟩ := i.op.mnemonic_spec
  have hfull : (fullLine σ index i).toList = margin index ++ ((listedKind σ i.op).tag.toList ++
      ((Text.alignLeft 6 i.op.mnemonic).toList ++ (operandText σ i.op).toList)) := by
    simp [fullLine, margin]
  rw [line, String.toList_ofList, hfull, Columns.text, Columns.entry, Operation.columns]
  -- Without an operand the line ends in the blanks that fill the column of the mnemonic.
  by_cases hoperand : operandText σ i.op = ""
  · have htrimmed := hsolid.trimmed.append hne (margin index ++ (listedKind σ i.op).tag.toList)
    rw [if_pos hoperand, hoperand, Text.alignLeft, String.toList_append, String.toList_empty,
      List.append_nil, ← List.append_assoc, ← List.append_assoc, Text.trimEnd_append_fill,
      Text.trimEnd_of_trimmed htrimmed, List.append_assoc]
  · have htrimmed := (Operation.trimmed_operandText hσ i.op).append (by simpa using hoperand)
      (margin index ++ ((listedKind σ i.op).tag.toList ++
        (Text.alignLeft 6 i.op.mnemonic).toList))
    rw [if_neg hoperand]
    simpa using Text.trimEnd_of_trimmed htrimmed

end Program

namespace Columns

/-- The columns of a line: five characters for the kind behind the margin, then a word, then
whatever is left from the sixth character behind the kind on. -/
def ofLine (cs : List Char) : Columns :=
  let text := (cs.dropWhile (· ≠ ':')).drop 3
  let entry := text.drop 5
  { kind := (Kind.all.find? fun k => k.tag.toList = text.take 5).getD .void
    mnemonic := String.ofList (entry.takeWhile fun c => !Text.isBlank c)
    operand := String.ofList (entry.drop 6) }

/-- The columns of a text that has them behind a margin. -/
theorem ofLine_text (c : Columns) (hlength : c.mnemonic.length < 6)
    (h : Text.Solid c.mnemonic.toList) (index : Nat) :
    ofLine (Program.margin index ++ c.text) = c := by
  have htag (k : Kind) : k.tag.toList.length = 5 := by cases k <;> rfl
  have hfind (k : Kind) : (Kind.all.find? fun l => l.tag.toList = k.tag.toList) = some k := by
    cases k <;> decide
  have htake : c.text.take 5 = c.kind.tag.toList := List.take_left' (htag c.kind)
  have hdrop : c.text.drop 5 = c.entry := List.drop_left' (htag c.kind)
  simp only [ofLine, Program.drop_margin, htake, hdrop, hfind, takeWhile_entry hlength h,
    drop_entry hlength, String.ofList_toList, Option.getD_some]

theorem ofLine_line {σ : Store} (hσ : σ.Worded) (index : Nat) (i : Instruction) :
    ofLine (Program.line σ index i).toList = i.op.columns σ := by
  obtain ⟨-, hlength, hsolid⟩ := i.op.mnemonic_spec
  rw [Program.toList_line hσ]
  exact ofLine_text (i.op.columns σ) hlength hsolid index

end Columns

/-- The line feeds of a line are those in its string. -/
theorem Program.count_line {σ : Store} (hσ : σ.Worded) (index : Nat) (i : Instruction) :
    (line σ index i).toList.count '\n' =
      (i.op.string?.map fun s => s.toList.count '\n').getD 0 := by
  obtain ⟨-, -, hsolid⟩ := i.op.mnemonic_spec
  have htext := Columns.count_text (c := i.op.columns σ) hsolid
  rw [toList_line hσ, List.count_append, count_margin, Nat.zero_add, htext]
  exact Operation.count_operandText hσ i.op

end StackLang
