import StackLang.Proofs.Token.Scan

/-!
# Extents by the first character

What `extent` does is decided by the class of the first character, and then by a run of
characters behind it. The lemmas here say so for one class after the other, over a text that
is given as the run and what follows it: a run goes on for as long as the characters fit,
and the inside of a literal is passed over as a whole.
-/

namespace StackLang

section Classes

theorem isLetter_iff (c : Char) :
    isLetter c = true ↔ 97 ≤ c.toNat ∧ c.toNat ≤ 122 ∨ 65 ≤ c.toNat ∧ c.toNat ≤ 90 := by
  simp only [isLetter, Bool.or_eq_true, Bool.and_eq_true, decide_eq_true_eq, Char.le_def,
    UInt32.le_iff_toNat_le]
  exact Iff.rfl

theorem eq_underscore_iff (c : Char) : c = '_' ↔ c.toNat = 95 := Char.toNat_inj.symm

theorem isWordStart_of_isDigit (c : Char) (h : Decimal.isDigit c = true) :
    isWordStart c = false := by
  rw [Decimal.isDigit_iff] at h
  rw [Bool.eq_false_iff, isWordStart, ne_eq, Bool.or_eq_true, isLetter_iff, beq_iff_eq,
    eq_underscore_iff]
  omega

theorem isWordPart_of_isDigit (c : Char) (h : Decimal.isDigit c = true) : isWordPart c = true := by
  simp [isWordPart, h]

theorem isWordPart_of_isWordStart (c : Char) (h : isWordStart c = true) : isWordPart c = true := by
  rw [isWordStart, Bool.or_eq_true] at h
  rw [isWordPart, Bool.or_eq_true, Bool.or_eq_true]
  tauto

/-- A part of a word that is no digit can start a word. -/
theorem isWordStart_of_isWordPart (c : Char) (h : isWordPart c = true)
    (hdigit : Decimal.isDigit c = false) : isWordStart c = true := by
  rwa [isWordPart, hdigit, Bool.or_false] at h

theorem isWordPart_of_isBlank (c : Char) (h : Text.isBlank c = true) : isWordPart c = false := by
  simp only [Text.isBlank, Text.within, Text.blankRanges, Text.CodeRange.contains, List.any_cons,
    List.any_nil, Bool.or_false, Bool.or_eq_true, Bool.and_eq_true, decide_eq_true_eq] at h
  rw [Bool.eq_false_iff, isWordPart, ne_eq, Bool.or_eq_true, Bool.or_eq_true, isLetter_iff,
    Decimal.isDigit_iff, beq_iff_eq, eq_underscore_iff]
  omega

end Classes

namespace Lexeme

section Runs

variable {p : Char → Bool}

theorem runLength_append {ds more : List Char} (h : ∀ d ∈ ds, p d = true) :
    runLength p (ds ++ more) = ds.length + runLength p more := by
  rw [runLength, List.takeWhile_append_of_pos h, List.length_append, runLength]

/-- A run ends before a character that does not fit. -/
theorem runLength_eq_zero {more : List Char} (h : ∀ c ∈ more.head?, p c = false) :
    runLength p more = 0 := by
  cases more with
  | nil => rfl
  | cons c more => simp [runLength, h c rfl]

theorem head?_dropWhile (cs : List Char) : ∀ c ∈ (cs.dropWhile p).head?, p c = false := by
  intro c hc
  have hhead := List.head?_dropWhile_not p cs
  rwa [hc] at hhead

end Runs

section Words

/-- The kind of a word with the given text. -/
def wordKind (text : List Char) : TokenKind :=
  match Keyword.ofSpelling? (String.ofList text) with
  | some k => .keyword k
  | none => .identifier

theorem word_eq (c : Char) (cs : List Char) :
    word c cs = (wordKind (c :: cs.takeWhile isWordPart), runLength isWordPart cs) := by
  rw [word, wordKind]
  split <;> simp_all [runLength]

theorem wordKind_spelling (k : Keyword) : wordKind k.spelling.toList = .keyword k := by
  rw [wordKind, String.ofList_toList, Keyword.ofSpelling?_spelling]

theorem wordKind_of_ne (text : List Char) (h : ∀ k : Keyword, text ≠ k.spelling.toList) :
    wordKind text = .identifier := by
  rw [wordKind]
  cases hkeyword : Keyword.ofSpelling? (String.ofList text) with
  | none => rfl
  | some k =>
      have hspelling := Keyword.spelling_of_ofSpelling? _ k hkeyword
      exact absurd (by rw [hspelling, String.toList_ofList]) (h k)

/-- Keywords are words. -/
theorem exists_word_of_keyword (k : Keyword) :
    ∃ c ds, k.spelling.toList = c :: ds ∧ isWordStart c = true ∧ ∀ d ∈ ds, isWordPart d = true := by
  cases k <;> exact ⟨_, _, rfl, by decide, List.all_eq_true.mp (by decide)⟩

theorem extent_of_isWordStart (c : Char) (cs : List Char) (h : isWordStart c = true) :
    extent c cs = word c cs := by
  unfold extent
  split
  case h_16 => rw [if_pos h]
  all_goals exact absurd h (by decide)

end Words

section Numbers

theorem extent_of_isDigit (c : Char) (cs : List Char) (h : Decimal.isDigit c = true) :
    extent c cs = number cs := by
  unfold extent
  split
  case h_16 => rw [isWordStart_of_isDigit c h, if_neg (by simp), if_pos h]
  all_goals exact absurd h (by decide)

end Numbers

theorem extent_of_isBlank (c : Char) (cs : List Char) (h : Text.isBlank c = true) :
    extent c cs = (.whitespace, runLength Text.isBlank cs) := by
  have hpart := isWordPart_of_isBlank c h
  have hstart : isWordStart c = false := by
    rw [Bool.eq_false_iff]
    intro hstart
    rw [isWordPart_of_isWordStart c hstart] at hpart
    cases hpart
  have hdigit : Decimal.isDigit c = false := by
    rw [Bool.eq_false_iff]
    intro hdigit
    rw [isWordPart_of_isDigit c hdigit] at hpart
    cases hpart
  unfold extent
  split
  case h_16 => rw [hstart, hdigit, if_neg (by simp), if_neg (by simp), if_pos h]
  all_goals exact absurd h (by decide)

section Literals

/-- What may stand between the quotes of a literal: characters other than a quote, a
backslash and a line feed, and pairs of a backslash and any character. -/
inductive Inside : List Char → Prop where
  | nil : Inside []
  | plain (c : Char) (cs : List Char) (hquote : c ≠ '"') (hbackslash : c ≠ '\\')
      (hfeed : c ≠ '\n') (h : Inside cs) : Inside (c :: cs)
  | escape (c : Char) (cs : List Char) (h : Inside cs) : Inside ('\\' :: c :: cs)

theorem literal_plain (c : Char) (cs : List Char) (hquote : c ≠ '"') (hbackslash : c ≠ '\\')
    (hfeed : c ≠ '\n') : literal (c :: cs) = (literal cs).map id (· + 1) := by
  rw [literal]
  · simpa using hquote
  · simpa using hfeed
  · simp [hbackslash]
  · simp [hbackslash]

/-- A literal does not end inside. -/
theorem literal_append {inside : List Char} (h : Inside inside) (more : List Char) :
    literal (inside ++ more) = (literal more).map id (· + inside.length) := by
  induction h with
  | nil => rfl
  | plain c cs hquote hbackslash hfeed _ ih =>
      rw [List.cons_append, literal_plain c _ hquote hbackslash hfeed, ih]
      simp [Prod.map, Nat.add_assoc]
  | escape c cs _ ih =>
      rw [List.cons_append, List.cons_append, literal, ih]
      simp [Prod.map, Nat.add_assoc]

/-- What comes behind the inside of a literal, with the text that remains: a quote, a line
feed, or the end of the text, perhaps with a last backslash that has nothing to escape. -/
inductive Stops : TokenKind → List Char → List Char → Prop where
  | quote (rest : List Char) : Stops .strLiteral ['"'] rest
  | feed (rest : List Char) : Stops (.error .unescapedLineBreak) ['\n'] rest
  | «end» : Stops (.error .unclosedString) [] []
  | backslash : Stops (.error .unclosedString) ['\\'] []

theorem literal_of_stops {kind : TokenKind} {inside stop rest : List Char} (h : Inside inside)
    (hstop : Stops kind stop rest) :
    literal (inside ++ stop ++ rest) = (kind, (inside ++ stop).length) := by
  have hliteral : literal (stop ++ rest) = (kind, stop.length) := by cases hstop <;> rfl
  rw [List.append_assoc, literal_append h, hliteral, List.length_append, Nat.add_comm]
  rfl

/-- A text behind an opening quote has an inside, however long, and something that stops
it. -/
theorem exists_inside (cs : List Char) :
    ∃ kind inside stop rest,
      cs = inside ++ stop ++ rest ∧ Inside inside ∧ Stops kind stop rest := by
  fun_induction literal cs with
  | case1 => exact ⟨_, [], _, _, rfl, .nil, .end⟩
  | case2 cs => exact ⟨_, [], _, _, rfl, .nil, .quote cs⟩
  | case3 cs => exact ⟨_, [], _, _, rfl, .nil, .feed cs⟩
  | case4 => exact ⟨_, [], _, _, rfl, .nil, .backslash⟩
  | case5 c cs ih =>
      obtain ⟨kind, inside, stop, rest, rfl, hinside, hstop⟩ := ih
      exact ⟨kind, '\\' :: c :: inside, stop, rest, rfl, .escape c inside hinside, hstop⟩
  | case6 c cs hquote hfeed hlast hescape ih =>
      have hbackslash : c ≠ '\\' := by
        intro hc
        cases cs with
        | nil => exact hlast hc rfl
        | cons d cs => exact hescape d cs hc rfl
      obtain ⟨kind, inside, stop, rest, rfl, hinside, hstop⟩ := ih
      exact ⟨kind, c :: inside, stop, rest, rfl, .plain c inside hquote hbackslash hfeed hinside,
        hstop⟩

end Literals

end Lexeme

end StackLang
