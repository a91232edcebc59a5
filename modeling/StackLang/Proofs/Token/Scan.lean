import StackLang.Proofs.Grammar.Derivation
import StackLang.Proofs.Tree.Scope

/-!
# What lexemes look like

The kind of a lexeme says what its text is: a keyword is its spelling, an integer literal
is a run of digits, a string literal stands between quotes, a comment starts with two
slashes, and no lexeme is the end of the text. The tokens of a text inherit this from its
lexemes.
-/

namespace StackLang

namespace Keyword

theorem spelling_of_ofSpelling? (s : String) (k : Keyword) (h : ofSpelling? s = some k) :
    k.spelling = s := by
  simpa using List.find?_some h

end Keyword

theorem TokenKind.isError_of_isTrivia (k : TokenKind) (h : k.isTrivia = true) :
    k.isError = false := by
  cases k <;> simp_all [isTrivia, isError]

namespace Lexeme

/-- The text of a lexeme fits its kind. -/
def Spelled (l : Lexeme) : Prop :=
  match l.kind with
  | .keyword k => l.raw = k.spelling.toList
  | .intLiteral => l.raw ≠ [] ∧ ∀ c ∈ l.raw, Decimal.isDigit c = true
  | .strLiteral => ∃ inner, l.raw = '"' :: (inner ++ ['"'])
  | .comment => ∃ more, l.raw = '/' :: '/' :: more
  | .eof => False
  | _ => l.raw ≠ []

/-- An extent behind the character `c` gives a lexeme whose text fits. -/
def Extends (c : Char) (cs : List Char) (x : TokenKind × Nat) : Prop :=
  Spelled ⟨x.1, c :: cs.take x.2⟩

theorem take_runLength (p : Char → Bool) (cs : List Char) :
    cs.take (runLength p cs) = cs.takeWhile p :=
  (List.prefix_iff_eq_take.mp (List.takeWhile_prefix p)).symm

/-- A string literal runs to a quote, or it is no literal. -/
theorem literal_cases (cs : List Char) :
    ((literal cs).1 = .strLiteral ∧ ∃ inner, cs.take (literal cs).2 = inner ++ ['"']) ∨
      ∃ e, (literal cs).1 = .error e := by
  fun_induction literal cs with
  | case1 => exact .inr ⟨_, rfl⟩
  | case2 cs => exact .inl ⟨rfl, [], rfl⟩
  | case3 cs => exact .inr ⟨_, rfl⟩
  | case4 => exact .inr ⟨_, rfl⟩
  | case5 c cs ih =>
      rcases ih with ⟨hkind, inner, hinner⟩ | ⟨e, he⟩
      · refine .inl ⟨hkind, '\\' :: c :: inner, ?_⟩
        simp [Prod.map, hinner]
      · exact .inr ⟨e, he⟩
  | case6 c cs _ _ _ _ ih =>
      rcases ih with ⟨hkind, inner, hinner⟩ | ⟨e, he⟩
      · refine .inl ⟨hkind, c :: inner, ?_⟩
        simp [Prod.map, hinner]
      · exact .inr ⟨e, he⟩

theorem extends_literal (cs : List Char) : Extends '"' cs (literal cs) := by
  rcases literal_cases cs with ⟨hkind, inner, hinner⟩ | ⟨e, he⟩
  · rw [Extends, Spelled, hkind]
    exact ⟨inner, by rw [hinner]⟩
  · rw [Extends, Spelled, he]
    exact List.cons_ne_nil _ _

theorem extends_word (c : Char) (cs : List Char) : Extends c cs (word c cs) := by
  have htake := take_runLength isWordPart cs
  rw [runLength] at htake
  rw [word]
  cases hkeyword : Keyword.ofSpelling? (String.ofList (c :: cs.takeWhile isWordPart)) with
  | none => exact List.cons_ne_nil _ _
  | some k =>
      have hspelling := Keyword.spelling_of_ofSpelling? _ k hkeyword
      simp [Extends, Spelled, htake, hspelling]

theorem extends_number (c : Char) (cs : List Char) (hc : Decimal.isDigit c = true) :
    Extends c cs (number cs) := by
  rw [number]
  split
  · exact List.cons_ne_nil _ _
  · refine ⟨List.cons_ne_nil _ _, ?_⟩
    intro d hd
    rw [take_runLength] at hd
    rcases List.mem_cons.mp hd with rfl | hd
    · exact hc
    · exact List.all_eq_true.mp (List.all_takeWhile) d hd

theorem extends_comment (cs : List Char) (hcs : cs.head? = some '/') :
    Extends '/' cs (.comment, runLength (· ≠ '\n') cs) := by
  obtain ⟨c, more, rfl⟩ : ∃ c more, cs = c :: more := by
    cases cs with
    | nil => simp at hcs
    | cons c more => exact ⟨c, more, rfl⟩
  obtain rfl : c = '/' := by simpa using hcs
  rw [Extends, Spelled, take_runLength]
  exact ⟨more.takeWhile (· ≠ '\n'), by simp⟩

theorem extends_pair (c : Char) (cs : List Char) (next : Char) (long short : TokenKind)
    (hlong : Extends c cs (long, 1)) (hshort : Extends c cs (short, 0)) :
    Extends c cs (pair cs next long short) := by
  rw [pair]
  split
  · exact hlong
  · exact hshort

theorem extends_extent (c : Char) (cs : List Char) : Extends c cs (extent c cs) := by
  unfold extent
  -- Where the text of a kind is not fixed further, its first character is enough.
  have hcons : ∀ n, c :: cs.take n ≠ [] := fun _ => List.cons_ne_nil _ _
  split
  case h_4 =>
    split
    · next hcs => exact extends_comment cs hcs
    · exact hcons 0
  case h_8 =>
    split
    · exact hcons 1
    · exact extends_pair _ _ _ _ _ (hcons 1) (hcons 0)
  case h_15 => exact extends_literal cs
  case h_16 =>
    by_cases hword : isWordStart c = true
    · rw [if_pos hword]
      exact extends_word c cs
    · rw [if_neg hword]
      by_cases hdigit : Decimal.isDigit c = true
      · rw [if_pos hdigit]
        exact extends_number c cs hdigit
      · rw [if_neg hdigit]
        split
        · exact hcons _
        · exact hcons 0
  case h_5 | h_6 | h_7 | h_9 | h_10 | h_11 =>
    exact extends_pair _ _ _ _ _ (hcons 1) (hcons 0)
  all_goals exact hcons 0

theorem spelled_first (c : Char) (cs : List Char) : (first c cs).Spelled := extends_extent c cs

end Lexeme

theorem spelled_of_mem_lexemes (cs : List Char) (l : Lexeme) (h : l ∈ lexemes cs) :
    l.Spelled := by
  fun_induction lexemes cs with
  | case1 => simp at h
  | case2 c cs ih =>
      rcases List.mem_cons.mp h with rfl | h
      · exact Lexeme.spelled_first c cs
      · exact ih h

namespace TokenStream

theorem mem_place (p : Position) (ls : List Lexeme) (t : Token) (h : t ∈ place p ls) :
    ∃ l ∈ ls, t.kind = l.kind ∧ t.text = String.ofList l.text := by
  induction ls generalizing p with
  | nil => simp at h
  | cons l ls ih =>
      rcases List.mem_cons.mp h with rfl | h
      · exact ⟨l, List.mem_cons_self, rfl, rfl⟩
      · obtain ⟨l', hl', ht⟩ := ih _ h
        exact ⟨l', List.mem_cons_of_mem l hl', ht⟩

theorem getElem?_place (p : Position) (ls : List Lexeme) (i : Nat) :
    (place p ls)[i]? = ls[i]?.map fun l =>
      ⟨l.kind, String.ofList l.text, p.after ((ls.take i).flatMap Lexeme.raw)⟩ := by
  induction ls generalizing p i with
  | nil => rfl
  | cons l ls ih =>
      cases i with
      | zero => rfl
      | succ i => simp [ih, Position.after_append]

theorem nth_ofSource (source : String) (i : Nat) :
    (ofSource source).nth i =
      ((lexemes source.toList)[i]?.map fun l => (⟨l.kind, String.ofList l.text,
        Position.start.after (((lexemes source.toList).take i).flatMap Lexeme.raw)⟩ : Token)).getD
          (ofSource source).eof := by
  rw [nth, List.getD_eq_getElem?_getD, ← getElem?_place]
  rfl

/-- The tokens of a text come from lexemes whose text fits. -/
theorem exists_lexeme (source : String) (t : Token) (h : t ∈ (ofSource source).tokens) :
    ∃ l : Lexeme, l.Spelled ∧ t.kind = l.kind ∧ t.text = String.ofList l.text := by
  obtain ⟨l, hl, hkind, htext⟩ := mem_place _ _ t h
  exact ⟨l, spelled_of_mem_lexemes _ l hl, hkind, htext⟩

theorem kind_ne_eof (source : String) (t : Token) (h : t ∈ (ofSource source).tokens) :
    t.kind ≠ .eof := by
  intro heof
  obtain ⟨l, hl, hkind, -⟩ := exists_lexeme source t h
  rw [Lexeme.Spelled, ← hkind, heof] at hl
  exact hl

/-- Integer literals are numerals, with neither sign nor letter. -/
theorem isNumeral_of_intLiteral (source : String) (t : Token) (h : t ∈ (ofSource source).tokens)
    (hkind : t.kind = .intLiteral) : Decimal.IsNumeral t.text := by
  obtain ⟨l, hl, hl', htext⟩ := exists_lexeme source t h
  rw [hkind] at hl'
  rw [Lexeme.Spelled, ← hl'] at hl
  rw [htext, Lexeme.text, ← hl', Decimal.IsNumeral]
  simpa using hl

theorem mem_tokens_of_mem_significant (s : TokenStream) (t : Token)
    (h : t ∈ s.significant.tokens) : t ∈ s.tokens :=
  List.mem_of_mem_filter h

end TokenStream

end StackLang
