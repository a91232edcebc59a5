import Mathlib.Logic.Equiv.Basic
import StackLang.Proofs.Token.Extent

/-!
# The longest match

The lexical grammar says which texts are lexemes of which kind. A text may start with
several lexemes, one longer than the other, and cutting it takes the longest; where it
starts with none, one character is cut off as unexpected. `Greedy` is this rule as a
relation. It leaves nothing open, and `lexemes` computes it.
-/

namespace StackLang

namespace Lexeme

/-- The fixed spellings. -/
def signs : List (List Char × TokenKind) :=
  [([':', '='], .assign), (['='], .assign), (['+'], .plus), (['-'], .minus), (['*'], .star),
    (['/'], .slash), (['=', '='], .eq), (['!', '='], .notEq), (['<', '>'], .notEq),
    (['<'], .less), (['<', '='], .lessEq), (['>'], .greater), (['>', '='], .greaterEq),
    (['!'], .bang), (['|', '|'], .or), (['&', '&'], .and), (['('], .lparen), ([')'], .rparen),
    ([';'], .semicolon)]

/-- The lexical grammar: `Matches kind raw rest` if the text `raw`, with `rest` behind it, is
a lexeme of the given kind. -/
inductive Matches : TokenKind → List Char → List Char → Prop where
  | sign (raw rest : List Char) (kind : TokenKind) (h : (raw, kind) ∈ signs) :
      Matches kind raw rest
  | keyword (k : Keyword) (rest : List Char) : Matches (.keyword k) k.spelling.toList rest
  | identifier (c : Char) (cs rest : List Char) (hstart : isWordStart c = true)
      (hparts : ∀ d ∈ cs, isWordPart d = true)
      (hword : ∀ k : Keyword, c :: cs ≠ k.spelling.toList) :
      Matches .identifier (c :: cs) rest
  | number (ds rest : List Char) (hne : ds ≠ []) (hdigits : ∀ d ∈ ds, Decimal.isDigit d = true) :
      Matches .intLiteral ds rest
  /-- Digits that run into a word. -/
  | malformed (ds : List Char) (c : Char) (cs rest : List Char) (hne : ds ≠ [])
      (hdigits : ∀ d ∈ ds, Decimal.isDigit d = true) (hstart : isWordStart c = true)
      (hparts : ∀ d ∈ cs, isWordPart d = true) :
      Matches (.error .malformedNumber) (ds ++ c :: cs) rest
  /-- All blanks up to a character that is none. -/
  | blanks (bs rest : List Char) (hne : bs ≠ []) (hblank : ∀ b ∈ bs, Text.isBlank b = true)
      (hrest : ∀ c ∈ rest.head?, Text.isBlank c = false) : Matches .whitespace bs rest
  /-- Two slashes and the rest of the line. -/
  | comment (cs rest : List Char) (hline : '\n' ∉ cs) (hrest : ∀ c ∈ rest.head?, c = '\n') :
      Matches .comment ('/' :: '/' :: cs) rest
  | literal (kind : TokenKind) (inside stop rest : List Char) (h : Inside inside)
      (hstop : Stops kind stop rest) : Matches kind ('"' :: (inside ++ stop)) rest

/-- The lexeme `l` is what comes first in `l.raw ++ rest`: the longest text at its front that
the grammar knows, or a single character if there is none. -/
inductive Leads : Lexeme → List Char → Prop where
  | longest (l : Lexeme) (rest : List Char) (h : Matches l.kind l.raw rest)
      (hlongest : ∀ kind raw more, raw ++ more = l.raw ++ rest → Matches kind raw more →
        raw.length ≤ l.raw.length) : Leads l rest
  | unexpected (c : Char) (rest : List Char)
      (hnone : ∀ kind raw more, raw ++ more = c :: rest → ¬ Matches kind raw more) :
      Leads ⟨.error .unexpectedChar, [c]⟩ rest

/-- A text cut into lexemes from the front, each the longest there. -/
inductive Greedy : List Char → List Lexeme → Prop where
  | nil : Greedy [] []
  | cons (l : Lexeme) (rest : List Char) (ls : List Lexeme) (h : l.Leads rest)
      (hrest : Greedy rest ls) : Greedy (l.raw ++ rest) (l :: ls)

section Signs

/-- The extent `x` ends behind `n` characters with the given kind, or goes further over a
next character, which is no blank. -/
def EndsOrGrows (x : TokenKind × Nat) (kind : TokenKind) (n : Nat) (more : List Char) : Prop :=
  x = (kind, n) ∨ n < x.2 ∧ ∃ c ∈ more.head?, Text.isBlank c = false

theorem pair_long (c : Char) (cs : List Char) (long short : TokenKind) :
    pair (c :: cs) c long short = (long, 1) := by
  rw [pair, if_pos List.head?_cons]

theorem endsOrGrows_short (c : Char) (cs : List Char) (long short : TokenKind)
    (hc : Text.isBlank c = false) : EndsOrGrows (pair cs c long short) short 0 cs := by
  rw [pair]
  split
  · next h => exact .inr ⟨Nat.one_pos, c, h, hc⟩
  · exact .inl rfl

theorem endsOrGrows_slash (cs : List Char) : EndsOrGrows (extent '/' cs) .slash 0 cs := by
  rw [extent]
  split
  · next h =>
    obtain ⟨more, rfl⟩ := List.head?_eq_some_iff.mp h
    exact .inr ⟨by simp [runLength], '/', h, by decide⟩
  · exact .inl rfl

theorem endsOrGrows_less (cs : List Char) : EndsOrGrows (extent '<' cs) .less 0 cs := by
  rw [extent]
  split
  · next h => exact .inr ⟨Nat.one_pos, '>', h, by decide⟩
  · exact endsOrGrows_short '=' cs _ _ (by decide)

theorem endsOrGrows_sign (c : Char) (ds more : List Char) (kind : TokenKind)
    (h : (c :: ds, kind) ∈ signs) : EndsOrGrows (extent c (ds ++ more)) kind ds.length more := by
  simp only [signs, List.mem_cons, Prod.mk.injEq, List.cons.injEq, List.not_mem_nil, or_false] at h
  rcases h with h | h | h | h | h | h | h | h | h | h | h | h | h | h | h | h | h | h | h
  all_goals obtain ⟨⟨rfl, rfl⟩, rfl⟩ := h
  · exact .inl (pair_long '=' more _ _)
  · exact endsOrGrows_short '=' more _ _ (by decide)
  · exact .inl rfl
  · exact .inl rfl
  · exact .inl rfl
  · exact endsOrGrows_slash more
  · exact .inl (pair_long '=' more _ _)
  · exact .inl (pair_long '=' more _ _)
  · exact .inl rfl
  · exact endsOrGrows_less more
  · exact .inl rfl
  · exact endsOrGrows_short '=' more _ _ (by decide)
  · exact .inl (pair_long '=' more _ _)
  · exact endsOrGrows_short '=' more _ _ (by decide)
  · exact .inl (pair_long '|' more _ _)
  · exact .inl (pair_long '&' more _ _)
  · exact .inl rfl
  · exact .inl rfl
  · exact .inl rfl

end Signs

section Bound

/-- The extent `x` goes further than `n` characters, or just as far with the given kind. -/
def Reaches (x : TokenKind × Nat) (kind : TokenKind) (n : Nat) : Prop :=
  n < x.2 ∨ n = x.2 ∧ kind = x.1

theorem reaches_refl (kind : TokenKind) (n : Nat) : Reaches (kind, n) kind n := .inr ⟨rfl, rfl⟩

theorem reaches_sign (c : Char) (ds more : List Char) (kind : TokenKind)
    (h : (c :: ds, kind) ∈ signs) : Reaches (extent c (ds ++ more)) kind ds.length := by
  rcases endsOrGrows_sign c ds more kind h with hends | ⟨hgrows, -⟩
  · rw [hends]
    exact reaches_refl kind ds.length
  · exact .inl hgrows

/-- A word is followed as far as it goes, and if it goes no further than `ds`, its kind is
that of `c :: ds`. -/
theorem reaches_word (c : Char) (ds more : List Char) (hstart : isWordStart c = true)
    (hparts : ∀ d ∈ ds, isWordPart d = true) :
    Reaches (extent c (ds ++ more)) (wordKind (c :: ds)) ds.length := by
  rw [extent_of_isWordStart c _ hstart, word_eq, runLength_append hparts]
  cases hmore : runLength isWordPart more with
  | zero =>
      have htake : more.takeWhile isWordPart = [] := List.length_eq_zero_iff.mp hmore
      refine .inr ⟨rfl, ?_⟩
      rw [List.takeWhile_append_of_pos hparts, htake, List.append_nil]
  | succ n => exact .inl (by simp)

theorem reaches_number (c : Char) (ds more : List Char) (hc : Decimal.isDigit c = true)
    (hdigits : ∀ d ∈ ds, Decimal.isDigit d = true) :
    Reaches (extent c (ds ++ more)) .intLiteral ds.length := by
  have hparts : ∀ d ∈ ds, isWordPart d = true := fun d hd => isWordPart_of_isDigit d (hdigits d hd)
  rw [extent_of_isDigit c _ hc, number, runLength_append hdigits, runLength_append hparts]
  split
  · next h => exact .inl (Nat.lt_of_le_of_lt (Nat.le_add_right _ _) h)
  · cases runLength Decimal.isDigit more with
    | zero => exact reaches_refl _ _
    | succ n => exact .inl (by simp)

theorem reaches_malformed (c : Char) (ds : List Char) (d : Char) (cs more : List Char)
    (hc : Decimal.isDigit c = true) (hdigits : ∀ d ∈ ds, Decimal.isDigit d = true)
    (hstart : isWordStart d = true) (hparts : ∀ d ∈ cs, isWordPart d = true) :
    Reaches (extent c (ds ++ d :: cs ++ more)) (.error .malformedNumber)
      (ds ++ d :: cs).length := by
  have hall : ∀ e ∈ ds ++ d :: cs, isWordPart e = true := by
    intro e he
    rcases List.mem_append.mp he with he | he
    · exact isWordPart_of_isDigit e (hdigits e he)
    · rcases List.mem_cons.mp he with rfl | he
      · exact isWordPart_of_isWordStart e hstart
      · exact hparts e he
  -- The digits end where the word starts.
  have hrun : runLength Decimal.isDigit (ds ++ d :: cs ++ more) = ds.length := by
    have hd : Decimal.isDigit d = false := by
      rw [Bool.eq_false_iff]
      intro hd
      rw [isWordStart_of_isDigit d hd] at hstart
      cases hstart
    rw [List.append_assoc, runLength_append hdigits, runLength_eq_zero (by simpa using hd),
      Nat.add_zero]
  rw [extent_of_isDigit c _ hc, number, hrun, runLength_append hall,
    if_pos (by rw [List.length_append, List.length_cons]; omega)]
  cases runLength isWordPart more with
  | zero => exact reaches_refl _ _
  | succ n => exact .inl (by simp)

theorem reaches_comment (cs more : List Char) (hline : '\n' ∉ cs)
    (hmore : ∀ c ∈ more.head?, c = '\n') :
    Reaches (extent '/' ('/' :: cs ++ more)) .comment ('/' :: cs).length := by
  have hcs : ∀ c ∈ '/' :: cs, decide (c ≠ '\n') = true := by
    intro c hc
    rcases List.mem_cons.mp hc with rfl | hc
    · rfl
    · exact decide_eq_true fun heq => hline (heq ▸ hc)
  have hend : ∀ c ∈ more.head?, decide (c ≠ '\n') = false := by
    intro c hc
    simpa using hmore c hc
  rw [extent, if_pos (by rfl), runLength_append hcs, runLength_eq_zero hend]
  exact reaches_refl _ _

/-- No lexeme at the front of a text is longer than the extent. -/
theorem reaches_of_matches (kind : TokenKind) (c : Char) (ds more : List Char)
    (h : Matches kind (c :: ds) more) : Reaches (extent c (ds ++ more)) kind ds.length := by
  generalize hraw : c :: ds = raw at h
  cases h with
  | sign _ _ _ hsign => exact reaches_sign c ds more kind (hraw ▸ hsign)
  | keyword k =>
      obtain ⟨c', ds', hk, hstart, hparts⟩ := exists_word_of_keyword k
      obtain ⟨rfl, rfl⟩ := List.cons.inj (hraw.trans hk)
      rw [← wordKind_spelling k, hk]
      exact reaches_word c ds more hstart hparts
  | identifier c' ds' _ hstart hparts hword =>
      obtain ⟨rfl, rfl⟩ := List.cons.inj hraw
      rw [← wordKind_of_ne _ hword]
      exact reaches_word c ds more hstart hparts
  | number _ _ _ hdigits =>
      subst hraw
      exact reaches_number c ds more (hdigits c List.mem_cons_self)
        fun d hd => hdigits d (List.mem_cons_of_mem c hd)
  | malformed es d cs _ hne hdigits hstart hparts =>
      cases es with
      | nil => exact absurd rfl hne
      | cons c' es =>
          obtain ⟨rfl, rfl⟩ := List.cons.inj hraw
          exact reaches_malformed c es d cs more (hdigits c List.mem_cons_self)
            (fun d hd => hdigits d (List.mem_cons_of_mem c hd)) hstart hparts
  | blanks _ _ _ hblank hrest =>
      subst hraw
      rw [extent_of_isBlank c _ (hblank c List.mem_cons_self),
        runLength_append fun d hd => hblank d (List.mem_cons_of_mem c hd), runLength_eq_zero hrest]
      exact reaches_refl _ _
  | comment cs _ hline hrest =>
      obtain ⟨rfl, rfl⟩ := List.cons.inj hraw
      exact reaches_comment cs more hline hrest
  | literal _ inside stop _ hinside hstop =>
      obtain ⟨rfl, rfl⟩ := List.cons.inj hraw
      rw [extent, literal_of_stops hinside hstop]
      exact reaches_refl _ _

end Bound

section Match

/-- The extent `x` cuts a lexeme off a text that starts with `c`, or the one character. -/
def Fits (c : Char) (cs : List Char) (x : TokenKind × Nat) : Prop :=
  x = (.error .unexpectedChar, 0) ∨
    ∃ ds more, cs = ds ++ more ∧ x.2 = ds.length ∧ Matches x.1 (c :: ds) more

theorem fits_sign (c : Char) (ds more : List Char) (kind : TokenKind)
    (h : (c :: ds, kind) ∈ signs) : Fits c (ds ++ more) (kind, ds.length) :=
  .inr ⟨ds, more, rfl, rfl, .sign (c :: ds) more kind h⟩

theorem fits_pair (c next : Char) (cs : List Char) (long short : TokenKind)
    (hlong : ([c, next], long) ∈ signs) (hshort : Fits c cs (short, 0)) :
    Fits c cs (pair cs next long short) := by
  rw [pair]
  split
  · next h =>
    obtain ⟨more, rfl⟩ := List.head?_eq_some_iff.mp h
    exact fits_sign c [next] more long hlong
  · exact hshort

/-- The characters of a run, and what follows the run. -/
theorem fits_run (p : Char → Bool) (c : Char) (cs : List Char) (kind : TokenKind)
    (h : Matches kind (c :: cs.takeWhile p) (cs.dropWhile p)) : Fits c cs (kind, runLength p cs) :=
  .inr ⟨cs.takeWhile p, cs.dropWhile p, List.takeWhile_append_dropWhile.symm, rfl, h⟩

theorem fits_word (c : Char) (cs : List Char) (hstart : isWordStart c = true) :
    Fits c cs (word c cs) := by
  rw [word_eq]
  refine fits_run isWordPart c cs _ ?_
  by_cases hkeyword : ∃ k : Keyword, c :: cs.takeWhile isWordPart = k.spelling.toList
  · obtain ⟨k, hk⟩ := hkeyword
    rw [hk, wordKind_spelling]
    exact .keyword k _
  · rw [not_exists] at hkeyword
    rw [wordKind_of_ne _ hkeyword]
    exact .identifier c _ _ hstart (List.all_eq_true.mp List.all_takeWhile) hkeyword

/-- Where the parts of a word go further than the digits, a word starts behind the digits. -/
theorem exists_of_digits_lt (cs : List Char)
    (h : runLength Decimal.isDigit cs < runLength isWordPart cs) :
    ∃ ds d es, cs.takeWhile isWordPart = ds ++ d :: es ∧ (∀ e ∈ ds, Decimal.isDigit e = true) ∧
      isWordStart d = true ∧ ∀ e ∈ es, isWordPart e = true := by
  induction cs with
  | nil => exact absurd h (Nat.lt_irrefl 0)
  | cons c cs ih =>
      by_cases hdigit : Decimal.isDigit c = true
      · have hpart := isWordPart_of_isDigit c hdigit
        obtain ⟨ds, d, es, htail, hds, hd, hes⟩ := ih (by simpa [runLength, hdigit, hpart] using h)
        refine ⟨c :: ds, d, es, ?_, ?_, hd, hes⟩
        · rw [List.takeWhile_cons_of_pos hpart, htail, List.cons_append]
        · simpa [hdigit] using hds
      · have hpart : isWordPart c = true := by
          by_contra hpart
          simp [runLength, hpart] at h
        refine ⟨[], c, cs.takeWhile isWordPart, ?_, by simp, ?_, ?_⟩
        · rw [List.takeWhile_cons_of_pos hpart, List.nil_append]
        · exact isWordStart_of_isWordPart c hpart (Bool.eq_false_iff.mpr hdigit)
        · exact List.all_eq_true.mp List.all_takeWhile

theorem fits_number (c : Char) (cs : List Char) (hc : Decimal.isDigit c = true) :
    Fits c cs (number cs) := by
  have hdigits (ds : List Char) (h : ∀ d ∈ ds, Decimal.isDigit d = true) :
      ∀ d ∈ c :: ds, Decimal.isDigit d = true := by simpa [hc] using h
  rw [number]
  split
  · next h =>
    obtain ⟨ds, d, es, htail, hds, hd, hes⟩ := exists_of_digits_lt cs h
    refine fits_run isWordPart c cs _ ?_
    rw [htail]
    exact .malformed (c :: ds) d es _ (List.cons_ne_nil c ds) (hdigits ds hds) hd hes
  · exact fits_run Decimal.isDigit c cs _
      (.number _ _ (List.cons_ne_nil c _) (hdigits _ (List.all_eq_true.mp List.all_takeWhile)))

theorem fits_comment (cs : List Char) (h : cs.head? = some '/') :
    Fits '/' cs (.comment, runLength (· ≠ '\n') cs) := by
  obtain ⟨more, rfl⟩ := List.head?_eq_some_iff.mp h
  refine fits_run _ '/' _ _ (.comment (more.takeWhile (· ≠ '\n')) _ ?_ ?_)
  · intro hfeed
    simpa using List.all_eq_true.mp List.all_takeWhile _ hfeed
  · intro c hc
    simpa using head?_dropWhile ('/' :: more) c hc

theorem fits_blanks (c : Char) (cs : List Char) (hc : Text.isBlank c = true) :
    Fits c cs (.whitespace, runLength Text.isBlank cs) := by
  refine fits_run Text.isBlank c cs _ (.blanks _ _ (List.cons_ne_nil c _) ?_ (head?_dropWhile cs))
  intro b hb
  rcases List.mem_cons.mp hb with rfl | hb
  · exact hc
  · exact List.all_eq_true.mp List.all_takeWhile b hb

theorem fits_literal (cs : List Char) : Fits '"' cs (literal cs) := by
  obtain ⟨kind, inside, stop, rest, rfl, hinside, hstop⟩ := exists_inside cs
  rw [literal_of_stops hinside hstop]
  exact .inr ⟨inside ++ stop, rest, rfl, rfl, .literal kind inside stop rest hinside hstop⟩

/-- The extent of a text is a lexeme, or it is the first character alone. -/
theorem fits_extent (c : Char) (cs : List Char) : Fits c cs (extent c cs) := by
  unfold extent
  split
  case h_4 =>
    split
    · next h => exact fits_comment cs h
    · exact fits_sign _ [] cs _ (by decide)
  case h_5 | h_10 | h_11 => exact fits_pair _ _ cs _ _ (by decide) (.inl rfl)
  case h_6 | h_7 | h_9 => exact fits_pair _ _ cs _ _ (by decide) (fits_sign _ [] cs _ (by decide))
  case h_8 =>
    split
    · next h =>
      obtain ⟨more, rfl⟩ := List.head?_eq_some_iff.mp h
      exact fits_sign '<' ['>'] more _ (by decide)
    · exact fits_pair _ _ cs _ _ (by decide) (fits_sign _ [] cs _ (by decide))
  case h_15 => exact fits_literal cs
  case h_16 =>
    by_cases hword : isWordStart c = true
    · rw [if_pos hword]
      exact fits_word c cs hword
    · rw [if_neg hword]
      by_cases hdigit : Decimal.isDigit c = true
      · rw [if_pos hdigit]
        exact fits_number c cs hdigit
      · rw [if_neg hdigit]
        split
        · next hblank => exact fits_blanks c cs hblank
        · exact .inl rfl
  all_goals exact fits_sign _ [] cs _ (by decide)

end Match

theorem Matches.ne_nil {kind : TokenKind} {raw rest : List Char} (h : Matches kind raw rest) :
    raw ≠ [] := by
  cases h with
  | sign _ _ _ hsign =>
      rintro rfl
      simp [signs] at hsign
  | keyword k => cases k <;> decide
  | number _ _ hne => exact hne
  | malformed => simp
  | blanks _ _ hne => exact hne
  | _ => exact List.cons_ne_nil _ _

/-- The grammar has no class of unexpected characters. -/
theorem Matches.kind_ne {kind : TokenKind} {raw rest : List Char} (h : Matches kind raw rest) :
    kind ≠ .error .unexpectedChar := by
  cases h with
  | sign _ _ _ hsign =>
      rintro rfl
      simp [signs] at hsign
  | literal _ _ _ _ _ hstop => cases hstop <;> simp
  | _ => simp

/-- What starts a text goes no further than its extent. -/
theorem exists_reaches_of_matches {kind : TokenKind} {raw rest : List Char} {c : Char}
    {cs : List Char} (h : Matches kind raw rest) (hsplit : raw ++ rest = c :: cs) :
    ∃ ds, raw = c :: ds ∧ cs = ds ++ rest ∧ Reaches (extent c cs) kind ds.length := by
  cases raw with
  | nil => exact absurd rfl h.ne_nil
  | cons c' ds =>
      obtain ⟨rfl, rfl⟩ := List.cons.inj hsplit
      exact ⟨ds, rfl, rfl, reaches_of_matches kind c' ds rest h⟩

theorem first_of_extent (c : Char) (ds more : List Char) (kind : TokenKind)
    (h : extent c (ds ++ more) = (kind, ds.length)) :
    first c (ds ++ more) = ⟨kind, c :: ds⟩ ∧ rest c (ds ++ more) = more := by
  rw [first, rest, h, List.take_left, List.drop_left]
  exact ⟨rfl, rfl⟩

/-- The first lexeme of a text comes first by the rule. -/
theorem leads_first (c : Char) (cs : List Char) : (first c cs).Leads (rest c cs) := by
  rcases fits_extent c cs with hextent | ⟨ds, more, rfl, hlength, hmatches⟩
  · obtain ⟨hfirst, hrest⟩ := first_of_extent c [] cs _ hextent
    rw [List.nil_append] at hfirst hrest
    rw [hfirst, hrest]
    refine .unexpected c cs ?_
    intro kind raw more hsplit hmatches
    obtain ⟨ds, -, -, hreaches⟩ := exists_reaches_of_matches hmatches hsplit
    rw [hextent] at hreaches
    rcases hreaches with hlt | ⟨-, hkind⟩
    · exact absurd hlt (Nat.not_lt_zero _)
    · exact hmatches.kind_ne hkind
  · obtain ⟨hfirst, hrest⟩ := first_of_extent c ds more _ (Prod.ext rfl hlength)
    rw [hfirst, hrest]
    refine .longest _ _ hmatches ?_
    intro kind raw other hsplit hother
    obtain ⟨es, rfl, -, hreaches⟩ := exists_reaches_of_matches hother hsplit
    rw [List.length_cons, List.length_cons, ← hlength]
    rcases hreaches with hlt | ⟨heq, -⟩
    · exact Nat.le_of_lt (Nat.succ_lt_succ hlt)
    · exact Nat.le_of_eq (congrArg Nat.succ heq)

/-- What comes first is decided by the text. -/
theorem Leads.eq_first {l : Lexeme} {more : List Char} (h : l.Leads more) {c : Char}
    {cs : List Char} (hsplit : l.raw ++ more = c :: cs) : l = first c cs ∧ more = rest c cs := by
  cases h with
  | unexpected c' _ hnone =>
      obtain ⟨rfl, rfl⟩ := List.cons.inj hsplit
      rcases fits_extent c' more with hextent | ⟨ds, other, rfl, -, hmatches⟩
      · obtain ⟨hfirst, hrest⟩ := first_of_extent c' [] more _ hextent
        exact ⟨hfirst.symm, hrest.symm⟩
      · exact absurd hmatches (hnone _ _ _ rfl)
  | longest _ _ hmatches hlongest =>
      rcases l with ⟨kind, raw⟩
      obtain ⟨ds, rfl, rfl, hreaches⟩ := exists_reaches_of_matches hmatches hsplit
      rcases hreaches with hlt | ⟨heq, hkind⟩
      · -- A longer extent would be a longer lexeme.
        rcases fits_extent c (ds ++ more) with hextent | ⟨es, other, hother, hlength, hextent⟩
        · rw [hextent] at hlt
          exact absurd hlt (Nat.not_lt_zero _)
        · have hle := hlongest _ (c :: es) other (by simp [hother]) hextent
          rw [hlength] at hlt
          exact absurd (Nat.succ_lt_succ hlt) (Nat.not_lt.mpr hle)
      · obtain ⟨hfirst, hrest⟩ := first_of_extent c ds more kind (Prod.ext hkind.symm heq.symm)
        exact ⟨hfirst.symm, hrest.symm⟩

theorem greedy_lexemes (cs : List Char) : Greedy cs (lexemes cs) := by
  fun_induction lexemes cs with
  | case1 => exact .nil
  | case2 c cs ih =>
      have hcons := Greedy.cons _ _ _ (leads_first c cs) ih
      rwa [first_raw_append_rest] at hcons

theorem Leads.raw_ne_nil {l : Lexeme} {more : List Char} (h : l.Leads more) : l.raw ≠ [] := by
  cases h with
  | longest _ _ hmatches => exact hmatches.ne_nil
  | unexpected c => exact List.cons_ne_nil c []

/-- The rule leaves nothing open, and `lexemes` follows it. -/
theorem greedy_iff (cs : List Char) (ls : List Lexeme) : Greedy cs ls ↔ ls = lexemes cs := by
  constructor
  · intro h
    induction h with
    | nil => exact lexemes_nil.symm
    | cons l more ls hleads _ ih =>
        obtain ⟨c, ds, hraw⟩ := List.exists_cons_of_ne_nil hleads.raw_ne_nil
        have hsplit : l.raw ++ more = c :: (ds ++ more) := by rw [hraw, List.cons_append]
        obtain ⟨hfirst, hrest⟩ := hleads.eq_first hsplit
        rw [hsplit, lexemes_cons, ← hfirst, ← hrest, ih]
  · rintro rfl
    exact greedy_lexemes cs

section Renaming

/-- Whether the grammar names the character, by itself or as one of a class. -/
def isNamed (c : Char) : Bool :=
  isWordPart c || Text.isBlank c || c == '"' || c == '\\' || signs.any fun s => s.1.contains c

/-- The same lexeme with other characters. -/
def rename (f : Char → Char) (l : Lexeme) : Lexeme := ⟨l.kind, l.raw.map f⟩

/-- Every character that the grammar names stands for itself. -/
def KeepsNamed (f : Equiv.Perm Char) : Prop := ∀ c, isNamed c = true → f c = c

variable {f : Equiv.Perm Char}

theorem KeepsNamed.symm (hf : KeepsNamed f) : KeepsNamed f.symm := by
  intro c hc
  rw [Equiv.symm_apply_eq, hf c hc]

theorem KeepsNamed.swap {c d : Char} (hc : isNamed c = false) (hd : isNamed d = false) :
    KeepsNamed (Equiv.swap c d) := by
  intro e he
  refine Equiv.swap_apply_of_ne_of_ne ?_ ?_
  · rintro rfl
    rw [hc] at he
    cases he
  · rintro rfl
    rw [hd] at he
    cases he

/-- A named character comes from itself only. -/
theorem KeepsNamed.apply_eq_iff (hf : KeepsNamed f) {c d : Char} (hd : isNamed d = true) :
    f c = d ↔ c = d := by
  constructor
  · intro h
    exact f.injective (h.trans (hf d hd).symm)
  · rintro rfl
    exact hf c hd

/-- A class of named characters is kept as a whole. -/
theorem KeepsNamed.apply_mem (hf : KeepsNamed f) {p : Char → Bool}
    (hp : ∀ c, p c = true → isNamed c = true) (c : Char) : p (f c) = p c := by
  by_cases hc : p c = true
  · rw [hf c (hp c hc)]
  · by_cases hfc : p (f c) = true
    · exact congrArg p ((hf.apply_eq_iff (hp _ hfc)).mp rfl).symm
    · rw [Bool.eq_false_iff.mpr hc, Bool.eq_false_iff.mpr hfc]

theorem isNamed_of_isWordPart (c : Char) (h : isWordPart c = true) : isNamed c = true := by
  simp [isNamed, h]

theorem isNamed_of_isBlank (c : Char) (h : Text.isBlank c = true) : isNamed c = true := by
  simp [isNamed, h]

theorem isNamed_of_mem_signs (raw : List Char) (kind : TokenKind) (h : (raw, kind) ∈ signs) :
    ∀ c ∈ raw, isNamed c = true := by
  intro c hc
  have hany : (signs.any fun s => s.1.contains c) = true :=
    List.any_eq_true.mpr ⟨(raw, kind), h, by simpa using hc⟩
  rw [isNamed, hany, Bool.or_true]

theorem KeepsNamed.map_eq (hf : KeepsNamed f) (cs : List Char) (h : ∀ c ∈ cs, isNamed c = true) :
    cs.map f = cs := by
  rw [List.map_congr_left fun c hc => hf c (h c hc), List.map_id']

theorem Inside.rename (hf : KeepsNamed f) {cs : List Char} (h : Inside cs) : Inside (cs.map f) := by
  induction h with
  | nil => exact .nil
  | plain c cs hquote hbackslash hfeed _ ih =>
      refine .plain (f c) _ ?_ ?_ ?_ ih
      · rwa [ne_eq, hf.apply_eq_iff (by decide)]
      · rwa [ne_eq, hf.apply_eq_iff (by decide)]
      · rwa [ne_eq, hf.apply_eq_iff (by decide)]
  | escape c cs _ ih =>
      rw [List.map_cons, hf '\\' (by decide)]
      exact .escape (f c) _ ih

theorem Stops.rename (hf : KeepsNamed f) {kind : TokenKind} {stop rest : List Char}
    (h : Stops kind stop rest) : Stops kind (stop.map f) (rest.map f) := by
  cases h with
  | quote rest =>
      rw [hf.map_eq ['"'] (List.all_eq_true.mp (by decide))]
      exact .quote _
  | feed rest =>
      rw [hf.map_eq ['\n'] (List.all_eq_true.mp (by decide))]
      exact .feed _
  | «end» => exact .end
  | backslash =>
      rw [hf.map_eq ['\\'] (List.all_eq_true.mp (by decide))]
      exact .backslash

theorem Matches.rename (hf : KeepsNamed f) {kind : TokenKind} {raw rest : List Char}
    (h : Matches kind raw rest) : Matches kind (raw.map f) (rest.map f) := by
  have hself (cs : List Char) (hcs : ∀ c ∈ cs, isWordPart c = true) : cs.map f = cs :=
    hf.map_eq cs fun c hc => isNamed_of_isWordPart c (hcs c hc)
  have hdigit (ds : List Char) (hds : ∀ d ∈ ds, Decimal.isDigit d = true) : ds.map f = ds :=
    hself ds fun d hd => isWordPart_of_isDigit d (hds d hd)
  have hword (c : Char) (cs : List Char) (hstart : isWordStart c = true)
      (hparts : ∀ d ∈ cs, isWordPart d = true) : (c :: cs).map f = c :: cs := by
    have hc := isNamed_of_isWordPart c (isWordPart_of_isWordStart c hstart)
    rw [List.map_cons, hself cs hparts, hf c hc]
  cases h with
  | sign _ _ _ hsign =>
      rw [hf.map_eq raw (isNamed_of_mem_signs raw kind hsign)]
      exact .sign raw _ kind hsign
  | keyword k =>
      obtain ⟨c, cs, hk, hstart, hparts⟩ := exists_word_of_keyword k
      rw [hk, hword c cs hstart hparts, ← hk]
      exact .keyword k _
  | identifier c cs _ hstart hparts hne =>
      rw [hword c cs hstart hparts]
      exact .identifier c cs _ hstart hparts hne
  | number _ _ hne hdigits =>
      rw [hdigit raw hdigits]
      exact .number raw _ hne hdigits
  | malformed ds c cs _ hne hdigits hstart hparts =>
      rw [List.map_append, hdigit ds hdigits, hword c cs hstart hparts]
      exact .malformed ds c cs _ hne hdigits hstart hparts
  | blanks _ _ hne hblank hrest =>
      rw [hf.map_eq raw fun c hc => isNamed_of_isBlank c (hblank c hc)]
      refine .blanks raw _ hne hblank ?_
      intro c hc
      rw [List.head?_map] at hc
      obtain ⟨d, hd, rfl⟩ := Option.map_eq_some_iff.mp hc
      rw [hf.apply_mem isNamed_of_isBlank]
      exact hrest d hd
  | comment cs _ hline hrest =>
      rw [List.map_cons, List.map_cons, hf '/' (by decide)]
      refine .comment _ _ ?_ ?_
      · intro hfeed
        obtain ⟨c, hc, hfc⟩ := List.mem_map.mp hfeed
        rw [hf.apply_eq_iff (by decide)] at hfc
        exact hline (hfc ▸ hc)
      · intro c hc
        rw [List.head?_map] at hc
        obtain ⟨d, hd, rfl⟩ := Option.map_eq_some_iff.mp hc
        rw [hrest d hd, hf '\n' (by decide)]
  | literal _ inside stop _ hinside hstop =>
      rw [List.map_cons, hf '"' (by decide), List.map_append]
      exact .literal kind _ _ _ (hinside.rename hf) (hstop.rename hf)

theorem Leads.rename (hf : KeepsNamed f) {l : Lexeme} {rest : List Char} (h : l.Leads rest) :
    (l.rename f).Leads (rest.map f) := by
  -- What the renamed text starts with, the text itself starts with under the old names.
  have hback (cs : List Char) {kind : TokenKind} {raw more : List Char}
      (hmatches : Matches kind raw more) (hsplit : raw ++ more = cs.map f) :
      Matches kind (raw.map f.symm) (more.map f.symm) ∧
        raw.map f.symm ++ more.map f.symm = cs := by
    refine ⟨hmatches.rename hf.symm, ?_⟩
    rw [← List.map_append, hsplit, List.map_map, Equiv.symm_comp_self, List.map_id]
  cases h with
  | longest _ _ hmatches hlongest =>
      refine .longest _ _ (hmatches.rename hf) ?_
      intro kind raw more hsplit hother
      obtain ⟨hmatches', hsplit'⟩ :=
        hback (l.raw ++ rest) hother (by rw [hsplit, List.map_append]; rfl)
      simpa [Lexeme.rename] using hlongest kind _ _ hsplit' hmatches'
  | unexpected c _ hnone =>
      refine .unexpected (f c) _ ?_
      intro kind raw more hsplit hother
      obtain ⟨hmatches', hsplit'⟩ := hback (c :: rest) hother hsplit
      exact hnone kind _ _ hsplit' hmatches'

theorem Greedy.rename (hf : KeepsNamed f) {cs : List Char} {ls : List Lexeme} (h : Greedy cs ls) :
    Greedy (cs.map f) (ls.map (Lexeme.rename f)) := by
  induction h with
  | nil => exact .nil
  | cons l rest ls hleads _ ih =>
      rw [List.map_append, List.map_cons]
      exact .cons (l.rename f) _ _ (hleads.rename hf) ih

/-- Characters that the grammar does not name are all the same to it. -/
theorem lexemes_map (hf : KeepsNamed f) (cs : List Char) :
    lexemes (cs.map f) = (lexemes cs).map (Lexeme.rename f) :=
  ((greedy_iff _ _).mp ((greedy_lexemes cs).rename hf)).symm

end Renaming

/-- The kind of a lexeme and the text that it stands for. -/
def content (l : Lexeme) : TokenKind × String := (l.kind, String.ofList l.text)

end Lexeme

/-- A token without its position. -/
def Token.content (t : Token) : TokenKind × String := (t.kind, t.text)

namespace TokenStream

theorem map_place (p : Position) (ls : List Lexeme) :
    (place p ls).map Token.content = ls.map Lexeme.content := by
  induction ls generalizing p with
  | nil => rfl
  | cons l ls ih =>
      rw [place_cons, List.map_cons, List.map_cons, ih]
      rfl

/-- The tokens of a text are the lexemes that the longest match gives, of which there is one
sequence. To the scanner NUL is like any other character that the grammar does not name:
exchanging the two changes nothing but the characters. -/
theorem ofSource_greedy (source : String) :
    (∀ ls, Lexeme.Greedy source.toList ls ↔ ls = lexemes source.toList) ∧
      (ofSource source).toList.map Token.content =
        (lexemes source.toList).map Lexeme.content ++ [(.eof, "")] ∧
      ∀ c, Lexeme.isNamed c = false →
        lexemes (source.toList.map (Equiv.swap '\x00' c)) =
          (lexemes source.toList).map (Lexeme.rename (Equiv.swap '\x00' c)) := by
  refine ⟨Lexeme.greedy_iff source.toList, ?_, ?_⟩
  · rw [toList, List.map_append, ← map_place .start]
    rfl
  · intro c hc
    exact Lexeme.lexemes_map (Lexeme.KeepsNamed.swap (by decide) hc) source.toList

/-- NUL in a word, in a literal, in a comment and at the end. -/
def nulText : String := "a\x00b \"\x00\\\x00\" //\x00\n1\x00"

theorem ofSource_greedy_nulText :
    Lexeme.isNamed '~' = false ∧
      (∀ ls, Lexeme.Greedy nulText.toList ls ↔ ls = lexemes nulText.toList) ∧
      lexemes (nulText.toList.map (Equiv.swap '\x00' '~')) =
        (lexemes nulText.toList).map (Lexeme.rename (Equiv.swap '\x00' '~')) :=
  ⟨by decide, (ofSource_greedy nulText).1, (ofSource_greedy nulText).2.2 '~' (by decide)⟩

example : (ofSource nulText).toList.map Token.kind =
    [.identifier, .error .unexpectedChar, .identifier, .whitespace, .strLiteral, .whitespace,
      .comment, .whitespace, .intLiteral, .error .unexpectedChar, .eof] := by
  decide +kernel

end TokenStream

end StackLang
