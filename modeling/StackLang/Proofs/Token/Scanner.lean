import Mathlib.Data.String.Basic
import StackLang.Proofs.Token.Extent

/-!
# Scanning by a cursor

`extent` decides at once how far a lexeme goes. A scanner finds it out character by
character. It has a cursor, which counts bytes, and where the text has ended it sees the
character NUL, which a text may as well contain. A loop over characters of some class runs
until it sees another one; inside a string literal a flag tells whether a backslash came
before. The text of a token is the slice between the cursor at its start and at its end.

The main statement is that the tokens that are pulled out of a scanner one by one are those
of the stream, with the end of the text coming for ever. `skip` is what reading some
characters amounts to, and each function of the scanner skips what `extent` says.
-/

namespace StackLang

/-- How many bytes consecutive lexemes take. -/
def Lexeme.bytes (ls : List Lexeme) : Nat := String.utf8Len (ls.flatMap Lexeme.raw)

theorem Lexeme.flatMap_raw_take (ls : List Lexeme) (i : Nat) (l : Lexeme) (h : ls[i]? = some l) :
    (ls.take (i + 1)).flatMap raw = (ls.take i).flatMap raw ++ l.raw := by
  rw [List.take_add_one, h]
  simp

/-- The text of a lexeme is the slice between what the lexemes before it take and what they take
with it. -/
theorem Lexeme.extract_bytes (ls : List Lexeme) (i : Nat) (l : Lexeme) (h : ls[i]? = some l) :
    String.Pos.Raw.extract (String.ofList (ls.flatMap raw)) ⟨bytes (ls.take i)⟩
      ⟨bytes (ls.take (i + 1))⟩ = String.ofList l.raw := by
  have hnext := flatMap_raw_take ls i l h
  have hvalid := String.extract_of_valid ((ls.take i).flatMap raw) l.raw
    ((ls.drop (i + 1)).flatMap raw)
  rw [← hnext, ← List.flatMap_append, List.take_append_drop, ← String.utf8Len_append,
    ← hnext] at hvalid
  exact hvalid

/-- A scanner in the middle of a text. -/
structure Scanner where
  source : String
  /-- The characters that have not been read yet. -/
  ahead : List Char
  /-- How many bytes have been read. -/
  cursor : Nat
  /-- The cursor at the start of the token. -/
  low : Nat
  /-- The position of the next character. -/
  pos : Position
  /-- The position of the first character of the token. -/
  start : Position

namespace Scanner

def new (source : String) : Scanner := ⟨source, source.toList, 0, 0, .start, .start⟩

section Steps

variable (k : Scanner)

/-- The next character, which is left where it is; NUL at the end of the text. -/
def peek : Char := k.ahead.headD '\x00'

def exhausted : Bool := k.ahead.isEmpty

/-- The next character, and the scanner behind it; NUL at the end of the text. -/
def advance : Char × Scanner :=
  match k.ahead with
  | [] => ('\x00', k)
  | c :: cs =>
    (c, { k with ahead := cs, cursor := k.cursor + c.utf8Size, pos := k.pos.advance c })

/-- Starts a token. -/
def mark : Scanner := { k with low := k.cursor, start := k.pos }

/-- The text of the token so far, a range of bytes. -/
def slice : String := String.Pos.Raw.extract k.source ⟨k.low⟩ ⟨k.cursor⟩

end Steps

theorem length_advance_lt (k : Scanner) (h : k.exhausted = false) :
    k.advance.2.ahead.length < k.ahead.length := by
  cases hahead : k.ahead with
  | nil => simp [exhausted, hahead] at h
  | cons c cs => simp [advance, hahead]

section Loops

/-- Reads on as long as there is reason to. There has to be none at the end of the text. -/
def readWhile (more : Scanner → Bool) (h : ∀ k, more k = true → k.exhausted = false)
    (k : Scanner) : Scanner :=
  if _ : more k = true then readWhile more h k.advance.2 else k
termination_by k.ahead.length
decreasing_by exact length_advance_lt k (h k ‹_›)

/-- What stands at the end of the text belongs to no class that leaves it out. -/
theorem exhausted_of_peek {p : Char → Bool} (hp : p '\x00' = false) (k : Scanner)
    (h : p k.peek = true) : k.exhausted = false := by
  cases hahead : k.ahead with
  | nil => simp [peek, hahead, hp] at h
  | cons c cs => simp [exhausted, hahead]

theorem exhausted_of_and {p : Char → Bool} (k : Scanner) (h : (!k.exhausted && p k.peek) = true) :
    k.exhausted = false := by
  simp_all

def digits : Scanner → Scanner :=
  readWhile (fun k => Decimal.isDigit k.peek) (exhausted_of_peek (by decide))

def wordParts : Scanner → Scanner :=
  readWhile (fun k => isWordPart k.peek) (exhausted_of_peek (by decide))

def blanks : Scanner → Scanner :=
  readWhile (fun k => !k.exhausted && Text.isBlank k.peek) exhausted_of_and

def line : Scanner → Scanner :=
  readWhile (fun k => !k.exhausted && k.peek != '\n') (exhausted_of_and (p := (· != '\n')))

/-- What a character does inside a string literal: it ends the literal, or it tells whether the
next one is escaped. -/
def judge : Bool → Char → TokenKind ⊕ Bool
  | false, '"' => .inl .strLiteral
  | false, '\n' => .inl (.error .unescapedLineBreak)
  | false, '\\' => .inr true
  | _, _ => .inr false

/-- A string literal behind its opening quote, or behind a character in it. -/
def literal (escaping : Bool) (k : Scanner) : TokenKind × Scanner :=
  if _ : k.exhausted = true then (.error .unclosedString, k)
  else
    match judge escaping k.advance.1 with
    | .inl kind => (kind, k.advance.2)
    | .inr escaping => literal escaping k.advance.2
termination_by k.ahead.length
decreasing_by exact length_advance_lt k (Bool.eq_false_of_not_eq_true ‹_›)

end Loops

section Kinds

variable (k : Scanner)

/-- A word behind its first character. -/
def word : TokenKind × Scanner :=
  match Keyword.ofSpelling? k.wordParts.slice with
  | some keyword => (.keyword keyword, k.wordParts)
  | none => (.identifier, k.wordParts)

/-- A number behind its first digit. -/
def number : TokenKind × Scanner :=
  if isWordPart k.digits.peek then (.error .malformedNumber, k.digits.wordParts)
  else (.intLiteral, k.digits)

/-- The kind `long`, one character further, if `c` comes next; the kind `short` if not. -/
def pair (c : Char) (long short : TokenKind) : TokenKind × Scanner :=
  if k.peek = c then (long, k.advance.2) else (short, k)

/-- The token that starts with `c`, behind this character. -/
def behind (c : Char) : TokenKind × Scanner :=
  match c with
  | '+' => (.plus, k)
  | '-' => (.minus, k)
  | '*' => (.star, k)
  | '/' => if k.peek = '/' then (.comment, k.advance.2.line) else (.slash, k)
  | ':' => k.pair '=' .assign (.error .unexpectedChar)
  | '=' => k.pair '=' .eq .assign
  | '!' => k.pair '=' .notEq .bang
  | '<' =>
    match k.peek with
    | '=' => (.lessEq, k.advance.2)
    | '>' => (.notEq, k.advance.2)
    | _ => (.less, k)
  | '>' => k.pair '=' .greaterEq .greater
  | '|' => k.pair '|' .or (.error .unexpectedChar)
  | '&' => k.pair '&' .and (.error .unexpectedChar)
  | '(' => (.lparen, k)
  | ')' => (.rparen, k)
  | ';' => (.semicolon, k)
  | '"' => k.literal false
  | c =>
    if isWordStart c then k.word
    else if Decimal.isDigit c then k.number
    else if Text.isBlank c then (.whitespace, k.blanks)
    else (.error .unexpectedChar, k)

/-- The kind of the next token, and the scanner behind it. -/
def scan : TokenKind × Scanner :=
  if k.mark.exhausted then (.eof, k.mark) else k.mark.advance.2.behind k.mark.advance.1

/-- The token of the given kind between the mark and the cursor. -/
def produce (kind : TokenKind) : Token :=
  let text :=
    match kind with
    | .strLiteral => String.ofList (Text.Escape.literalText k.slice.toList)
    | _ => k.slice
  ⟨kind, text, k.start⟩

/-- The next token. At the end of the text it is the end of file, however often. -/
def next : Token × Scanner := (k.scan.2.produce k.scan.1, k.scan.2)

/-- The scanner from which `n` tokens have been pulled. -/
def pulled : Nat → Scanner
  | 0 => k
  | n + 1 => (pulled n).next.2

end Kinds

section Skip

variable (k : Scanner)

/-- The scanner behind the next `n` characters. -/
def skip (n : Nat) : Scanner :=
  { k with
    ahead := k.ahead.drop n
    cursor := k.cursor + String.utf8Len (k.ahead.take n)
    pos := k.pos.after (k.ahead.take n) }

@[simp] theorem ahead_skip (n : Nat) : (k.skip n).ahead = k.ahead.drop n := rfl

@[simp] theorem ahead_mark : k.mark.ahead = k.ahead := rfl

@[simp] theorem skip_zero : k.skip 0 = k := rfl

theorem skip_skip (m n : Nat) : (k.skip m).skip n = k.skip (m + n) := by
  simp only [skip, List.drop_drop, List.take_add, String.utf8Len_append, Position.after_append,
    Nat.add_assoc]

theorem advance_snd : k.advance.2 = k.skip 1 := by
  rcases k with ⟨source, ahead, cursor, low, pos, start⟩
  cases ahead with
  | nil => rfl
  | cons c cs => simp [advance, skip]

theorem advance_fst (c : Char) (cs : List Char) (h : k.ahead = c :: cs) : k.advance.1 = c := by
  simp [advance, h]

theorem peek_eq_iff {c : Char} (hc : c ≠ '\x00') : k.peek = c ↔ k.ahead.head? = some c := by
  cases hahead : k.ahead with
  | nil => simp [peek, hahead, hc.symm]
  | cons d ds => simp [peek, hahead]

/-- A loop skips the characters that it is meant for, up to the first that is not. -/
theorem readWhile_eq {more : Scanner → Bool} (h : ∀ k, more k = true → k.exhausted = false)
    {p : Char → Bool} (hp : ∀ k : Scanner, more k = k.ahead.head?.any p) (k : Scanner) :
    readWhile more h k = k.skip (Lexeme.runLength p k.ahead) := by
  induction hlength : k.ahead.length using Nat.strongRecOn generalizing k with
  | ind n ih =>
      rw [readWhile]
      cases hahead : k.ahead with
      | nil => simp [hp, hahead, Lexeme.runLength]
      | cons c cs =>
          cases hc : p c with
          | false => simp [hp, hahead, hc, Lexeme.runLength]
          | true =>
              have hmore : more k = true := by simp [hp, hahead, hc]
              have hshorter := length_advance_lt k (h k hmore)
              rw [dif_pos hmore, ih _ (hlength ▸ hshorter) _ rfl, advance_snd, skip_skip,
                ahead_skip, hahead, List.drop_one, List.tail_cons]
              simp [Lexeme.runLength, hc, Nat.add_comm]

theorem any_head?_eq {p : Char → Bool} (hp : p '\x00' = false) :
    p k.peek = k.ahead.head?.any p := by
  cases hahead : k.ahead with
  | nil => simp [peek, hahead, hp]
  | cons c cs => simp [peek, hahead]

theorem any_head?_eq_and (p : Char → Bool) :
    (!k.exhausted && p k.peek) = k.ahead.head?.any p := by
  cases hahead : k.ahead with
  | nil => simp [exhausted, hahead]
  | cons c cs => simp [exhausted, peek, hahead]

theorem digits_eq : k.digits = k.skip (Lexeme.runLength Decimal.isDigit k.ahead) :=
  readWhile_eq _ (fun k => k.any_head?_eq (by decide)) k

theorem wordParts_eq : k.wordParts = k.skip (Lexeme.runLength isWordPart k.ahead) :=
  readWhile_eq _ (fun k => k.any_head?_eq (by decide)) k

theorem blanks_eq : k.blanks = k.skip (Lexeme.runLength Text.isBlank k.ahead) :=
  readWhile_eq _ (fun k => k.any_head?_eq_and _) k

theorem line_eq : k.line = k.skip (Lexeme.runLength (· ≠ '\n') k.ahead) := by
  have hline : (fun c : Char => decide (c ≠ '\n')) = (· != '\n') := by
    funext c
    simp [bne, Bool.beq_eq_decide_eq]
  rw [hline]
  exact readWhile_eq _ (fun k => k.any_head?_eq_and (· != '\n')) k

end Skip

end Scanner

namespace Lexeme

theorem runLength_pos_iff (p : Char → Bool) (cs : List Char) :
    0 < runLength p cs ↔ cs.head?.any p = true := by
  cases cs with
  | nil => simp [runLength]
  | cons c cs => cases hc : p c <;> simp [runLength, hc]

/-- Digits are parts of words, so a run of such parts goes on behind the digits. -/
theorem runLength_isWordPart (cs : List Char) :
    runLength isWordPart cs = runLength Decimal.isDigit cs +
      runLength isWordPart (cs.drop (runLength Decimal.isDigit cs)) := by
  have hdigits (c : Char) (hc : c ∈ cs.takeWhile Decimal.isDigit) : isWordPart c = true :=
    isWordPart_of_isDigit c (List.all_eq_true.mp List.all_takeWhile c hc)
  calc runLength isWordPart cs
      = runLength isWordPart (cs.takeWhile Decimal.isDigit ++
          cs.drop (runLength Decimal.isDigit cs)) := by
        rw [← take_runLength, List.take_append_drop]
    _ = _ := runLength_append hdigits

end Lexeme

namespace Scanner

section Extents

variable (k : Scanner)

/-- Behind the characters of an extent, with its kind. -/
def found (x : TokenKind × Nat) : TokenKind × Scanner := (x.1, k.skip x.2)

theorem found_skip (n : Nat) (x : TokenKind × Nat) :
    (k.skip n).found x = k.found (x.map id (· + n)) := by
  rw [found, skip_skip, Nat.add_comm]
  rfl

theorem number_eq : k.number = k.found (Lexeme.number k.ahead) := by
  have hparts := Lexeme.runLength_isWordPart k.ahead
  have hmore : isWordPart (k.skip (Lexeme.runLength Decimal.isDigit k.ahead)).peek = true ↔
      Lexeme.runLength Decimal.isDigit k.ahead < Lexeme.runLength isWordPart k.ahead := by
    rw [any_head?_eq _ (p := isWordPart) (by decide), ← Lexeme.runLength_pos_iff, ahead_skip]
    omega
  rw [number, digits_eq, wordParts_eq, skip_skip, ahead_skip, ← hparts, Lexeme.number]
  by_cases h : Lexeme.runLength Decimal.isDigit k.ahead < Lexeme.runLength isWordPart k.ahead
  · rw [if_pos (hmore.mpr h), if_pos h]
    rfl
  · rw [if_neg fun hpart => h (hmore.mp hpart), if_neg h]
    rfl

theorem pair_eq (c : Char) (hc : c ≠ '\x00') (long short : TokenKind) :
    k.pair c long short = k.found (Lexeme.pair k.ahead c long short) := by
  rw [pair, Lexeme.pair, advance_snd]
  by_cases h : k.ahead.head? = some c
  · rw [if_pos ((k.peek_eq_iff hc).mpr h), if_pos h]
    rfl
  · rw [if_neg fun hpeek => h ((k.peek_eq_iff hc).mp hpeek), if_neg h]
    rfl

theorem literal_of_nil {k : Scanner} (escaping : Bool) (hk : k.ahead = []) :
    k.literal escaping = (.error .unclosedString, k) := by
  rw [literal.eq_def, dif_pos (by simp [exhausted, hk])]

theorem literal_of_cons {k : Scanner} (escaping : Bool) {c : Char} {cs : List Char}
    (hk : k.ahead = c :: cs) :
    k.literal escaping =
      (judge escaping c).elim (fun kind => (kind, k.skip 1))
        fun next => (k.skip 1).literal next := by
  rw [literal.eq_def, dif_neg (by simp [exhausted, hk]), k.advance_fst c cs hk, advance_snd]
  cases judge escaping c <;> rfl

theorem judge_of_ne {c : Char} (hquote : c ≠ '"') (hfeed : c ≠ '\n') (hbackslash : c ≠ '\\') :
    judge false c = .inr false := by
  unfold judge
  split <;> simp_all

/-- A flag for the backslash comes to the same as taking the next character with it. -/
theorem literal_eq (cs : List Char) : ∀ k : Scanner, k.ahead = cs →
    k.literal false = k.found (Lexeme.literal cs) := by
  fun_induction Lexeme.literal cs with
  | case1 => exact fun k hk => literal_of_nil false hk
  | case2 cs | case3 cs => exact fun k hk => literal_of_cons false hk
  | case4 =>
      intro k hk
      have hend : (k.skip 1).ahead = [] := by simp [hk]
      exact (literal_of_cons false hk).trans (literal_of_nil true hend)
  | case5 c cs ih =>
      intro k hk
      have hescaped : (k.skip 1).ahead = c :: cs := by simp [hk]
      have hrest : ((k.skip 1).skip 1).ahead = cs := by simp [hk]
      calc k.literal false
          = (k.skip 1).literal true := literal_of_cons false hk
        _ = ((k.skip 1).skip 1).literal false := literal_of_cons true hescaped
        _ = ((k.skip 1).skip 1).found (Lexeme.literal cs) := ih _ hrest
        _ = k.found ((Lexeme.literal cs).map id (· + 2)) := by rw [skip_skip, found_skip]
  | case6 c cs hquote hfeed hlast hescape ih =>
      intro k hk
      have hrest : (k.skip 1).ahead = cs := by simp [hk]
      have hbackslash : c ≠ '\\' := by
        intro hc
        cases cs with
        | nil => exact hlast hc rfl
        | cons d ds => exact hescape d ds hc rfl
      rw [literal_of_cons false hk, judge_of_ne hquote hfeed hbackslash]
      exact (ih _ hrest).trans (k.found_skip 1 _)

theorem word_eq (c : Char)
    (h : k.wordParts.slice = String.ofList (c :: k.ahead.takeWhile isWordPart)) :
    k.word = k.found (Lexeme.word c k.ahead) := by
  rw [word, h, Lexeme.word_eq, Lexeme.wordKind, wordParts_eq]
  cases Keyword.ofSpelling? (String.ofList (c :: k.ahead.takeWhile isWordPart)) <;> rfl

/-- Behind its first slash a comment starts with the second, and goes on to the end of the line. -/
theorem comment_eq (h : k.ahead.head? = some '/') :
    k.advance.2.line = k.skip (Lexeme.runLength (· ≠ '\n') k.ahead) := by
  obtain ⟨cs, hcs⟩ := List.head?_eq_some_iff.mp h
  rw [advance_snd, line_eq, skip_skip, ahead_skip, hcs]
  simp [Lexeme.runLength, Nat.add_comm]

theorem behind_less :
    k.behind '<' = k.found (Lexeme.extent '<' k.ahead) := by
  have hequals := k.peek_eq_iff (c := '=') (by decide)
  have hgreater := k.peek_eq_iff (c := '>') (by decide)
  simp only [behind, Lexeme.extent, Lexeme.pair, advance_snd]
  split
  · next hpeek =>
    rw [if_neg (by simp [hequals.mp hpeek]), if_pos (hequals.mp hpeek)]
    rfl
  · next hpeek =>
    rw [if_pos (hgreater.mp hpeek)]
    rfl
  · next hne hne' =>
    rw [if_neg fun h => hne' (hgreater.mpr h), if_neg fun h => hne (hequals.mpr h)]
    rfl

/-- Behind its first character, a token is as long as its extent says. -/
theorem behind_eq (c : Char)
    (h : k.wordParts.slice = String.ofList (c :: k.ahead.takeWhile isWordPart)) :
    k.behind c = k.found (Lexeme.extent c k.ahead) := by
  by_cases hless : c = '<'
  · rw [hless]
    exact k.behind_less
  unfold behind Lexeme.extent
  split
  case h_4 =>
    by_cases hslash : k.ahead.head? = some '/'
    · simp only [if_pos ((k.peek_eq_iff (by decide)).mpr hslash), if_pos hslash,
        k.comment_eq hslash]
      rfl
    · simp only [if_neg fun hpeek => hslash ((k.peek_eq_iff (by decide)).mp hpeek), if_neg hslash]
      rfl
  case h_8 => exact absurd rfl hless
  case h_15 => exact literal_eq _ k rfl
  case h_16 =>
    by_cases hword : isWordStart c = true
    · simp only [if_pos hword]
      exact k.word_eq c h
    · simp only [if_neg hword]
      by_cases hdigit : Decimal.isDigit c = true
      · simp only [if_pos hdigit]
        exact k.number_eq
      · simp only [if_neg hdigit, blanks_eq]
        split <;> rfl
  case h_5 | h_6 | h_7 | h_9 | h_10 | h_11 => exact k.pair_eq _ (by decide) _ _
  all_goals rfl

end Extents

section Streams

variable {k : Scanner} {done : List Char}

/-- What has been read and what has not make up the text, and the cursor is behind the former. -/
structure Sound (k : Scanner) (done : List Char) : Prop where
  source : k.source = String.ofList (done ++ k.ahead)
  cursor : k.cursor = String.utf8Len done

theorem sound_new (source : String) : (new source).Sound [] :=
  ⟨(String.ofList_toList).symm, rfl⟩

theorem Sound.skip (h : k.Sound done) (n : Nat) :
    (k.skip n).Sound (done ++ k.ahead.take n) := by
  refine ⟨?_, ?_⟩
  · rw [ahead_skip, List.append_assoc, List.take_append_drop]
    exact h.source
  · rw [String.utf8Len_append, ← h.cursor]
    rfl

theorem Sound.mark (h : k.Sound done) : k.mark.Sound done := ⟨h.source, h.cursor⟩

/-- The bytes between the mark and the cursor are those of the characters that were skipped. -/
theorem Sound.slice (h : k.Sound done) (n : Nat) :
    (k.mark.skip n).slice = String.ofList (k.ahead.take n) := by
  have hsource : k.source = String.ofList (done ++ k.ahead.take n ++ k.ahead.drop n) := by
    rw [List.append_assoc, List.take_append_drop]
    exact h.source
  have hvalid := String.extract_of_valid done (k.ahead.take n) (k.ahead.drop n)
  rw [← hsource, ← h.cursor] at hvalid
  exact hvalid

theorem take_extent {c : Char} {cs : List Char} (hk : k.ahead = c :: cs) :
    k.ahead.take (1 + (Lexeme.extent c cs).2) = (Lexeme.first c cs).raw := by
  rw [hk, Nat.add_comm, List.take_succ_cons]
  rfl

/-- A scanner finds the first lexeme of what is ahead. -/
theorem scan_of_cons (h : k.Sound done) {c : Char} {cs : List Char}
    (hk : k.ahead = c :: cs) :
    k.scan = ((Lexeme.first c cs).kind, k.mark.skip (1 + (Lexeme.extent c cs).2)) := by
  have hrest : (k.mark.skip 1).ahead = cs := by simp [hk]
  have hword : (k.mark.skip 1).wordParts.slice =
      String.ofList (c :: (k.mark.skip 1).ahead.takeWhile isWordPart) := by
    rw [wordParts_eq, skip_skip, h.slice, hrest, hk, Nat.add_comm, List.take_succ_cons,
      Lexeme.take_runLength]
  have hbehind := (k.mark.skip 1).behind_eq c hword
  rw [hrest, found, skip_skip] at hbehind
  rw [scan, if_neg (by simp [exhausted, hk]), k.mark.advance_fst c cs hk, advance_snd]
  exact hbehind

theorem produce_eq (l : Lexeme) (h : k.slice = String.ofList l.raw) :
    k.produce l.kind = ⟨l.kind, String.ofList l.text, k.start⟩ := by
  rcases l with ⟨kind, raw⟩
  simp only [produce, h, Lexeme.text, String.toList_ofList]
  cases kind <;> rfl

theorem next_of_cons (h : k.Sound done) {c : Char} {cs : List Char}
    (hk : k.ahead = c :: cs) :
    k.next = (⟨(Lexeme.first c cs).kind, String.ofList (Lexeme.first c cs).text, k.pos⟩,
      k.mark.skip (1 + (Lexeme.extent c cs).2)) := by
  have hslice := h.slice (1 + (Lexeme.extent c cs).2)
  rw [take_extent hk] at hslice
  rw [next, scan_of_cons h hk]
  exact Prod.ext (produce_eq _ hslice) rfl

/-- At the end of the text there is only the end. -/
theorem next_of_nil (h : k.Sound done) (hk : k.ahead = []) :
    k.next = (⟨.eof, "", k.pos⟩, k.mark) := by
  have hslice : k.mark.slice = "" := by simpa using h.slice 0
  rw [next, scan, if_pos (by simp [exhausted, hk])]
  simp only [produce, hslice]
  rfl

/-- The scanner stands behind the first `n` lexemes of a text. -/
structure Stands (source : String) (n : Nat) (k : Scanner) : Prop where
  sound : k.Sound (((lexemes source.toList).take n).flatMap Lexeme.raw)
  ahead : lexemes k.ahead = (lexemes source.toList).drop n
  pos : k.pos = Position.start.after (((lexemes source.toList).take n).flatMap Lexeme.raw)

theorem exists_of_lexemes_eq_cons {cs : List Char} {l : Lexeme} {ls : List Lexeme}
    (h : lexemes cs = l :: ls) :
    ∃ d ds, cs = d :: ds ∧ l = Lexeme.first d ds ∧ ls = lexemes (Lexeme.rest d ds) := by
  cases cs with
  | nil => simp at h
  | cons d ds =>
      rw [lexemes_cons] at h
      obtain ⟨rfl, rfl⟩ := List.cons.inj h
      exact ⟨d, ds, rfl, rfl, rfl⟩

theorem eq_nil_of_lexemes_eq_nil {cs : List Char} (h : lexemes cs = []) : cs = [] := by
  rw [← flatMap_raw_lexemes cs, h]
  rfl

theorem stands_new (source : String) : Stands source 0 (new source) where
  sound := sound_new source
  ahead := rfl
  pos := rfl

/-- Behind the last lexeme a scanner stays where it is. -/
theorem Stands.of_length_le {source : String} {n : Nat} (h : Stands source n k)
    (hn : (lexemes source.toList).length ≤ n) : Stands source (n + 1) k.mark := by
  obtain ⟨hsound, hahead, hpos⟩ := h
  rw [List.take_of_length_le hn] at hsound hpos
  rw [List.drop_of_length_le hn] at hahead
  refine ⟨?_, ?_, ?_⟩
  · rw [List.take_of_length_le (Nat.le_succ_of_le hn)]
    exact hsound.mark
  · rw [List.drop_of_length_le (Nat.le_succ_of_le hn)]
    exact hahead
  · rw [List.take_of_length_le (Nat.le_succ_of_le hn)]
    exact hpos

/-- Pulling a token gives that of the stream, and leaves the scanner behind the next lexeme, with
the mark in front of it. -/
theorem Stands.next {source : String} {n : Nat} (h : Stands source n k) :
    k.next.1 = (TokenStream.ofSource source).nth n ∧ k.next.2.low = k.cursor ∧
      Stands source (n + 1) k.next.2 := by
  rw [TokenStream.nth_ofSource, ← h.pos]
  cases hl : (lexemes source.toList)[n]? with
  | none =>
      have hn : (lexemes source.toList).length ≤ n := List.getElem?_eq_none_iff.mp hl
      have hk : k.ahead = [] := eq_nil_of_lexemes_eq_nil (h.ahead.trans (List.drop_of_length_le hn))
      have hpos := h.pos
      rw [List.take_of_length_le hn, flatMap_raw_lexemes] at hpos
      rw [next_of_nil h.sound hk, hpos]
      exact ⟨rfl, rfl, h.of_length_le hn⟩
  | some l =>
      have hahead := h.ahead
      obtain ⟨hn, hget⟩ := List.getElem?_eq_some_iff.mp hl
      rw [List.drop_eq_getElem_cons hn, hget] at hahead
      obtain ⟨c, cs, hk, rfl, hrest⟩ := exists_of_lexemes_eq_cons hahead
      have hdone := Lexeme.flatMap_raw_take _ n _ hl
      rw [next_of_cons h.sound hk]
      refine ⟨rfl, rfl, ?_, ?_, ?_⟩
      · have hsound := h.sound.mark.skip (1 + (Lexeme.extent c cs).2)
        rwa [ahead_mark, take_extent hk, ← hdone] at hsound
      · rw [hrest, ahead_skip, ahead_mark, hk, Nat.add_comm]
        rfl
      · change k.pos.after (k.ahead.take (1 + (Lexeme.extent c cs).2)) = _
        rw [take_extent hk, h.pos, hdone, Position.after_append]

theorem stands_pulled (source : String) (n : Nat) : Stands source n ((new source).pulled n) := by
  induction n with
  | zero => exact stands_new source
  | succ n ih => exact ih.next.2.2

/-- The tokens that are pulled out of a scanner are those of the stream, however many. -/
theorem next_pulled (source : String) (n : Nat) :
    ((new source).pulled n).next.1 = (TokenStream.ofSource source).nth n :=
  (stands_pulled source n).next.1

-- A NUL in the text is not taken for its end.
example : (List.range 5).map (fun n => ((new "é \x00").pulled n).next.1.kind) =
    [.error .unexpectedChar, .whitespace, .error .unexpectedChar, .eof, .eof] := by
  decide +kernel

/-- The bounds of a token in bytes: what the lexemes before it take, and what they take with its
own. -/
theorem bounds_pulled (source : String) (n : Nat) :
    ((new source).pulled n).next.2.low = Lexeme.bytes ((lexemes source.toList).take n) ∧
      ((new source).pulled n).next.2.cursor =
        Lexeme.bytes ((lexemes source.toList).take (n + 1)) := by
  have hstands := stands_pulled source n
  obtain ⟨-, hlow, hnext⟩ := hstands.next
  exact ⟨hlow.trans hstands.sound.cursor, hnext.sound.cursor⟩

end Streams

end Scanner

end StackLang
