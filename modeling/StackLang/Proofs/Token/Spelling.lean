import StackLang.Proofs.Token.LongestMatch

/-!
# Scanning undoes spelling

An item is a lexeme that means something: a keyword, an identifier, a number, a sign or a
string. Items are spelled one after the other with blanks between them, and whatever the
items and the blanks are, scanning finds the same items again. No item takes in part of its
neighbour, since no item goes on over a blank; and a string comes back as it was, since
the escapes that spell it are read as they are written.
-/

namespace StackLang

/-- Blanks between two items. There is at least one. -/
structure Gap where
  blanks : List Char
  ne_nil : blanks ≠ []
  isBlank : ∀ b ∈ blanks, Text.isBlank b = true

/-- The blanks of a gap that may be missing. -/
def Gap.optional : Option Gap → List Char
  | none => []
  | some g => g.blanks

/-- A lexeme that means something. -/
inductive Item where
  | keyword (k : Keyword)
  | identifier (c : Char) (cs : List Char) (hstart : isWordStart c = true)
      (hparts : ∀ d ∈ cs, isWordPart d = true)
      (hword : ∀ k : Keyword, c :: cs ≠ k.spelling.toList)
  | number (ds : List Char) (hne : ds ≠ []) (hdigits : ∀ d ∈ ds, Decimal.isDigit d = true)
  | sign (raw : List Char) (kind : TokenKind) (h : (raw, kind) ∈ Lexeme.signs)
  | string (s : String)

namespace Item

def kind : Item → TokenKind
  | .keyword k => .keyword k
  | .identifier .. => .identifier
  | .number .. => .intLiteral
  | .sign _ kind _ => kind
  | .string _ => .strLiteral

/-- How an item is written. -/
def spelling : Item → List Char
  | .keyword k => k.spelling.toList
  | .identifier c cs _ _ _ => c :: cs
  | .number ds _ _ => ds
  | .sign raw _ _ => raw
  | .string s => '"' :: (Text.Escape.escape s.toList ++ ['"'])

/-- The text that an item stands for: a string for itself, anything else for its spelling. -/
def text : Item → String
  | .string s => s
  | i => String.ofList i.spelling

def lexeme (i : Item) : Lexeme := ⟨i.kind, i.spelling⟩

/-- Items one after the other, the `n`-th of the gaps behind the `n`-th of them. -/
def write (gap : Nat → Gap) : List Item → List Char
  | [] => []
  | [i] => i.spelling
  | i :: j :: is => i.spelling ++ ((gap 0).blanks ++ write (fun n => gap (n + 1)) (j :: is))

end Item

namespace Text.Escape

/-- Without a backslash there is nothing to resolve. -/
theorem unescape_of_not_mem (cs : List Char) (h : '\\' ∉ cs) : unescape cs = cs := by
  induction cs with
  | nil => rfl
  | cons c cs ih =>
      rw [List.mem_cons, not_or] at h
      rw [unescape]
      · rw [ih h.2]
      · rintro rfl
        exact absurd rfl h.1
      · rintro d ds rfl
        exact absurd rfl h.1

/-- The text of a literal. Only where there is a backslash are escapes looked for. -/
def extract (raw : List Char) : List Char :=
  if '\\' ∈ inner raw then unescape (inner raw) else inner raw

theorem extract_eq_literalText (raw : List Char) : extract raw = literalText raw := by
  rw [extract, literalText]
  split
  · rfl
  · next h => rw [unescape_of_not_mem _ h]

end Text.Escape

namespace Lexeme

theorem inside_spell (c : Char) (cs : List Char) (h : Inside cs) :
    Inside (Text.Escape.spell c ++ cs) := by
  unfold Text.Escape.spell
  split
  · exact .escape _ cs h
  · exact .escape _ cs h
  · exact .escape _ cs h
  · exact .escape _ cs h
  · next hfeed hquote hbackslash => exact .plain c cs hquote hbackslash hfeed h

theorem text_of_ne (l : Lexeme) (h : l.kind ≠ .strLiteral) : l.text = l.raw := by
  unfold text
  split
  · next hkind => exact absurd hkind h
  · rfl

theorem inside_escape (cs : List Char) : Inside (Text.Escape.escape cs) := by
  induction cs with
  | nil => exact .nil
  | cons c cs ih =>
      rw [Text.Escape.escape_cons]
      exact inside_spell c _ ih

end Lexeme

namespace Item

open Lexeme

variable {rest : List Char}

/-- What follows an item: nothing, or a blank. -/
def Apart (rest : List Char) : Prop := ∀ b ∈ rest.head?, Text.isBlank b = true

theorem apart_nil : Apart [] := by simp [Apart]

theorem Apart.isWordPart (h : Apart rest) : ∀ b ∈ rest.head?, isWordPart b = false :=
  fun b hb => isWordPart_of_isBlank b (h b hb)

theorem extent_word (c : Char) (cs : List Char) (hstart : isWordStart c = true)
    (hparts : ∀ d ∈ cs, isWordPart d = true) (h : Apart rest) :
    extent c (cs ++ rest) = (wordKind (c :: cs), cs.length) := by
  have hend := runLength_eq_zero h.isWordPart
  have htake : rest.takeWhile isWordPart = [] := List.length_eq_zero_iff.mp hend
  rw [extent_of_isWordStart c _ hstart, word_eq, runLength_append hparts, hend,
    List.takeWhile_append_of_pos hparts, htake, List.append_nil, Nat.add_zero]

theorem extent_number (c : Char) (ds : List Char) (hc : Decimal.isDigit c = true)
    (hdigits : ∀ d ∈ ds, Decimal.isDigit d = true) (h : ∀ b ∈ rest.head?, isWordPart b = false) :
    extent c (ds ++ rest) = (.intLiteral, ds.length) := by
  have hparts : ∀ d ∈ ds, isWordPart d = true := fun d hd => isWordPart_of_isDigit d (hdigits d hd)
  have hend : ∀ b ∈ rest.head?, Decimal.isDigit b = false := by
    intro b hb
    rw [Bool.eq_false_iff]
    intro hdigit
    exact absurd (isWordPart_of_isDigit b hdigit) (by simp [h b hb])
  rw [extent_of_isDigit c _ hc, Lexeme.number, runLength_append hdigits, runLength_append hparts,
    runLength_eq_zero hend, runLength_eq_zero h, if_neg (Nat.lt_irrefl _), Nat.add_zero]

theorem extent_sign (c : Char) (ds : List Char) (kind : TokenKind) (hsign : (c :: ds, kind) ∈ signs)
    (h : Apart rest) : extent c (ds ++ rest) = (kind, ds.length) := by
  rcases endsOrGrows_sign c ds rest kind hsign with hends | ⟨-, b, hb, hblank⟩
  · exact hends
  · rw [h b hb] at hblank
    cases hblank

/-- Before a blank or the end, the extent of an item is its spelling. -/
theorem exists_extent (i : Item) (h : Apart rest) :
    ∃ c ds, i.spelling = c :: ds ∧ extent c (ds ++ rest) = (i.kind, ds.length) := by
  cases i with
  | keyword k =>
      obtain ⟨c, ds, hk, hstart, hparts⟩ := exists_word_of_keyword k
      refine ⟨c, ds, hk, ?_⟩
      rw [extent_word c ds hstart hparts h, ← hk, wordKind_spelling]
      rfl
  | identifier c cs hstart hparts hword =>
      refine ⟨c, cs, rfl, ?_⟩
      rw [extent_word c cs hstart hparts h, wordKind_of_ne _ hword]
      rfl
  | number ds hne hdigits =>
      obtain ⟨c, ds, rfl⟩ := List.exists_cons_of_ne_nil hne
      exact ⟨c, ds, rfl, extent_number c ds (hdigits c List.mem_cons_self)
        (fun d hd => hdigits d (List.mem_cons_of_mem c hd)) h.isWordPart⟩
  | sign raw kind hsign =>
      obtain ⟨c, ds, rfl⟩ := List.exists_cons_of_ne_nil (Matches.sign raw [] kind hsign).ne_nil
      exact ⟨c, ds, rfl, extent_sign c ds kind hsign h⟩
  | string s => exact ⟨'"', _, rfl, literal_of_stops (inside_escape s.toList) (.quote rest)⟩

theorem lexemes_spelling_append (i : Item) (h : Apart rest) :
    lexemes (i.spelling ++ rest) = i.lexeme :: lexemes rest := by
  obtain ⟨c, ds, hspelling, hextent⟩ := i.exists_extent h
  obtain ⟨hfirst, hrest⟩ := first_of_extent c ds rest i.kind hextent
  rw [hspelling, List.cons_append, lexemes_cons, hfirst, hrest, lexeme, hspelling]

theorem lexemes_blanks_append (g : Gap) (h : ∀ c ∈ rest.head?, Text.isBlank c = false) :
    lexemes (g.blanks ++ rest) = ⟨.whitespace, g.blanks⟩ :: lexemes rest := by
  rcases g with ⟨blanks, hne, hblank⟩
  obtain ⟨c, ds, rfl⟩ := List.exists_cons_of_ne_nil hne
  have hextent : extent c (ds ++ rest) = (.whitespace, ds.length) := by
    rw [extent_of_isBlank c _ (hblank c List.mem_cons_self),
      runLength_append fun d hd => hblank d (List.mem_cons_of_mem c hd), runLength_eq_zero h,
      Nat.add_zero]
  obtain ⟨hfirst, hrest⟩ := first_of_extent c ds rest _ hextent
  rw [List.cons_append, lexemes_cons, hfirst, hrest]

theorem isTrivia_kind (i : Item) : i.kind.isTrivia = false := by
  cases i with
  | sign raw kind hsign =>
      have hsigns : ∀ s ∈ signs, s.2.isTrivia = false := by decide
      exact hsigns (raw, kind) hsign
  | _ => rfl

/-- No item starts with a blank. -/
theorem isBlank_head (i : Item) : ∀ c ∈ (i.spelling ++ rest).head?, Text.isBlank c = false := by
  obtain ⟨c, ds, hspelling, hextent⟩ := i.exists_extent apart_nil
  intro c' hc'
  obtain rfl : c = c' := by simpa [hspelling] using hc'
  rw [Bool.eq_false_iff]
  intro hblank
  rw [extent_of_isBlank c _ hblank] at hextent
  have htrivia := i.isTrivia_kind
  rw [← (Prod.mk.inj hextent).1] at htrivia
  cases htrivia

/-- The lexemes of a text that are no trivia. -/
def found (cs : List Char) : List Lexeme := (lexemes cs).filter fun l => !l.kind.isTrivia

theorem found_spelling_append (i : Item) (h : Apart rest) :
    found (i.spelling ++ rest) = i.lexeme :: found rest := by
  rw [found, i.lexemes_spelling_append h,
    List.filter_cons_of_pos (by simp [lexeme, i.isTrivia_kind])]
  rfl

theorem found_blanks_append (bs : List Char) (hbs : ∀ b ∈ bs, Text.isBlank b = true)
    (h : ∀ c ∈ rest.head?, Text.isBlank c = false) : found (bs ++ rest) = found rest := by
  cases bs with
  | nil => rfl
  | cons b bs =>
      rw [found, lexemes_blanks_append ⟨b :: bs, List.cons_ne_nil b bs, hbs⟩ h,
        List.filter_cons_of_neg (by simp [TokenKind.isTrivia])]
      rfl

theorem found_blanks (bs : List Char) (hbs : ∀ b ∈ bs, Text.isBlank b = true) : found bs = [] := by
  have hfound : found (bs ++ []) = found [] := found_blanks_append bs hbs (by simp)
  rw [List.append_nil] at hfound
  rw [hfound, found, lexemes_nil, List.filter_nil]

theorem apart_of_blanks (bs : List Char) (hbs : ∀ b ∈ bs, Text.isBlank b = true) : Apart bs :=
  fun b hb => hbs b (List.mem_of_mem_head? hb)

theorem Apart.gap (g : Gap) : Apart (g.blanks ++ rest) := by
  intro b hb
  rw [List.head?_append_of_ne_nil _ g.ne_nil] at hb
  exact g.isBlank b (List.mem_of_mem_head? hb)

theorem exists_write_cons (gap : Nat → Gap) (i : Item) (is : List Item) :
    ∃ more, write gap (i :: is) = i.spelling ++ more := by
  cases is with
  | nil => exact ⟨[], (List.append_nil _).symm⟩
  | cons j is => exact ⟨_, rfl⟩

/-- No text of items starts with a blank. -/
theorem isBlank_head_write (gap : Nat → Gap) (i : Item) (is : List Item) (trail : List Char) :
    ∀ c ∈ (write gap (i :: is) ++ trail).head?, Text.isBlank c = false := by
  obtain ⟨more, hmore⟩ := exists_write_cons gap i is
  rw [hmore, List.append_assoc]
  exact i.isBlank_head

theorem found_write_append (gap : Nat → Gap) (items : List Item) (trail : List Char)
    (htrail : ∀ b ∈ trail, Text.isBlank b = true) :
    found (write gap items ++ trail) = items.map lexeme := by
  fun_induction write gap items with
  | case1 gap => exact found_blanks trail htrail
  | case2 gap i =>
      rw [i.found_spelling_append (apart_of_blanks trail htrail), found_blanks trail htrail]
      rfl
  | case3 gap i j is ih =>
      rw [List.append_assoc, List.append_assoc, i.found_spelling_append (Apart.gap (gap 0)),
        found_blanks_append _ (gap 0).isBlank (isBlank_head_write _ j is trail), ih]
      rfl

theorem isBlank_optional (g : Option Gap) : ∀ b ∈ Gap.optional g, Text.isBlank b = true := by
  cases g with
  | none => simp [Gap.optional]
  | some g => exact g.isBlank

/-- Items between blanks are found again, one for one. -/
theorem found_items (gap : Nat → Gap) (items : List Item) (lead trail : Option Gap) :
    found (Gap.optional lead ++ write gap items ++ Gap.optional trail) = items.map lexeme := by
  cases items with
  | nil =>
      refine found_blanks _ ?_
      intro b hb
      rw [write, List.append_nil] at hb
      rcases List.mem_append.mp hb with hb | hb
      · exact isBlank_optional lead b hb
      · exact isBlank_optional trail b hb
  | cons i is =>
      rw [List.append_assoc, found_blanks_append _ (isBlank_optional lead)
        (isBlank_head_write gap i is _), found_write_append gap _ _ (isBlank_optional trail)]

theorem inner_spelling (s : String) :
    Text.Escape.inner (Item.string s).spelling = Text.Escape.escape s.toList := by
  rw [Text.Escape.inner, spelling, List.tail_cons, List.dropLast_concat]

/-- The kind of an item and the text that it stands for. -/
def content (i : Item) : TokenKind × String := (i.kind, i.text)

theorem content_lexeme (i : Item) : i.lexeme.content = i.content := by
  refine congrArg (Prod.mk i.kind) ?_
  cases i with
  | string s =>
      have htext : (Item.string s).lexeme.text =
          Text.Escape.unescape (Text.Escape.inner (Item.string s).spelling) := rfl
      rw [htext, inner_spelling, Text.Escape.unescape_escape, String.ofList_toList]
      rfl
  | sign raw kind hsign =>
      have hsigns : ∀ s ∈ signs, s.2 ≠ .strLiteral := by decide
      rw [text_of_ne _ (hsigns (raw, kind) hsign)]
      rfl
  | _ => rfl

/-- A string written as a literal. -/
def quoted (s : String) : String := String.ofList (Item.string s).spelling

end Item

namespace TokenStream

theorem map_tokens_significant (source : String) :
    (ofSource source).significant.tokens.map Token.content =
      (Item.found source.toList).map Lexeme.content := by
  have hplace := congrArg (List.filter fun x => !x.1.isTrivia)
    (map_place .start (lexemes source.toList))
  rw [List.filter_map, List.filter_map] at hplace
  exact hplace

theorem map_significant (source : String) :
    (ofSource source).significant.toList.map Token.content =
      (Item.found source.toList).map Lexeme.content ++ [(.eof, "")] := by
  rw [toList, List.map_append, map_tokens_significant]
  rfl

/-- A written string is one literal, with nothing around it. -/
theorem map_quoted (s : String) :
    (ofSource (Item.quoted s)).toList.map Token.content = [(.strLiteral, s), (.eof, "")] := by
  have hlexemes := (Item.string s).lexemes_spelling_append Item.apart_nil
  rw [List.append_nil, lexemes_nil] at hlexemes
  have htokens := map_place .start (lexemes (Item.string s).spelling)
  rw [hlexemes, List.map_singleton, Item.content_lexeme] at htokens
  rw [toList, ofSource, ofText, Item.quoted, String.toList_ofList, hlexemes, List.map_append,
    tokens_ofTokens, htokens]
  rfl

/-- Items that are written with blanks between them are read as these items, and then the
text ends. So every string can be written. And whatever a literal of any text stands for,
be it with escapes or without, can be written and read again. -/
theorem ofSource_items :
    (∀ (gap : Nat → Gap) (items : List Item) (lead trail : Option Gap),
      (ofSource (String.ofList (Gap.optional lead ++ Item.write gap items ++
          Gap.optional trail))).significant.toList.map Token.content =
        items.map Item.content ++ [(.eof, "")]) ∧
      (∀ s, (ofSource (Item.quoted s)).toList.map Token.content =
        [(.strLiteral, s), (.eof, "")]) ∧
      ∀ source, ∀ t ∈ (ofSource source).tokens, t.kind = .strLiteral →
        (∃ l ∈ lexemes source.toList, l.kind = .strLiteral ∧
          t.text = String.ofList (Text.Escape.extract l.raw)) ∧
        (ofSource (Item.quoted t.text)).toList.map Token.content =
          [(.strLiteral, t.text), (.eof, "")] := by
  refine ⟨?_, map_quoted, ?_⟩
  · intro gap items lead trail
    rw [map_significant, String.toList_ofList, Item.found_items, List.map_map]
    have hcontent : items.map (Lexeme.content ∘ Item.lexeme) = items.map Item.content :=
      List.map_congr_left fun i _ => i.content_lexeme
    rw [hcontent]
  · intro source t ht hkind
    obtain ⟨l, hl, hlkind, htext⟩ := mem_place _ _ t ht
    refine ⟨⟨l, hl, hlkind ▸ hkind, ?_⟩, map_quoted t.text⟩
    rw [htext, Text.Escape.extract_eq_literalText, Lexeme.text, ← hlkind, hkind]

def oneBlank : Gap := ⟨[' '], by decide, List.all_eq_true.mp (by decide)⟩

/-- An assignment of a string with all that has to be escaped. -/
def assignmentItems : List Item :=
  [.identifier 'x' ['1'] (by decide) (List.all_eq_true.mp (by decide))
      (fun k => by cases k <;> decide),
    .sign [':', '='] .assign (by decide), .string "é\"\\\n\t", .sign [';'] .semicolon (by decide)]

/-- A literal with escapes that are not needed. -/
def overEscaped : String := "\"\\a\\t\\\n\""

theorem ofSource_items_assignmentItems :
    (ofSource (String.ofList (Gap.optional none ++ Item.write (fun _ => oneBlank) assignmentItems ++
          Gap.optional (some oneBlank)))).significant.toList.map Token.content =
        assignmentItems.map Item.content ++ [(.eof, "")] ∧
      ⟨.strLiteral, "a\t\n", .start⟩ ∈ (ofSource overEscaped).tokens ∧
      (ofSource (Item.quoted "a\t\n")).toList.map Token.content =
        [(.strLiteral, "a\t\n"), (.eof, "")] := by
  have hmem : ⟨.strLiteral, "a\t\n", .start⟩ ∈ (ofSource overEscaped).tokens := by decide +kernel
  exact ⟨ofSource_items.1 _ _ _ _, hmem, (ofSource_items.2.2 overEscaped _ hmem rfl).2⟩

end TokenStream

end StackLang
