import Mathlib.Data.List.Induction
import StackLang.Proofs.Token.Cursor
import StackLang.Proofs.Token.Scanner
import StackLang.Sequence

/-!
# Tokens and their places

The lexemes of a text tile it, and each token stands at the first character of its lexeme.
Positions are carried along while a text is cut, one character after the other; `behind`
says what they amount to without the cutting: the line counts the line feeds before a place,
the column the characters since the last of them. Every character moves the position
onward, and no lexeme is empty, so the positions of the tokens increase.

The lexemes are lists of characters. In bytes they are the slices of the text that a scanner
marks, one behind the other.
-/

namespace StackLang

namespace Position

/-- The position behind a text, counted off the text as a whole. -/
def behind (cs : List Char) : Position :=
  ⟨1 + cs.count '\n', 1 + (cs.reverse.takeWhile (· ≠ '\n')).length⟩

/-- An earlier line, or an earlier column of the same line. -/
def Precedes (p q : Position) : Prop := p.line < q.line ∨ p.line = q.line ∧ p.column < q.column

instance (p q : Position) : Decidable (p.Precedes q) :=
  inferInstanceAs (Decidable (p.line < q.line ∨ p.line = q.line ∧ p.column < q.column))

theorem Precedes.trans {p q r : Position} (h : p.Precedes q) (h' : q.Precedes r) :
    p.Precedes r := by
  unfold Precedes at *
  omega

theorem Precedes.ne {p q : Position} (h : p.Precedes q) : p ≠ q := by
  rintro rfl
  unfold Precedes at h
  omega

theorem behind_append_singleton (cs : List Char) (c : Char) :
    behind (cs ++ [c]) = (behind cs).advance c := by
  by_cases h : c = '\n' <;> simp [behind, advance, h, Nat.add_comm]

/-- Counting character by character and counting at once agree. -/
theorem after_start (cs : List Char) : start.after cs = behind cs := by
  induction cs using List.reverseRecOn with
  | nil => rfl
  | append_singleton cs c ih =>
      rw [after_append, ih, behind_append_singleton]
      rfl

theorem precedes_advance (p : Position) (c : Char) : p.Precedes (p.advance c) := by
  unfold advance Precedes
  split
  · exact .inl (Nat.lt_succ_self _)
  · exact .inr ⟨rfl, Nat.lt_succ_self _⟩

theorem precedes_after (p : Position) (cs : List Char) (h : cs ≠ []) : p.Precedes (p.after cs) := by
  induction cs generalizing p with
  | nil => exact absurd rfl h
  | cons c cs ih =>
      cases cs with
      | nil => exact p.precedes_advance c
      | cons d cs => exact (p.precedes_advance c).trans (ih (p.advance c) (List.cons_ne_nil d cs))

end Position

theorem raw_ne_nil_of_mem_lexemes (cs : List Char) (l : Lexeme) (h : l ∈ lexemes cs) :
    l.raw ≠ [] := by
  fun_induction lexemes cs with
  | case1 => simp at h
  | case2 c cs ih =>
      rcases List.mem_cons.mp h with rfl | h
      · exact List.cons_ne_nil _ _
      · exact ih h

/-- There are no more pieces than characters. -/
theorem length_le_of_raw_ne_nil (ls : List Lexeme) (h : ∀ l ∈ ls, l.raw ≠ []) :
    ls.length ≤ (ls.flatMap Lexeme.raw).length := by
  induction ls with
  | nil => exact Nat.le_refl 0
  | cons l ls ih =>
      have hfirst : 1 ≤ l.raw.length := List.length_pos_iff.mpr (h l List.mem_cons_self)
      have hrest := ih fun l' hl' => h l' (List.mem_cons_of_mem l hl')
      rw [List.flatMap_cons, List.length_append, List.length_cons]
      omega

theorem Sequence.upTo_append_cons {α : Type} (stop : α → Bool) (xs ys : List α) (x : α)
    (hxs : ∀ y ∈ xs, stop y = false) (hx : stop x = true) :
    upTo stop (xs ++ x :: ys) = xs ++ [x] := by
  induction xs with
  | nil => simp [upTo, hx]
  | cons z xs ih =>
      rw [List.cons_append, upTo_cons, hxs z List.mem_cons_self,
        ih fun y hy => hxs y (List.mem_cons_of_mem z hy)]
      rfl

namespace TokenStream

/-- The tokens of lexemes that start at `p`, with the end of the text behind them. -/
def laid (p : Position) (ls : List Lexeme) : List Token :=
  place p ls ++ [⟨.eof, "", p.after (ls.flatMap Lexeme.raw)⟩]

theorem laid_cons (p : Position) (l : Lexeme) (ls : List Lexeme) :
    laid p (l :: ls) = ⟨l.kind, String.ofList l.text, p⟩ :: laid (p.after l.raw) ls := by
  simp [laid, Position.after_append]

theorem toList_ofSource (source : String) :
    (ofSource source).toList = laid .start (lexemes source.toList) := by
  rw [laid, flatMap_raw_lexemes]
  rfl

@[simp] theorem length_place (p : Position) (ls : List Lexeme) :
    (place p ls).length = ls.length := by
  induction ls generalizing p with
  | nil => rfl
  | cons l ls ih => simp [ih]

/-- Nothing stands before the place where the first lexeme starts. -/
theorem not_before_of_mem_laid (p : Position) (ls : List Lexeme) (h : ∀ l ∈ ls, l.raw ≠ [])
    (t : Token) (ht : t ∈ laid p ls) : t.pos = p ∨ p.Precedes t.pos := by
  induction ls generalizing p with
  | nil => exact .inl (by simp_all [laid])
  | cons l ls ih =>
      rw [laid_cons] at ht
      rcases List.mem_cons.mp ht with rfl | ht
      · exact .inl rfl
      · have hfirst := p.precedes_after l.raw (h l List.mem_cons_self)
        rcases ih _ (fun l' hl' => h l' (List.mem_cons_of_mem l hl')) ht with hpos | hpos
        · exact .inr (hpos ▸ hfirst)
        · exact .inr (hfirst.trans hpos)

/-- Every token, the end of file too, stands behind a part of the text. -/
theorem exists_append_of_mem_laid (p : Position) (ls : List Lexeme) (t : Token)
    (ht : t ∈ laid p ls) :
    ∃ before after, ls.flatMap Lexeme.raw = before ++ after ∧ t.pos = p.after before := by
  induction ls generalizing p with
  | nil => exact ⟨[], [], rfl, by simp_all [laid]⟩
  | cons l ls ih =>
      rw [laid_cons] at ht
      rcases List.mem_cons.mp ht with rfl | ht
      · exact ⟨[], _, rfl, rfl⟩
      · obtain ⟨before, after, hsplit, hpos⟩ := ih _ ht
        refine ⟨l.raw ++ before, after, ?_, ?_⟩
        · rw [List.flatMap_cons, hsplit, List.append_assoc]
        · rw [hpos, Position.after_append]

theorem pairwise_laid (p : Position) (ls : List Lexeme) (h : ∀ l ∈ ls, l.raw ≠ []) :
    (laid p ls).Pairwise fun t u => t.pos.Precedes u.pos := by
  induction ls generalizing p with
  | nil => exact List.pairwise_singleton _ _
  | cons l ls ih =>
      have hls : ∀ l' ∈ ls, l'.raw ≠ [] := fun l' hl' => h l' (List.mem_cons_of_mem l hl')
      have hfirst := p.precedes_after l.raw (h l List.mem_cons_self)
      rw [laid_cons, List.pairwise_cons]
      refine ⟨?_, ih _ hls⟩
      intro t ht
      rcases not_before_of_mem_laid _ ls hls t ht with hpos | hpos
      · exact hpos ▸ hfirst
      · exact hfirst.trans hpos

/-- The positions of the tokens of a text increase. -/
theorem pairwise_ofSource (source : String) :
    (ofSource source).toList.Pairwise fun t u => t.pos.Precedes u.pos := by
  rw [toList_ofSource]
  exact pairwise_laid _ _ (raw_ne_nil_of_mem_lexemes _)

theorem nth_of_length_le (s : TokenStream) (i : Nat) (h : s.tokens.length ≤ i) :
    s.nth i = s.eof := by
  simp [nth, List.getElem?_eq_none h]

/-- The calls for one token after the other, cut behind the first end of file, give every
token once. -/
theorem upTo_take (s : TokenStream) (hs : ∀ t ∈ s.tokens, t.kind ≠ .eof) (n : Nat)
    (h : s.tokens.length < n) :
    Sequence.upTo (fun t => t.kind = .eof) (s.take n) = s.toList := by
  obtain ⟨m, rfl⟩ : ∃ m, n = s.tokens.length + (m + 1) := ⟨n - s.tokens.length - 1, by omega⟩
  have htokens : (List.range s.tokens.length).map s.nth = s.tokens := by
    refine List.ext_getElem (by simp) ?_
    intro i hi hi'
    simp [nth, hi']
  have htake : s.take (s.tokens.length + (m + 1)) =
      s.tokens ++ s.eof :: (List.range m).map fun i => s.nth (s.tokens.length + (i + 1)) := by
    rw [take, List.range_add, List.map_append, htokens, List.range_succ_eq_map]
    simp [nth_of_length_le, Function.comp_def]
  rw [htake, Sequence.upTo_append_cons]
  · rfl
  · simpa using hs
  · rfl

/-- The tokens of a text against the pieces `ls` of the text that they stand for. -/
structure Tiles (s : TokenStream) (source : String) (ls : List Lexeme) : Prop where
  /-- The pieces make up the text, and none of them is empty. -/
  pieces : ls.flatMap Lexeme.raw = source.toList
  piece_ne_nil : ∀ l ∈ ls, l.raw ≠ []
  /-- In bytes, each of them is the slice between the sizes of those before it, without it and
  with it. -/
  slices : ∀ i l, ls[i]? = some l →
    String.Pos.Raw.extract source ⟨Lexeme.bytes (ls.take i)⟩ ⟨Lexeme.bytes (ls.take (i + 1))⟩ =
      String.ofList l.raw
  /-- A token for each piece, at the place of its first character. -/
  token : ∀ i l, ls[i]? = some l → l.kind ≠ .eof ∧
    s.nth i = ⟨l.kind, String.ofList l.text, .behind ((ls.take i).flatMap Lexeme.raw)⟩
  /-- And from then on the end of file, with an empty piece at the end of the text. -/
  eof : ∀ i, ls.length ≤ i → s.nth i = ⟨.eof, "", .behind source.toList⟩
  /-- The tokens are finitely many, with one end of file, the last of them. -/
  finite : ls.length ≤ source.length
  ends : ∃ ts, s.toList = ts ++ [⟨.eof, "", .behind source.toList⟩] ∧ ts.length = ls.length ∧
    ∀ t ∈ ts, t.kind ≠ .eof
  /-- Asking for tokens until the end of file comes gives these tokens. -/
  calls : ∀ n, ls.length < n → Sequence.upTo (fun t => t.kind = .eof) (s.take n) = s.toList
  /-- So does asking a scanner, which has the slice of each token between its mark and its
  cursor. -/
  scanned : ∀ i, ((Scanner.new source).pulled i).next.1 = s.nth i ∧
    ((Scanner.new source).pulled i).next.2.low = Lexeme.bytes (ls.take i) ∧
      ((Scanner.new source).pulled i).next.2.cursor = Lexeme.bytes (ls.take (i + 1))
  increasing : s.toList.Pairwise fun t u => t.pos.Precedes u.pos
  /-- Lines and columns fit in 32 bits. -/
  fits : ∀ t ∈ s.toList, t.pos.line < 2 ^ 32 ∧ t.pos.column < 2 ^ 32

/-- The tokens of a text tile it and tell their true places. -/
theorem ofSource_tiles (source : String) (h : source.length < 2 ^ 32 - 1) :
    (ofSource source).Tiles source (lexemes source.toList) := by
  have hlength : (ofSource source).tokens.length = (lexemes source.toList).length :=
    length_place _ _
  have heof : (ofSource source).eof = ⟨.eof, "", .behind source.toList⟩ := by
    rw [← Position.after_start]
    rfl
  have hnonempty := raw_ne_nil_of_mem_lexemes source.toList
  exact
    { pieces := flatMap_raw_lexemes _
      piece_ne_nil := hnonempty
      slices := by
        intro i l hl
        have hslice := Lexeme.extract_bytes _ i l hl
        rwa [flatMap_raw_lexemes, String.ofList_toList] at hslice
      token := by
        intro i l hl
        have hspelled := spelled_of_mem_lexemes _ l (List.mem_of_getElem? hl)
        refine ⟨?_, ?_⟩
        · intro hkind
          rw [Lexeme.Spelled, hkind] at hspelled
          exact hspelled
        · rw [nth_ofSource, hl, Position.after_start]
          rfl
      eof := by
        intro i hi
        rw [nth_of_length_le _ i (hlength ▸ hi), heof]
      finite := by
        have hle := length_le_of_raw_ne_nil _ hnonempty
        rwa [flatMap_raw_lexemes, String.length_toList] at hle
      ends := ⟨(ofSource source).tokens, heof ▸ rfl, hlength, kind_ne_eof source⟩
      calls := fun n hn => upTo_take _ (kind_ne_eof source) n (hlength ▸ hn)
      scanned := fun i => ⟨Scanner.next_pulled source i, Scanner.bounds_pulled source i⟩
      increasing := pairwise_ofSource source
      fits := by
        intro t ht
        rw [toList_ofSource] at ht
        obtain ⟨before, after, hsplit, hpos⟩ := exists_append_of_mem_laid _ _ t ht
        rw [flatMap_raw_lexemes] at hsplit
        have hbefore : before.length ≤ source.length := by
          rw [← String.length_toList, hsplit, List.length_append]
          exact Nat.le_add_right _ _
        obtain ⟨hline, hcolumn⟩ := Position.start.after_le (Nat.le_refl 1) before
        have hstart : Position.start.line = 1 ∧ Position.start.column = 1 := ⟨rfl, rfl⟩
        rw [hpos]
        omega }

/-- A string across a line break, a comment, and a number that runs into a word. -/
def brokenLines : String := "x := \"é\\\n\"; // ü\n\t12ab\""

theorem ofSource_tiles_brokenLines :
    brokenLines.length < 2 ^ 32 - 1 ∧
      (ofSource brokenLines).Tiles brokenLines (lexemes brokenLines.toList) :=
  ⟨by decide, ofSource_tiles brokenLines (by decide)⟩

example : (ofSource brokenLines).toList.map Token.pos =
    [⟨1, 1⟩, ⟨1, 2⟩, ⟨1, 3⟩, ⟨1, 5⟩, ⟨1, 6⟩, ⟨2, 2⟩, ⟨2, 3⟩, ⟨2, 4⟩, ⟨2, 8⟩, ⟨3, 2⟩, ⟨3, 6⟩,
      ⟨3, 7⟩] := by
  decide +kernel

end TokenStream

end StackLang
