import StackLang.Proofs.Grammar.Weight
import StackLang.Proofs.Token.Scan

/-!
# Places in a text

Three bounds that the length of a text gives. The line and the column of a place are
bounded by it, and so is what its tokens pay for. And the place of a reader among all
tokens, blanks and comments included, is a place in the list: a cursor that steps over
trivia and stays at the end always has a token before it, the one that the grammar sees.
-/

namespace StackLang

theorem Position.after_le (p : Position) (hp : 1 ≤ p.column) (cs : List Char) :
    (p.after cs).line ≤ p.line + cs.length ∧ (p.after cs).column ≤ p.column + cs.length := by
  induction cs generalizing p with
  | nil => exact ⟨Nat.le_refl _, Nat.le_refl _⟩
  | cons c cs ih =>
      have hadvance : 1 ≤ (p.advance c).column ∧ (p.advance c).line ≤ p.line + 1 ∧
          (p.advance c).column ≤ p.column + 1 := by
        unfold advance
        split
        · exact ⟨Nat.le_refl _, Nat.le_refl _, Nat.le_add_left _ _⟩
        · exact ⟨Nat.le_add_left _ _, Nat.le_succ _, Nat.le_refl _⟩
      obtain ⟨hone, hline, hcolumn⟩ := hadvance
      obtain ⟨hlines, hcolumns⟩ := ih _ hone
      rw [after_cons, List.length_cons]
      omega

/-- A lexeme is long enough for what its token pays for. -/
theorem Lexeme.weight_le (l : Lexeme) (h : l.Spelled) : l.kind.weight ≤ l.raw.length := by
  rcases l with ⟨kind, raw⟩
  have hne (hraw : raw ≠ []) : 1 ≤ raw.length := List.length_pos_iff.mpr hraw
  cases kind with
  | keyword k =>
      obtain rfl : raw = k.spelling.toList := h
      cases k <;> decide
  | intLiteral => exact hne h.1
  | strLiteral =>
      obtain ⟨inner, rfl⟩ : ∃ inner, raw = '"' :: (inner ++ ['"']) := h
      exact hne (List.cons_ne_nil _ _)
  | comment =>
      obtain ⟨more, rfl⟩ : ∃ more, raw = '/' :: '/' :: more := h
      exact hne (List.cons_ne_nil _ _)
  | eof => exact absurd h id
  | _ => exact hne h

namespace TokenStream

theorem weight_place (p : Position) (ls : List Lexeme) (h : ∀ l ∈ ls, l.Spelled) :
    Token.weightAll (place p ls) ≤ (ls.flatMap Lexeme.raw).length := by
  induction ls generalizing p with
  | nil => exact Nat.le_refl _
  | cons l ls ih =>
      have hrest := ih (p.after l.raw) fun l' hl' => h l' (List.mem_cons_of_mem l hl')
      have hfirst := l.weight_le (h l List.mem_cons_self)
      rw [place_cons, Token.weightAll, List.flatMap_cons, List.length_append]
      exact Nat.add_le_add hfirst hrest

theorem weightAll_filter_le (p : Token → Bool) (ts : List Token) :
    Token.weightAll (ts.filter p) ≤ Token.weightAll ts := by
  induction ts with
  | nil => exact Nat.le_refl _
  | cons t ts ih =>
      by_cases ht : p t = true
      · rw [List.filter_cons_of_pos ht]
        exact Nat.add_le_add_left ih _
      · rw [List.filter_cons_of_neg ht]
        exact Nat.le_trans ih (Nat.le_add_left _ _)

theorem weight_ofSource_le (source : String) :
    (ofSource source).significant.weight ≤ source.length := by
  refine Nat.le_trans (weightAll_filter_le _ _) ?_
  have hplace := weight_place .start (lexemes source.toList) (spelled_of_mem_lexemes _)
  rwa [flatMap_raw_lexemes, String.length_toList] at hplace

section Cursor

/-- Steps over trivia. -/
def settle (ts : List Token) : List Token := ts.dropWhile fun t => t.kind.isTrivia

/-- Takes a token, unless it is the end, and steps over the trivia behind it. -/
def onward : List Token → List Token
  | [] => []
  | t :: ts => if t.kind = .eof then t :: ts else settle ts

/-- The tokens from the cursor on, after `n` tokens were taken. A cursor that has left the
list has none before it. -/
def cursor (s : TokenStream) : Nat → List Token
  | 0 => settle s.toList
  | n + 1 => onward (cursor s n)

theorem settle_suffix (ts : List Token) : settle ts <:+ ts := List.dropWhile_suffix _

theorem onward_suffix (ts : List Token) : onward ts <:+ ts := by
  cases ts with
  | nil => exact List.suffix_refl []
  | cons t ts =>
      rw [onward]
      split
      · exact List.suffix_refl _
      · exact (settle_suffix ts).trans (List.suffix_cons t ts)

theorem cursor_suffix (s : TokenStream) (n : Nat) : s.cursor n <:+ s.toList := by
  induction n with
  | zero => exact settle_suffix _
  | succ n ih => exact (onward_suffix _).trans ih

/-- A cursor at a token that is no trivia, with the significant tokens `us` before the
end. -/
structure Sees (ts us : List Token) (eof : Token) : Prop where
  filter_eq : ts.filter (fun t => !t.kind.isTrivia) = us ++ [eof]
  settled : settle ts = ts

theorem sees_settle (ts us : List Token) (eof : Token)
    (h : ts.filter (fun t => !t.kind.isTrivia) = us ++ [eof]) : Sees (settle ts) us eof := by
  induction ts with
  | nil => simp at h
  | cons t ts ih =>
      rw [settle, List.dropWhile_cons]
      by_cases htrivia : t.kind.isTrivia = true
      · rw [if_pos htrivia]
        exact ih (by simpa [htrivia] using h)
      · rw [if_neg htrivia]
        exact ⟨h, by rw [settle, List.dropWhile_cons, if_neg htrivia]⟩

theorem Sees.exists_cons {ts us : List Token} {eof : Token} (h : Sees ts us eof) :
    ∃ more, ts = us.headD eof :: more ∧
      (us.headD eof) :: more.filter (fun t => !t.kind.isTrivia) = us ++ [eof] := by
  cases ts with
  | nil =>
      have hnil := h.filter_eq
      simp at hnil
  | cons t more =>
      have htrivia : ¬ t.kind.isTrivia = true := by
        intro htrivia
        have hsettled := h.settled
        rw [settle, List.dropWhile_cons, if_pos htrivia] at hsettled
        have hlength := (settle_suffix more).length_le
        rw [settle, hsettled] at hlength
        exact absurd hlength (by simp)
      have hfilter := h.filter_eq
      rw [List.filter_cons_of_pos (by simpa using htrivia)] at hfilter
      obtain rfl : t = us.headD eof := by
        cases us with
        | nil => exact (List.cons.inj hfilter).1
        | cons u us => exact (List.cons.inj hfilter).1
      exact ⟨more, rfl, hfilter⟩

theorem Sees.onward {ts us : List Token} {eof : Token} (h : Sees ts us eof)
    (heof : eof.kind = .eof) (hus : ∀ u ∈ us, u.kind ≠ .eof) :
    Sees (onward ts) us.tail eof := by
  obtain ⟨more, rfl, hmore⟩ := h.exists_cons
  cases us with
  | nil =>
      rw [List.headD_nil, TokenStream.onward, if_pos heof]
      exact h
  | cons u us =>
      rw [List.headD_cons, TokenStream.onward, if_neg (hus u List.mem_cons_self)]
      exact sees_settle more us eof (List.cons.inj hmore).2

theorem sees_cursor (s : TokenStream) (hs : ∀ t ∈ s.tokens, t.kind ≠ .eof) (n : Nat) :
    Sees (s.cursor n) (s.significant.tokens.drop n) s.eof := by
  induction n with
  | zero =>
      refine sees_settle _ _ _ ?_
      rw [toList, List.filter_append]
      rfl
  | succ n ih =>
      rw [cursor, ← List.tail_drop]
      refine ih.onward rfl ?_
      intro t ht
      exact hs t (s.mem_tokens_of_mem_significant t (List.mem_of_mem_drop ht))

/-- However many tokens of a text were taken, the cursor is at the token that comes next
in the grammar. -/
theorem head?_cursor (source : String) (n : Nat) :
    ((ofSource source).cursor n).head? = some ((ofSource source).significant.nth n) := by
  obtain ⟨more, hcursor, -⟩ :=
    (sees_cursor (ofSource source) (kind_ne_eof source) n).exists_cons
  rw [hcursor, List.head?_cons, nth, List.headD_eq_head?_getD, List.head?_drop,
    List.getD_eq_getElem?_getD]
  rfl

end Cursor

end TokenStream

end StackLang
