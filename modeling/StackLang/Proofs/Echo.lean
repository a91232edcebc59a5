import StackLang.Proofs.Agreement
import StackLang.Proofs.Grammar.Parentheses
import StackLang.Proofs.Token.Spelling
import StackLang.Proofs.Truncation

/-!
# Integers come back as they were written

An integer literal is taken exactly if it is a numeral for an integer of 64 bits, and then
that integer is in the program. What printing writes for an integer is such a numeral, the
only one without anything that could be left out. So the text that prints the literal `n`
prints `n`. That holds of negative integers too, where the literal is read without its sign
and negated when the program runs. Only the least of all integers cannot be written like
that, since what stands behind its sign is out of range.
-/

namespace StackLang

open StackLang.Tree

namespace Item

open Lexeme

theorem found_of_extent (c : Char) (ds rest : List Char) (kind : TokenKind)
    (hkind : kind.isTrivia = false) (h : extent c (ds ++ rest) = (kind, ds.length)) :
    found (c :: (ds ++ rest)) = ⟨kind, c :: ds⟩ :: found rest := by
  obtain ⟨hfirst, hrest⟩ := first_of_extent c ds rest kind h
  rw [found, lexemes_cons, hfirst, hrest, List.filter_cons_of_pos (by simp [hkind])]
  rfl

theorem found_semicolon : found [';'] = [⟨.semicolon, [';']⟩] := by
  have hsign := found_of_extent ';' [] [] .semicolon rfl rfl
  rwa [found_blanks [] (List.forall_mem_nil _)] at hsign

/-- A number ends in front of a semicolon. -/
theorem found_number {ds : List Char} (h : Decimal.Digital ds) :
    found (ds ++ [';']) = [⟨.intLiteral, ds⟩, ⟨.semicolon, [';']⟩] := by
  obtain ⟨c, ds, rfl⟩ := List.exists_cons_of_ne_nil h.1
  have hextent : extent c (ds ++ [';']) = (.intLiteral, ds.length) :=
    extent_number c ds (h.2 c List.mem_cons_self) (fun d hd => h.2 d (List.mem_cons_of_mem c hd))
      (by simp; decide)
  rw [List.cons_append, found_of_extent c ds [';'] _ rfl hextent, found_semicolon]

theorem found_minus (rest : List Char) : found ('-' :: rest) = ⟨.minus, ['-']⟩ :: found rest :=
  found_of_extent '-' [] rest .minus rfl rfl

theorem found_print {rest : List Char} (h : ∀ c ∈ rest.head?, Text.isBlank c = false) :
    found ("print ".toList ++ rest) = ⟨.keyword .print, "print".toList⟩ :: found rest := by
  have hapart : Apart ([' '] ++ rest) := by
    intro b hb
    obtain rfl : ' ' = b := by simpa using hb
    decide
  have hprint := (Item.keyword .print).found_spelling_append hapart
  rw [found_blanks_append [' '] (List.all_eq_true.mp (by decide)) h] at hprint
  exact hprint

end Item

/-- The expression has one numeral, no name, and the value `v`. -/
structure Tree.Expression.Constant (e : Expression) (numeral : String) (v : Value) : Prop where
  depth_lt : e.depth < 256
  mentions_eq : e.mentions = [.numeral numeral]
  eval_eq : ∀ ρ, e.eval ρ = .ok v

namespace Program

/-- The program, with room for all that it prints, ends without a fault and has written the
text as its only line. -/
def PrintsLine (p : Program) (text : String) : Prop :=
  ∃ n, ((Machine.start p.store none).run p n).current? p = none ∧
    ((Machine.start p.store none).run p n).fault = none ∧
    ((Machine.start p.store none).run p n).sink.written = (text ++ "\n").toUTF8

/-- The text prints an expression of one numeral, which makes it a program that prints the
value of the expression. -/
theorem printsLine_of_constant (source : String) (pos : Position) (e : Expression)
    (hss : Statement.DerivesAll (TokenStream.ofSource source).significant.tokens [.print pos e])
    {numeral : String} (hread : Decimal.readInt64? numeral.toList ≠ none) {v : Value}
    (he : e.Constant numeral v) : ∃ p, ofSource source = .ok p ∧ p.PrintsLine v.text := by
  have hadmits : (Statement.mentionsAll [.print pos e]).foldlM Store.admit? Store.empty =
      some Store.empty := by
    simp [Statement.mentionsAll, Statement.mentions, he.mentions_eq, Store.admit?, hread]
  have hdepth : Statement.depthAll [.print pos e] ≤ 256 := by
    have hlt := he.depth_lt
    simp only [Statement.depthAll, Statement.depth]
    omega
  have hcompile := (Reading.compile_events_iff [.print pos e] _).mpr ⟨_, hadmits, rfl⟩
  rw [← Grammar.readSource_of_derivesAll source _ hss hdepth] at hcompile
  have hagrees := agrees_of_derivesAll source _ hcompile _ hss (fun _ => v) none
  obtain ⟨n, hrun⟩ := hagrees.finishes
    ⟨fun _ => v, (⟨none, .empty⟩ : Sink).write (v.text ++ "\n").toUTF8⟩
    ⟨0, by simp [Statement.outcome, Statement.execAll, Statement.exec, he.eval_eq,
      Outcome.ofResult, State.print, Sink.fits, Outcome.andThen]⟩
  -- There are no variables, so it makes no difference which values they have.
  have hstore : Store.empty.holding (fun _ => v) = Store.empty := by
    simp [Store.holding, Store.empty]
  rw [hstore] at hrun
  refine ⟨_, hcompile, n, ?_⟩
  rw [hrun]
  exact ⟨Machine.current?_poised_size _ _, rfl, ByteArray.empty_append⟩

/-- What stands between the keyword and the semicolon has to be an expression. -/
theorem exists_derivesAll_print {ts : List Token} {xs : List (TokenKind × String)}
    (hts : ts.map Token.content = (.keyword .print, "print") :: (xs ++ [(.semicolon, ";")]))
    {P : Expression → Prop}
    (hxs : ∀ us : List Token, us.map Token.content = xs → ∃ e : Expression, e.Derives 0 us ∧ P e) :
    ∃ pos e, Statement.DerivesAll ts [.print pos e] ∧ P e := by
  obtain ⟨t, rest, rfl, ht, hrest⟩ := List.map_eq_cons_iff.mp hts
  obtain ⟨us, semis, rfl, hus, hsemis⟩ := List.map_eq_append_iff.mp hrest
  obtain ⟨semi, rfl, hsemi⟩ := List.map_eq_singleton_iff.mp hsemis
  obtain ⟨e, he, hP⟩ := hxs us hus
  have hderives := Statement.Derives.print t semi (Prod.mk.inj ht).1 (Prod.mk.inj hsemi).1 he
  refine ⟨t.pos, e, ?_, hP⟩
  rw [← List.append_nil (t :: (us ++ [semi]))]
  exact .cons hderives .nil

theorem exists_printsLine (body : String) (ls : List Lexeme) (numeral : String)
    (hhead : ∀ c ∈ (body.toList ++ [';']).head?, Text.isBlank c = false)
    (hfound : Item.found (body.toList ++ [';']) = ls ++ [⟨.semicolon, [';']⟩])
    (hread : Decimal.readInt64? numeral.toList ≠ none) {v : Value}
    (hls : ∀ us : List Token, us.map Token.content = ls.map Lexeme.content →
      ∃ e : Expression, e.Derives 0 us ∧ e.Constant numeral v) :
    ∃ p, ofSource ("print " ++ body ++ ";") = .ok p ∧ p.PrintsLine v.text := by
  have htext : ("print " ++ body ++ ";").toList = "print ".toList ++ (body.toList ++ [';']) := by
    rw [String.toList_append, String.toList_append, List.append_assoc]
    rfl
  have htokens := TokenStream.map_tokens_significant ("print " ++ body ++ ";")
  rw [htext, Item.found_print hhead, hfound, List.map_cons, List.map_append] at htokens
  obtain ⟨pos, e, hss, he⟩ := exists_derivesAll_print htokens hls
  exact printsLine_of_constant _ pos e hss hread he

section Sources

variable {text : String}

theorem derives_numeral {t : Token}
    (ht : t.content = (⟨.intLiteral, text.toList⟩ : Lexeme).content) :
    (Expression.integer ⟨t.pos, text⟩).Derives 5 [t] := by
  obtain ⟨hkind, htext⟩ := Prod.mk.inj ht
  have hderives := Expression.Derives.integer t hkind
  rw [htext] at hderives
  rwa [Lexeme.text, String.ofList_toList] at hderives

variable (htext : Decimal.IsNumeral text) {n : Int64}
  (hread : Decimal.readInt64? text.toList = some n)
include htext hread

theorem constant_integer (pos : Position) :
    (Expression.integer ⟨pos, text⟩).Constant text (.integer n) := by
  refine ⟨by simp [Expression.depth], rfl, fun ρ => ?_⟩
  rw [Decimal.readInt64?_of_isNumeral htext] at hread
  split at hread
  · rw [Expression.eval, Value.wrapped, Option.some.inj hread]
  · cases hread

theorem constant_negate (pos pos' : Position) :
    (Expression.unary ⟨pos, .negate⟩ (.integer ⟨pos', text⟩)).Constant text
      (.wrapped (-n.toInt)) := by
  refine ⟨by simp [Expression.depth], rfl, fun ρ => ?_⟩
  have heval := (constant_integer htext hread pos').eval_eq ρ
  rw [Expression.eval, heval]
  rfl

/-- A text that prints a literal prints its value, without needless zeros. -/
theorem printsLine_numeral :
    ∃ p, ofSource ("print " ++ text ++ ";") = .ok p ∧ p.PrintsLine (Value.integer n).text := by
  refine exists_printsLine text [⟨.intLiteral, text.toList⟩] text
    (Item.number text.toList htext.1 htext.2).isBlank_head (Item.found_number htext)
    (by simp [hread]) fun us hus => ?_
  obtain ⟨t, rfl, ht⟩ := List.map_eq_singleton_iff.mp hus
  exact ⟨_, (derives_numeral ht).loosen (Nat.zero_le 5), constant_integer htext hread t.pos⟩

/-- With a sign in front of the literal, the text prints the value with the other sign. -/
theorem printsLine_negated :
    ∃ p, ofSource ("print " ++ ("-" ++ text) ++ ";") = .ok p ∧
      p.PrintsLine (Value.wrapped (-n.toInt)).text := by
  have hbody : ("-" ++ text).toList ++ [';'] = '-' :: (text.toList ++ [';']) := by
    rw [String.toList_append]
    rfl
  refine exists_printsLine ("-" ++ text) [⟨.minus, ['-']⟩, ⟨.intLiteral, text.toList⟩] text ?_ ?_
    (by simp [hread]) fun us hus => ?_
  · rw [hbody]
    exact (Item.sign ['-'] .minus (by decide)).isBlank_head
  · rw [hbody, Item.found_minus, Item.found_number htext]
    rfl
  · obtain ⟨sign, rest, rfl, hsign, hrest⟩ := List.map_eq_cons_iff.mp hus
    obtain ⟨t, rfl, ht⟩ := List.map_eq_singleton_iff.mp hrest
    have hminus : sign.kind = .minus := (Prod.mk.inj hsign).1
    have hderives := Expression.Derives.unary .negate sign hminus (derives_numeral ht)
    exact ⟨_, hderives.loosen (Nat.zero_le 5), constant_negate htext hread sign.pos t.pos⟩

end Sources

/-- A text that prints an integer in the way that it is printed prints it back. -/
theorem printsLine_integer (n : Int64) (hn : n ≠ Int64.minValue) :
    ∃ p, ofSource ("print " ++ (Value.integer n).text ++ ";") = .ok p ∧
      p.PrintsLine (Value.integer n).text := by
  cases hsign : n.toInt with
  | ofNat k =>
      have hnumeral : Decimal.IsNumeral (Value.integer n).text := by
        rw [Value.text, hsign]
        exact Decimal.isNumeral_ofNat k
      exact printsLine_numeral hnumeral (Decimal.readInt64?_ofInt n)
  | negSucc k =>
      -- Only the least integer has no counterpart with the other sign.
      have hrange : -2 ^ 63 ≤ ((k + 1 : Nat) : Int) ∧ ((k + 1 : Nat) : Int) ≤ 2 ^ 63 - 1 := by
        have hmin : Int64.minValue.toInt = -2 ^ 63 := rfl
        have hle : -2 ^ 63 ≤ n.toInt := n.minValue_le_toInt
        have hne : n.toInt ≠ Int64.minValue.toInt := fun h => hn (Int64.toInt_inj.mp h)
        omega
      obtain ⟨m, hm⟩ := Decimal.exists_toInt_iff.mpr hrange
      have hread : Decimal.readInt64? (Decimal.ofNat (k + 1)).toList = some m := by
        rw [Decimal.readInt64?_eq_some_iff, hm]
        exact Decimal.denotes_ofInt (k + 1 : Nat)
      have hprints := printsLine_negated (Decimal.isNumeral_ofNat (k + 1)) hread
      have hback : Value.wrapped (-m.toInt) = .integer n := by
        have hneg : -m.toInt = n.toInt := by
          rw [hm, hsign]
          rfl
        rw [Value.wrapped, hneg, Int64.ofInt_toInt]
      have htext : (Value.integer n).text = "-" ++ Decimal.ofNat (k + 1) := by
        rw [Value.text, hsign, Decimal.ofInt]
      rwa [hback, ← htext] at hprints

theorem text_least : (Value.integer Int64.minValue).text = "-9223372036854775808" := by
  have hread : Decimal.readInt64? "-9223372036854775808".toList = some Int64.minValue := by
    decide +kernel
  have hterse : Decimal.Terse "9223372036854775808".toList :=
    ⟨⟨by decide, List.all_eq_true.mp (by decide)⟩, by decide⟩
  have hdenotes := Decimal.readInt64?_eq_some_iff.mp hread
  exact String.toList_inj.mp
    (Decimal.ofInt_of_canonical (.inr ⟨_, rfl, hterse, by decide⟩) hdenotes)

/-- Behind the sign of the least integer stands a literal that is out of range. -/
theorem ofSource_least (p : Program) :
    ofSource ("print " ++ (Value.integer Int64.minValue).text ++ ";") ≠ .ok p := by
  rw [text_least]
  intro hok
  have herror : (ofSource ("print " ++ "-9223372036854775808" ++ ";")).isOk = false := by
    decide +kernel
  rw [hok] at herror
  cases herror

end Program

namespace Draft

/-- What taking the literal `text` at the position `pos` comes to. -/
structure ReadsInteger (d : Draft) (pos : Position) (text : String) : Prop where
  accepted_iff : (∃ d', d.apply ⟨pos, .integer text⟩ = .ok d') ↔
    ∃ z, Decimal.Denotes text.toList z ∧ -2 ^ 63 ≤ z ∧ z ≤ 2 ^ 63 - 1
  appended : ∀ z, Decimal.Denotes text.toList z → -2 ^ 63 ≤ z → z ≤ 2 ^ 63 - 1 →
    ∃ n : Int64, n.toInt = z ∧
      d.apply ⟨pos, .integer text⟩ = .ok (d.emit pos (.constant (.integer n)))
  refused : (¬ ∃ z, Decimal.Denotes text.toList z ∧ -2 ^ 63 ≤ z ∧ z ≤ 2 ^ 63 - 1) →
    d.apply ⟨pos, .integer text⟩ = .error ⟨pos, .invalidInteger text⟩ ∧
      d.absorb ⟨pos, .integer text⟩ = d
  /-- It comes to the same when no number on the way may have more than 64 bits. -/
  accumulated : d.apply ⟨pos, .integer text⟩ =
    match Decimal.scan? text.toList with
    | some n => .ok (d.emit pos (.constant (.integer n)))
    | none => .error ⟨pos, .invalidInteger text⟩

variable (d : Draft) (pos : Position) (text : String)

theorem apply_integer :
    d.apply ⟨pos, .integer text⟩ =
      match Decimal.readInt64? text.toList with
      | some n => .ok (d.emit pos (.constant (.integer n)))
      | none => .error ⟨pos, .invalidInteger text⟩ := by
  simp only [apply, take, integer]
  cases Decimal.readInt64? text.toList <;> rfl

theorem apply_integer_of_denotes {n : Int64} (h : Decimal.Denotes text.toList n.toInt) :
    d.apply ⟨pos, .integer text⟩ = .ok (d.emit pos (.constant (.integer n))) := by
  rw [apply_integer, Decimal.readInt64?_eq_some_iff.mpr h]

theorem readsInteger : d.ReadsInteger pos text where
  accepted_iff := by
    rw [apply_integer, ← Decimal.exists_readInt64?_iff]
    cases Decimal.readInt64? text.toList <;> simp
  appended z hz hmin hmax := by
    obtain ⟨n, rfl⟩ := Decimal.exists_toInt_iff.mpr ⟨hmin, hmax⟩
    exact ⟨n, rfl, d.apply_integer_of_denotes pos text hz⟩
  refused h := by
    rw [← Decimal.exists_readInt64?_iff, ← Option.isSome_iff_exists, Option.not_isSome_iff_eq_none]
      at h
    have happly : d.apply ⟨pos, .integer text⟩ = .error ⟨pos, .invalidInteger text⟩ := by
      rw [apply_integer, h]
    exact ⟨happly, by rw [absorb, happly]⟩
  accumulated := by rw [Decimal.scan?_eq_readInt64?, apply_integer]

end Draft

/-- How the integer `n` is printed and read again. -/
structure Echoes (n : Int64) : Prop where
  printed : ∀ (p : Program) (m : Machine) (pos : Position) (rest : Stack),
    m.current? p = some ⟨pos, .print⟩ → m.stack = .value (.integer n) :: rest →
    m.sink.limit = none →
    (m.step p).sink.written = m.sink.written ++ ((Value.integer n).text ++ "\n").toUTF8
  readBack : ∀ (d : Draft) (pos : Position),
    d.apply ⟨pos, .integer (Value.integer n).text⟩ = .ok (d.emit pos (.constant (.integer n)))
  /-- What is printed is the one numeral for `n` without anything that could be left out. -/
  canonical_iff : ∀ text : String,
    Decimal.Canonical text.toList ∧ Decimal.Denotes text.toList n.toInt ↔
      text = (Value.integer n).text
  /-- Of all integers, only the least cannot be printed by a text like this. -/
  echoed_iff : (∃ p, Program.ofSource ("print " ++ (Value.integer n).text ++ ";") = .ok p ∧
    p.PrintsLine (Value.integer n).text) ↔ n ≠ Int64.minValue

/-- Literals are read as the integers that they stand for, and printed integers are literals
for the same integers. Those that are not negative are printed back as they stand in a text,
and so are all the others but one. -/
theorem integers_read_back :
    (∀ (d : Draft) (pos : Position) (text : String), d.ReadsInteger pos text) ∧
      ∀ n : Int64, Echoes n := by
  refine ⟨Draft.readsInteger, fun n => ⟨?_, ?_, ?_, ?_, Program.printsLine_integer n⟩⟩
  · intro p m pos rest hcurrent hstack hlimit
    rw [Machine.step_print_of_value hcurrent hstack, Machine.printed_unlimited hlimit]
  · exact fun d pos => d.apply_integer_of_denotes pos _ (Decimal.denotes_ofInt n.toInt)
  · intro text
    constructor
    · exact fun ⟨hcanonical, hdenotes⟩ =>
        (String.toList_inj.mp (Decimal.ofInt_of_canonical hcanonical hdenotes)).symm
    · rintro rfl
      exact ⟨Decimal.canonical_ofInt n.toInt, Decimal.denotes_ofInt n.toInt⟩
  · rintro ⟨p, hok, -⟩ rfl
    exact Program.ofSource_least p hok

theorem integers_read_back_seven :
    (∃ n : Int64, n.toInt = 7 ∧ Draft.empty.apply ⟨.start, .integer "+007"⟩ =
      .ok (Draft.empty.emit .start (.constant (.integer n)))) ∧
    Draft.empty.apply ⟨.start, .integer "9223372036854775808"⟩ =
      .error ⟨.start, .invalidInteger "9223372036854775808"⟩ ∧
    ∃ p, Program.ofSource ("print " ++ (Value.integer 7).text ++ ";") = .ok p ∧
      p.PrintsLine (Value.integer 7).text := by
  have hseven : Decimal.Denotes "+007".toList 7 :=
    .plus ['0', '0', '7'] ⟨by decide, List.all_eq_true.mp (by decide)⟩
  have hread : Decimal.readInt64? "9223372036854775808".toList = none := by decide +kernel
  refine ⟨?_, ?_, ?_⟩
  · exact (integers_read_back.1 _ _ _).appended 7 hseven (by decide) (by decide)
  · refine ((integers_read_back.1 _ _ _).refused ?_).1
    rw [← Decimal.exists_readInt64?_iff, hread]
    simp
  · exact (integers_read_back.2 7).echoed_iff.mpr (by decide)

example : ["-9223372036854775808", "+009", "9223372036854775808", "-", "+-1"].map
    (fun text => Decimal.scan? text.toList) = [some Int64.minValue, some 9, none, none, none] := by
  decide +kernel

end StackLang
