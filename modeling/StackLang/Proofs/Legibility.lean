import StackLang.Proofs.Acceptance
import StackLang.Proofs.Draft.Jumps
import StackLang.Proofs.Draft.Layout
import StackLang.Proofs.Draft.Likeness
import StackLang.Proofs.Listing.Line
import StackLang.Proofs.Listing.Targets
import StackLang.Proofs.Token.LongestMatch

/-!
# Listings can be read

The listing of a program that comes from a text says everything about the program but the
positions. Its lines give the columns of each instruction. The declarations among them give
the variables in order, and a name in the operand column then stands for one variable. What
the columns leave open is which variables are assigned; that follows from the operations
around them.

All this holds as long as a line feed ends a line, so as long as none is in a string.
-/

namespace StackLang

open StackLang.Tree

namespace Lexeme

/-- Identifiers are words. -/
theorem Matches.word {kind : TokenKind} {raw rest : List Char} (h : Matches kind raw rest)
    (hkind : kind = .identifier) : ∀ c ∈ raw, isWordPart c = true := by
  subst hkind
  cases h with
  | sign _ _ _ h => simp [signs] at h
  | identifier c cs _ hstart hparts _ =>
      exact List.forall_mem_cons.mpr ⟨isWordPart_of_isWordStart c hstart, hparts⟩
  | literal _ _ _ _ _ hstop => cases hstop

theorem Greedy.word {cs : List Char} {ls : List Lexeme} (h : Greedy cs ls) (l : Lexeme)
    (hl : l ∈ ls) (hkind : l.kind = .identifier) : ∀ c ∈ l.raw, isWordPart c = true := by
  induction h with
  | nil => simp at hl
  | cons l' rest ls hleads _ ih =>
      rcases List.mem_cons.mp hl with rfl | hl
      · cases hleads with
        | longest _ _ hmatches _ => exact hmatches.word hkind
        | unexpected c => cases hkind
      · exact ih hl

end Lexeme

theorem TokenStream.word_of_identifier (source : String) (t : Token)
    (h : t ∈ (ofSource source).tokens) (hkind : t.kind = .identifier) :
    ∀ c ∈ t.text.toList, isWordPart c = true := by
  obtain ⟨l, hl, hlkind, htext⟩ := mem_place _ _ t h
  rw [hkind] at hlkind
  rw [htext, String.toList_ofList, Lexeme.text, ← hlkind]
  exact (Lexeme.greedy_lexemes _).word l hl hlkind.symm

namespace Tree

theorem Expression.declares_notMem_mentions (e : Expression) (kind : VariableKind)
    (name : String) : Mention.declares kind name ∉ e.mentions := by
  induction e with
  | read | integer | string => simp [mentions]
  | group inner ih => exact ih
  | unary op operand ih => exact ih
  | binary op left right ihl ihr => simpa [mentions] using ⟨ihl, ihr⟩

namespace Statement

mutual

/-- The name that is declared is an identifier of the text. -/
theorem Derives.declared {ts : List Token} {s : Statement} (kind : VariableKind)
    (name : String) : Derives ts s → .declares kind name ∈ s.mentions →
    ∃ t ∈ ts, t.kind = .identifier ∧ t.text = name
  | .declare _ k t semi _ hname _, h => by
      obtain ⟨-, rfl⟩ := by simpa [mentions] using h
      exact ⟨t, by simp, hname, rfl⟩
  | .declareLong _ d k t semi _ _ hname _, h => by
      obtain ⟨-, rfl⟩ := by simpa [mentions] using h
      exact ⟨t, by simp, hname, rfl⟩
  | .assign .., h => by
      simp [mentions, Expression.declares_notMem_mentions] at h
  | .print .., h => by
      simp [mentions, Expression.declares_notMem_mentions] at h
  | .branch _ _ _ _ _ _ _ hbody, h => by
      simp only [mentions, List.mem_append, Expression.declares_notMem_mentions, false_or] at h
      obtain ⟨t, ht, hword⟩ := hbody.declared kind name h
      exact ⟨t, by simp [ht], hword⟩
  | .choice _ _ _ _ _ _ _ _ _ hbody hother, h => by
      simp only [mentions, List.mem_append, Expression.declares_notMem_mentions, false_or] at h
      rcases h with h | h
      · obtain ⟨t, ht, hword⟩ := hbody.declared kind name h
        exact ⟨t, by simp [ht], hword⟩
      · obtain ⟨t, ht, hword⟩ := hother.declared kind name h
        exact ⟨t, by simp [ht], hword⟩
  | .loop _ _ _ _ _ _ _ hbody, h => by
      simp only [mentions, List.mem_append, Expression.declares_notMem_mentions, false_or] at h
      obtain ⟨t, ht, hword⟩ := hbody.declared kind name h
      exact ⟨t, by simp [ht], hword⟩

theorem DerivesAll.declared {ts : List Token} {ss : List Statement} (kind : VariableKind)
    (name : String) : DerivesAll ts ss → .declares kind name ∈ mentionsAll ss →
    ∃ t ∈ ts, t.kind = .identifier ∧ t.text = name
  | .nil, h => by simp [mentionsAll] at h
  | .cons first rest, h => by
      rw [mentionsAll, List.mem_append] at h
      rcases h with h | h
      · obtain ⟨t, ht, hword⟩ := first.declared kind name h
        exact ⟨t, List.mem_append_left _ ht, hword⟩
      · obtain ⟨t, ht, hword⟩ := rest.declared kind name h
        exact ⟨t, List.mem_append_right _ ht, hword⟩

end

end Statement

end Tree

namespace Store

/-- The store with the given variables, none of them assigned yet. -/
def ofDeclarations (ds : List (String × VariableKind)) : Store :=
  ds.foldl (fun σ d => σ.add d.1 d.2) empty

theorem eq_foldl_add_of_foldlM (σ τ : Store) (ms : List Mention)
    (h : ms.foldlM admit? σ = some τ) :
    τ = (ms.filterMap Mention.declaration?).foldl (fun σ d => σ.add d.1 d.2) σ := by
  induction ms generalizing σ with
  | nil => exact (Option.some.inj h).symm
  | cons m ms ih =>
      rw [List.foldlM_cons] at h
      obtain ⟨υ, hυ, hrest⟩ := Option.bind_eq_some_iff.mp h
      rw [ih υ hrest]
      rcases σ.admit?_cases υ m hυ with ⟨kind, name, rfl, -, rfl⟩ | ⟨name, rfl, -, rfl⟩ |
        ⟨text, rfl, -, rfl⟩ <;> rfl

theorem mem_of_mem_declarations {σ : Store} {name : String} {kind : VariableKind}
    (h : (name, kind) ∈ σ.declarations) :
    ∃ x, ∃ v, σ.get? x = some v ∧ v.name = name ∧ v.kind = kind := by
  obtain ⟨v, hv, heq⟩ := List.mem_map.mp h
  obtain ⟨x, hx⟩ := List.mem_iff_getElem?.mp hv
  obtain ⟨rfl, rfl⟩ := Prod.mk.inj heq
  exact ⟨x, v, (σ.get?_eq_getElem? x).trans hx, rfl, rfl⟩

theorem Distinct.indexOf_name {σ : Store} (h : σ.Distinct) {x : Nat} {v : Variable}
    (hv : σ.get? x = some v) : σ.indexOf v.name = x := by
  rw [indexOf, h.find?_name hv]
  rfl

end Store

def Kind.variableKind? : Kind → Option VariableKind
  | .integer => some .integer
  | .string => some .string
  | .void | .boolean => none

@[simp] theorem VariableKind.variableKind?_toKind (k : VariableKind) :
    k.toKind.variableKind? = some k := by
  cases k <;> rfl

namespace Columns

/-- The variable that is declared in a line. -/
def declaration? (c : Columns) : Option (String × VariableKind) :=
  if c.mnemonic = "decl" then c.kind.variableKind?.map fun k => (c.operand, k) else none

/-- The value of a constant in a line. -/
def value (c : Columns) : Value :=
  match c.kind with
  | .integer => .integer ((Decimal.readInt64? c.operand.toList).getD 0)
  | .string => .string (String.ofList c.operand.toList.tail.dropLast)
  | .void | .boolean => .boolean (c.operand = Value.booleanText true)

/-- The operation in a line, as far as it can be told from the line. -/
def operation (σ : Store) (c : Columns) : Operation :=
  match c.mnemonic with
  | "decl" => .declare (c.kind.variableKind?.getD .integer) (σ.indexOf c.operand)
  | "var" => .target (σ.indexOf c.operand)
  | ":=" => .assign
  | "print" => .print
  | "if" => .branch (Decimal.readNat? c.operand.toList)
  | "else" => .otherwise
  | "while" => .loop (Decimal.readNat? c.operand.toList)
  | "goto" => .jump (Decimal.readNat? c.operand.toList)
  | "end" => .close
  | "cte" => .constant c.value
  | symbol => .operator ((Operator.ofSymbol? symbol).getD .add)

end Columns

namespace Operation

/-- Where a variable is named, its kind and name are listed. -/
theorem columns_of_var? {σ : Store} {op : Operation} {x : Nat} {v : Variable}
    (hx : op.var? = some x) (hv : σ.get? x = some v) :
    op.columns σ = ⟨v.kind.toKind, op.mnemonic, v.name⟩ := by
  simp [columns, Program.listedKind, Program.named?, hx, hv, operandText_of_var? σ hx]

/-- A variable is declared with the kind that it has. -/
theorem Named.kind_eq {σ : Store} {k : VariableKind} {x : Nat} (h : (declare k x).Named σ) :
    ∃ v, σ.get? x = some v ∧ v.kind = k := by
  obtain ⟨v, hv, hkind⟩ := h x rfl
  have hne : (declare k x).kind ≠ .void := by cases k <;> simp [kind, VariableKind.toKind]
  exact ⟨v, hv, (VariableKind.toKind_injective _ _ (hkind.resolve_left hne)).symm⟩

theorem value_columns (σ : Store) : ∀ v : Value, ((constant v).columns σ).value = v
  | .integer n => by
      change Value.integer ((Decimal.readInt64? (Decimal.ofInt n.toInt).toList).getD 0) = _
      rw [Decimal.readInt64?_ofInt, Option.getD_some]
  | .string s => by
      have hs : (constant (.string s)).string? = some s := rfl
      change Value.string (String.ofList (Program.operandText σ _).toList.tail.dropLast) = _
      rw [operandText_of_string? σ hs, List.tail_cons, List.dropLast_concat, String.ofList_toList]
  | .boolean b => by
      cases b <;> rfl

/-- A line tells the operation, but for the purpose of a variable. -/
theorem operation_columns {σ : Store} (hσ : σ.Distinct) {op : Operation} (h : op.Named σ) :
    (op.columns σ).operation σ = op.blur := by
  cases op with
  | declare k x =>
      obtain ⟨v, hv, rfl⟩ := h.kind_eq
      have hkind : v.kind.toKind.variableKind?.getD .integer = v.kind := by simp
      rw [columns_of_var? rfl hv]
      exact congrArg₂ declare hkind (hσ.indexOf_name hv)
  | target x | read k x =>
      obtain ⟨v, hv, -⟩ := h x rfl
      rw [columns_of_var? rfl hv]
      exact congrArg target (hσ.indexOf_name hv)
  | branch t | loop t | jump t =>
      cases t with
      | none => rfl
      | some t =>
          simp [Columns.operation, columns, mnemonic, Program.operandText, Program.named?, var?,
            target?, blur, Decimal.readNat?_ofNat]
  | constant v => exact congrArg constant (value_columns σ v)
  | operator op => cases op <;> rfl
  | assign | print | otherwise | close => rfl

theorem declaration?_columns_declare {σ : Store} (hσ : σ.Distinct) {kind : VariableKind}
    {name : String} (h : (name, kind) ∈ σ.declarations) :
    ((declare kind (σ.indexOf name)).columns σ).declaration? = some (name, kind) := by
  obtain ⟨x, v, hv, rfl, rfl⟩ := Store.mem_of_mem_declarations h
  rw [hσ.indexOf_name hv, columns_of_var? rfl hv, Columns.declaration?]
  simp [mnemonic]

theorem declaration?_columns_of_ne (σ : Store) {op : Operation}
    (h : ∀ kind x, op ≠ .declare kind x) : (op.columns σ).declaration? = none := by
  have hne : op.mnemonic ≠ "decl" := by
    cases op with
    | declare kind x => exact absurd rfl (h kind x)
    | operator op => cases op <;> decide
    | _ => rw [mnemonic]; decide
  exact if_neg hne

/-- Lines with as many line feeds as the strings of operations, each ended by one more. -/
theorem count_flatMap_lines {ls : List (List Char)} {ops : List Operation}
    (h : ls.map (List.count '\n') =
      ops.map fun op => (op.string?.map fun s => s.toList.count '\n').getD 0) :
    (ls.flatMap (· ++ ['\n'])).count '\n' =
      ops.length + ((ops.filterMap string?).flatMap String.toList).count '\n' := by
  induction ops generalizing ls with
  | nil =>
      obtain rfl := List.map_eq_nil_iff.mp h
      rfl
  | cons op ops ih =>
      obtain ⟨l, ls, rfl, hl, hls⟩ := List.map_eq_cons_iff.mp h
      beta_reduce at hl
      rw [List.flatMap_cons, List.count_append, List.count_append, hl, ih hls,
        List.filterMap_cons, List.length_cons]
      cases op.string? with
      | none =>
          simp only [Option.map_none, Option.getD_none, List.count_singleton_self]
          omega
      | some s =>
          simp only [Option.map_some, Option.getD_some, List.count_singleton_self,
            List.flatMap_cons, List.count_append]
          omega

end Operation

namespace Nest

variable (σ : Store)

mutual

/-- The declarations in the code of a nest are those among its plain events. -/
theorem filterMap_code : ∀ (n : Nest) (base : Nat),
    (n.code σ base).filterMap (fun i => (i.op.columns σ).declaration?) =
      n.plains.filterMap fun e => ((e.event.operation σ).columns σ).declaration?
  | .plain e, base => rfl
  | .branch head body tail, base => by
      simp [code, plains, Operation.declaration?_columns_of_ne, filterMap_codeAll body]
  | .choice head body middle other tail, base => by
      simp [code, plains, Operation.declaration?_columns_of_ne, filterMap_codeAll body,
        filterMap_codeAll other]
  | .loop head condition exit body tail, base => by
      simp [code, plains, Operation.declaration?_columns_of_ne, filterMap_codeAll body,
        List.filterMap_map, Plain.instruction, Function.comp_def]

theorem filterMap_codeAll : ∀ (ns : List Nest) (base : Nat),
    (codeAll σ base ns).filterMap (fun i => (i.op.columns σ).declaration?) =
      (plainsAll ns).filterMap fun e => ((e.event.operation σ).columns σ).declaration?
  | [], base => rfl
  | n :: ns, base => by
      rw [codeAll, plainsAll, List.filterMap_append, List.filterMap_append, filterMap_code n,
        filterMap_codeAll ns]

end

end Nest

/-- A text whose lines are ended by line feeds has only one set of lines. -/
theorem Text.lines_inj {xs ys : List (List Char)} (hxs : ∀ x ∈ xs, '\n' ∉ x)
    (hys : ∀ y ∈ ys, '\n' ∉ y) (h : xs.flatMap (· ++ ['\n']) = ys.flatMap (· ++ ['\n'])) :
    xs = ys := by
  have hfirst (x rest : List Char) (hx : '\n' ∉ x) :
      (x ++ '\n' :: rest).takeWhile (· ≠ '\n') = x := by
    rw [List.takeWhile_append_of_pos fun c hc => decide_eq_true (ne_of_mem_of_not_mem hc hx)]
    simp
  induction xs generalizing ys with
  | nil =>
      cases ys with
      | nil => rfl
      | cons y ys => simp at h
  | cons x xs ih =>
      cases ys with
      | nil => simp at h
      | cons y ys =>
          obtain ⟨hx, hxs'⟩ := List.forall_mem_cons.mp hxs
          obtain ⟨hy, hys'⟩ := List.forall_mem_cons.mp hys
          simp only [List.flatMap_cons, List.append_assoc, List.singleton_append] at h
          obtain rfl : x = y := by rw [← hfirst x _ hx, h, hfirst y _ hy]
          rw [ih hxs' hys' (List.cons.inj (List.append_cancel_left h)).2]

namespace Program

def operations (p : Program) : List Operation := p.code.toList.map Instruction.op

/-- The strings among the constants of a program. -/
def strings (p : Program) : List String := p.operations.filterMap Operation.string?

def columns (p : Program) : List Columns := p.operations.map (Operation.columns p.store)

def lines (p : Program) : List (List Char) :=
  p.code.entries.map fun e => (line p.store e.1 e.2).toList

/-- What has to be known of a program to read it off its listing. -/
structure Legible (p : Program) : Prop where
  worded : p.store.Worded
  distinct : p.store.Distinct
  named : ∀ op ∈ p.operations, op.Named p.store
  declared : p.columns.filterMap Columns.declaration? = p.store.declarations
  fresh : p.store = Store.ofDeclarations p.store.declarations
  restored : Operation.restore p.store true (p.operations.map Operation.blur) = p.operations

theorem toList_listing (p : Program) : p.listing.toList = p.lines.flatMap (· ++ ['\n']) := by
  simp [listing, lines, List.flatMap_map, String.toList_join]

theorem map_entries {β : Type} (p : Program) (f : Operation → β) :
    p.code.entries.map (fun e => f e.2.op) = p.operations.map f := by
  rw [operations, ← p.code.map_snd_entries, List.map_map, List.map_map]
  rfl

namespace Legible

variable {p q : Program}

theorem map_ofLine (h : p.Legible) : p.lines.map Columns.ofLine = p.columns := by
  simp only [lines, List.map_map, Function.comp_def, Columns.ofLine_line h.worded]
  exact p.map_entries _

/-- The operations are read off the columns, with the variables known. -/
theorem operations_eq (h : p.Legible) :
    p.operations = Operation.restore p.store true (p.columns.map (Columns.operation p.store)) := by
  have hblur : p.columns.map (Columns.operation p.store) = p.operations.map Operation.blur := by
    rw [columns, List.map_map]
    exact List.map_congr_left fun op hop => Operation.operation_columns h.distinct (h.named op hop)
  rw [hblur, h.restored]

theorem map_count_lines (h : p.Legible) :
    p.lines.map (List.count '\n') =
      p.operations.map fun op => (op.string?.map fun s => s.toList.count '\n').getD 0 := by
  simp only [lines, List.map_map, Function.comp_def, count_line h.worded]
  exact p.map_entries fun op => (op.string?.map fun s => s.toList.count '\n').getD 0

/-- A line feed ends each line; the others are in strings. -/
theorem count_listing (h : p.Legible) :
    p.listing.toList.count '\n' = p.size + (p.strings.flatMap String.toList).count '\n' := by
  have hsize : p.size = p.operations.length := by simp [size, operations, Chain.size, Chain.toList]
  rw [toList_listing, hsize]
  exact Operation.count_flatMap_lines h.map_count_lines

theorem feed_notMem_lines (h : p.Legible) (hp : ∀ s ∈ p.strings, '\n' ∉ s.toList) :
    ∀ l ∈ p.lines, '\n' ∉ l := by
  intro l hl
  have hcount : l.count '\n' ∈ p.lines.map (List.count '\n') := List.mem_map_of_mem hl
  rw [h.map_count_lines] at hcount
  obtain ⟨op, hop, hcount⟩ := List.mem_map.mp hcount
  rw [← List.count_eq_zero, ← hcount]
  cases hs : op.string? with
  | none => rfl
  | some s => exact List.count_eq_zero.mpr (hp s (List.mem_filterMap.mpr ⟨op, hop, hs⟩))

/-- Programs with the same columns are the same up to positions. -/
theorem alike_of_columns_eq (h : p.Legible) (h' : q.Legible) (hcolumns : p.columns = q.columns) :
    p.Alike (fun _ _ => True) q := by
  -- The variables come first: before they are known, a name in a line stands for nothing.
  have hstore : p.store = q.store := by
    rw [h.fresh, h'.fresh, ← h.declared, ← h'.declared, hcolumns]
  have hoperations : p.operations = q.operations := by
    rw [h.operations_eq, h'.operations_eq, hcolumns, hstore]
  refine ⟨?_, hstore⟩
  have hcode : List.Forall₂ Eq p.operations q.operations := by
    rw [List.forall₂_eq_eq_eq, hoperations]
  rw [operations, operations, List.forall₂_map_left_iff, List.forall₂_map_right_iff] at hcode
  exact hcode.imp fun _ _ hop => ⟨trivial, hop⟩

end Legible

theorem routed_of_ofSource (source : String) (p : Program) (h : ofSource source = .ok p) :
    p.Routed :=
  (Draft.wired_foldl_absorb _).routed_of_finish p (Reading.finish_of_compile h)

theorem Routed.named_operations {p : Program} (h : p.Routed) :
    ∀ op ∈ p.operations, op.Named p.store := by
  intro op hop
  obtain ⟨i, hi, rfl⟩ := List.mem_map.mp hop
  obtain ⟨c, hc⟩ := List.mem_iff_getElem?.mp hi
  exact h.named c i.op (Chain.op?_of_get? ((p.code.get?_eq_getElem? c).trans hc))

/-- The names in a store that a text declares are words. -/
theorem worded_of_declarations (source : String) (ss : List Statement)
    (hss : Statement.DerivesAll (TokenStream.ofSource source).significant.tokens ss)
    {τ : Store} (hτ : τ.declarations = Statement.declarations ss) : τ.Worded := by
  intro x hx
  have hmem : (x.name, x.kind) ∈ Statement.declarations ss := by
    rw [← hτ]
    exact List.mem_map_of_mem hx
  obtain ⟨m, hm, hdeclares⟩ := List.mem_filterMap.mp hmem
  cases m with
  | declares kind name =>
      obtain ⟨rfl, rfl⟩ := Prod.mk.inj (Option.some.inj hdeclares)
      obtain ⟨t, ht, hkind, htext⟩ := hss.declared _ _ hm
      rw [← htext]
      exact TokenStream.word_of_identifier source t
        (TokenStream.mem_tokens_of_mem_significant _ t ht) hkind
  | uses | numeral => cases hdeclares

/-- Where the names are known, the lines that declare a variable are the declarations of the
statements. -/
theorem filterMap_columns {τ : Store} (hdistinct : τ.Distinct) (ss : List Statement)
    (hτ : τ.declarations = Statement.declarations ss) (base : Nat) :
    (Nest.codeAll τ base (Statement.nestsAll ss)).filterMap
        (fun i => (i.op.columns τ).declaration?) = Statement.declarations ss := by
  rw [Nest.filterMap_codeAll, Statement.declarations, Statement.mentionsAll_eq,
    List.filterMap_filterMap]
  refine List.filterMap_congr ?_
  intro e he
  -- A declaration is listed by what its variable is called in the end, which is how it was
  -- declared, since no name is declared twice.
  cases hevent : e.event with
  | declare kind name =>
      have hmention : Mention.declares kind name ∈ Statement.mentionsAll ss := by
        rw [Statement.mentionsAll_eq]
        exact List.mem_filterMap.mpr ⟨e, he, by rw [hevent, Event.mention?]⟩
      have hmem : (name, kind) ∈ τ.declarations := by
        rw [hτ]
        exact List.mem_filterMap.mpr ⟨_, hmention, rfl⟩
      exact Operation.declaration?_columns_declare hdistinct hmem
  | _ => exact Operation.declaration?_columns_of_ne τ (by simp [Event.operation])

theorem legible_of_ofSource (source : String) (p : Program) (h : ofSource source = .ok p) :
    p.Legible := by
  have hnamed := (routed_of_ofSource source p h).named_operations
  obtain ⟨ss, hss, -⟩ := Grammar.exists_tree_of_readSource source (Reading.outcome_of_compile h)
  obtain ⟨τ, hτ, rfl⟩ := ofSource_of_derivesAll source p h ss hss
  have hdeclarations : τ.declarations = Statement.declarations ss :=
    Store.declarations_of_foldlM Store.empty τ _ hτ
  have hdistinct : τ.Distinct := by
    have hafter := hτ
    rw [← Statement.afterAll?_plains] at hafter
    exact Store.distinct_of_afterAll? _ τ _ Store.distinct_empty hafter
  refine ⟨worded_of_declarations source ss hss hdeclarations, hdistinct, hnamed, ?_, ?_, ?_⟩
  · have hcolumns := filterMap_columns hdistinct ss hdeclarations 0
    simpa [columns, operations, List.filterMap_map, Function.comp_def, hdeclarations] using hcolumns
  · rw [hdeclarations]
    exact Store.eq_foldl_add_of_foldlM Store.empty τ _ hτ
  · have hrestores := Statement.restoresAll τ ss 0 []
    simpa [operations, Operation.restore] using hrestores

/-- The listing of a program that comes from a text has a line for each instruction, but for
the line feeds in strings. Where there are none, it tells the program apart from every other up
to positions. -/
theorem listing_legible (source : String) (p : Program) (h : ofSource source = .ok p) :
    p.listing.toList.count '\n' = p.size + (p.strings.flatMap String.toList).count '\n' ∧
      ∀ (source' : String) (q : Program), ofSource source' = .ok q →
        (∀ s ∈ p.strings, '\n' ∉ s.toList) → (∀ s ∈ q.strings, '\n' ∉ s.toList) →
        p.listing = q.listing → p.Alike (fun _ _ => True) q := by
  have hp := legible_of_ofSource source p h
  refine ⟨hp.count_listing, ?_⟩
  intro source' q h' hfree hfree' hlisting
  have hq := legible_of_ofSource source' q h'
  have hlines : p.lines = q.lines := by
    apply Text.lines_inj (hp.feed_notMem_lines hfree) (hq.feed_notMem_lines hfree')
    rw [← toList_listing, ← toList_listing, hlisting]
  apply hp.alike_of_columns_eq hq
  rw [← hp.map_ofLine, ← hq.map_ofLine, hlines]

/-- An assignment and an output, with a string that ends in a blank. -/
def terse : String := "string s; s := \"a \" + s; print s;"

/-- The same with other blanks, with parentheses and with a long declaration. -/
def verbose : String := "declare string s;\n s := (\"a \" + (s));\n print s;\n"

theorem listing_legible_terse :
    ∃ p q, ofSource terse = .ok p ∧ ofSource verbose = .ok q ∧ p.listing = q.listing ∧
      p.listing.toList.count '\n' = p.size + (p.strings.flatMap String.toList).count '\n' ∧
      p.Alike (fun _ _ => True) q := by
  have hcheck : (match ofSource terse, ofSource verbose with
      | .ok p, .ok q => p.listing == q.listing &&
        (p.strings ++ q.strings).all fun s => !s.toList.contains '\n'
      | _, _ => false) = true := by
    decide +kernel
  cases hp : ofSource terse with
  | error e => simp [hp] at hcheck
  | ok p =>
      cases hq : ofSource verbose with
      | error e => simp [hp, hq] at hcheck
      | ok q =>
          simp only [hp, hq, Bool.and_eq_true, beq_iff_eq, List.all_append, List.all_eq_true,
            Bool.not_eq_true', List.contains_eq_mem, decide_eq_false_iff_not] at hcheck
          obtain ⟨hlisting, hfree, hfree'⟩ := hcheck
          obtain ⟨hcount, hdetermined⟩ := listing_legible terse p hp
          exact ⟨p, q, rfl, rfl, hlisting, hcount, hdetermined verbose q hq hfree hfree' hlisting⟩

end Program

end StackLang
