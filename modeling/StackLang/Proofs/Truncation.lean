import StackLang.Proofs.Machine.Effect

/-!
# A limited sink cuts the run short

The machine looks at its sink only when it prints, so a limit cannot be noticed before the
first print that goes past it. Up to there the run with a limited sink is the run with an
unlimited one. At that print it stops, with the sink filled to its last byte, be it in the
middle of a line or of a character, and with the variables as the print found them. If no
print goes past the limit, the two runs are the same for ever.
-/

namespace StackLang

namespace Sink

variable {limit : Nat} {written : ByteArray}

theorem extract_of_size_le {bytes : ByteArray} (h : bytes.size ≤ limit) :
    bytes.extract 0 limit = bytes := by
  apply ByteArray.ext
  rw [ByteArray.data_extract]
  exact Array.extract_eq_self_of_le h

/-- More bytes behind the limit change nothing in front of it. -/
theorem extract_append_of_le_size {bytes : ByteArray} (h : limit ≤ bytes.size) (more : ByteArray) :
    (bytes ++ more).extract 0 limit = bytes.extract 0 limit := by
  have hmore : more.extract (0 - bytes.size) (limit - bytes.size) = .empty := by
    rw [Nat.sub_eq_zero_of_le h, Nat.zero_sub]
    exact ByteArray.extract_same
  rw [ByteArray.extract_append, hmore, ByteArray.append_empty]

/-- A limited sink has the first bytes of all that it was given. -/
theorem write_limited (h : written.size ≤ limit) (bytes : ByteArray) :
    (⟨some limit, written⟩ : Sink).write bytes =
      ⟨some limit, (written ++ bytes).extract 0 limit⟩ := by
  rw [ByteArray.extract_append, extract_of_size_le h, Nat.zero_sub]
  rfl

end Sink

namespace Machine

variable {p : Program} {m : Machine} {limit : Nat}

/-- The same machine with a limit to its sink. -/
def limited (m : Machine) (limit : Nat) : Machine := m.into ⟨some limit, m.sink.written⟩

theorem printed_unlimited (h : m.sink.limit = none) (pos : Position) (v : Value) (rest : Stack) :
    m.printed pos v rest =
      { m with
        counter := m.counter + 1
        stack := rest
        sink := ⟨none, m.sink.written ++ (v.text ++ "\n").toUTF8⟩ } := by
  rcases m with ⟨counter, stack, store, ⟨limit, written⟩, fault⟩
  obtain rfl : limit = none := h
  rfl

theorem printed_limited (hsize : m.sink.written.size ≤ limit) (pos : Position) (v : Value)
    (rest : Stack) :
    (m.limited limit).printed pos v rest =
      if m.sink.written.size + (v.text ++ "\n").toUTF8.size ≤ limit then
        { m with
          counter := m.counter + 1
          stack := rest
          sink := ⟨some limit, m.sink.written ++ (v.text ++ "\n").toUTF8⟩ }
      else
        { m with
          stack := rest
          sink := ⟨some limit, (m.sink.written ++ (v.text ++ "\n").toUTF8).extract 0 limit⟩
          fault := some ⟨pos, .output⟩ } := by
  have hwrite := Sink.write_limited hsize (v.text ++ "\n").toUTF8
  have hfits : (⟨some limit, m.sink.written⟩ : Sink).fits (v.text ++ "\n").toUTF8 =
      decide (m.sink.written.size + (v.text ++ "\n").toUTF8.size ≤ limit) := rfl
  simp only [printed, limited, into, hwrite, hfits, decide_eq_true_eq]
  split
  · next h => rw [Sink.extract_of_size_le (by rwa [ByteArray.size_append])]
  · rfl

/-- An unlimited sink stays so and only grows. -/
theorem grows_step (h : m.sink.limit = none) :
    (m.step p).sink.limit = none ∧
      ∃ more, (m.step p).sink.written = m.sink.written ++ more := by
  rcases sink_step_cases p m with ⟨hsink, -⟩ | ⟨pos, v, rest, -, hprinted⟩
  · rw [hsink]
    exact ⟨h, .empty, ByteArray.append_empty.symm⟩
  · have hstep : m.step p = m.printed pos v rest := hprinted m.sink
    rw [hstep, printed_unlimited h]
    exact ⟨rfl, _, rfl⟩

theorem size_le_step (h : m.sink.limit = none) :
    m.sink.written.size ≤ (m.step p).sink.written.size := by
  obtain ⟨-, more, hmore⟩ := grows_step (p := p) h
  rw [hmore, ByteArray.size_append]
  exact Nat.le_add_right _ _

/-- As long as all fits, a step is the same with a limit to the sink. -/
theorem step_limited (h : m.sink.limit = none) (hsize : (m.step p).sink.written.size ≤ limit) :
    (m.limited limit).step p = (m.step p).limited limit := by
  rcases sink_step_cases p m with ⟨hsink, hinto⟩ | ⟨pos, v, rest, -, hprinted⟩
  · rw [limited, hinto, limited, hsink]
  · have hbefore := Nat.le_trans (size_le_step h) hsize
    have hstep : m.step p = m.printed pos v rest := hprinted m.sink
    rw [hstep, printed_unlimited h] at hsize ⊢
    rw [ByteArray.size_append] at hsize
    rw [limited, hprinted, ← limited, printed_limited hbefore, if_pos hsize]
    rfl

/-- A step that does not fit is a print. With a limit to the sink it stops the machine: all
bytes up to the limit are written, and the variables are as they were. -/
theorem step_beyond (h : m.sink.limit = none) (hbefore : m.sink.written.size ≤ limit)
    (hafter : limit < (m.step p).sink.written.size) :
    ∃ pos, m.current? p = some ⟨pos, .print⟩ ∧
      (m.limited limit).step p =
        { m with
          stack := (m.step p).stack
          sink := ⟨some limit, (m.step p).sink.written.extract 0 limit⟩
          fault := some ⟨pos, .output⟩ } := by
  rcases sink_step_cases p m with ⟨hsink, -⟩ | ⟨pos, v, rest, hcurrent, hprinted⟩
  · rw [hsink] at hafter
    exact absurd hbefore (Nat.not_le.mpr hafter)
  · have hstep : m.step p = m.printed pos v rest := hprinted m.sink
    rw [hstep, printed_unlimited h] at hafter ⊢
    rw [ByteArray.size_append] at hafter
    refine ⟨pos, hcurrent, ?_⟩
    rw [limited, hprinted, ← limited, printed_limited hbefore, if_neg (Nat.not_le.mpr hafter)]

theorem unlimited_run (h : m.sink.limit = none) (n : Nat) : (m.run p n).sink.limit = none := by
  induction n with
  | zero => exact h
  | succ n ih =>
      rw [run_succ_last]
      exact (grows_step ih).1

theorem grows_run (h : m.sink.limit = none) {n k : Nat} (hnk : n ≤ k) :
    ∃ more, (m.run p k).sink.written = (m.run p n).sink.written ++ more := by
  induction hnk with
  | refl => exact ⟨.empty, ByteArray.append_empty.symm⟩
  | @step k _ ih =>
      obtain ⟨more, hmore⟩ := ih
      obtain ⟨-, more', hmore'⟩ := grows_step (p := p) (unlimited_run (p := p) h k)
      rw [run_succ_last]
      exact ⟨more ++ more', by rw [hmore', hmore, ByteArray.append_assoc]⟩

/-- As long as all fits, a run is the same with a limit to the sink. -/
theorem run_limited (h : m.sink.limit = none) (n : Nat)
    (hsize : (m.run p n).sink.written.size ≤ limit) :
    (m.limited limit).run p n = (m.run p n).limited limit := by
  induction n with
  | zero => rfl
  | succ n ih =>
      have hlimit := unlimited_run (p := p) h n
      rw [run_succ_last] at hsize ⊢
      rw [ih (Nat.le_trans (size_le_step hlimit) hsize), step_limited hlimit hsize, run_succ_last]

/-- The first step that goes past the limit. -/
theorem exists_step_beyond (h : m.sink.written.size ≤ limit) (k : Nat)
    (hk : limit < (m.run p k).sink.written.size) :
    ∃ n, n < k ∧ (m.run p n).sink.written.size ≤ limit ∧
      limit < (m.run p (n + 1)).sink.written.size := by
  induction k with
  | zero => exact absurd h (Nat.not_le.mpr hk)
  | succ k ih =>
      rcases Nat.lt_or_ge limit (m.run p k).sink.written.size with hearlier | hfits
      · obtain ⟨n, hn, hbeyond⟩ := ih hearlier
        exact ⟨n, Nat.lt_succ_of_lt hn, hbeyond⟩
      · exact ⟨k, Nat.lt_succ_self k, hfits, hk⟩

/-- The run with a limit is cut at the step `n`, by a print at `pos`. -/
structure CutAt (p : Program) (m : Machine) (limit n : Nat) (pos : Position) : Prop where
  /-- The print is the first that goes past the limit. -/
  print : (m.run p n).current? p = some ⟨pos, .print⟩
  before : (m.run p n).sink.written.size ≤ limit
  beyond : limit < (m.run p (n + 1)).sink.written.size
  /-- Up to there the limit makes no difference. -/
  same : ∀ j, j ≤ n → (m.limited limit).run p j = (m.run p j).limited limit
  /-- From there on the machine stands still. Its variables are those that the print found,
  and its output is the beginning of what is written without a limit, then and ever after. -/
  stopped : ∀ j, n < j →
    (m.limited limit).run p j =
      { m.run p n with
        stack := (m.run p (n + 1)).stack
        sink := ⟨some limit, (m.run p j).sink.written.extract 0 limit⟩
        fault := some ⟨pos, .output⟩ }

theorem exists_cutAt (h : m.sink.limit = none) (hsize : m.sink.written.size ≤ limit) (k : Nat)
    (hk : limit < (m.run p k).sink.written.size) :
    ∃ n pos, n < k ∧ CutAt p m limit n pos := by
  obtain ⟨n, hn, hbefore, hbeyond⟩ := exists_step_beyond hsize k hk
  have hsame (j : Nat) (hj : j ≤ n) : (m.limited limit).run p j = (m.run p j).limited limit := by
    refine run_limited h j (Nat.le_trans ?_ hbefore)
    obtain ⟨more, hmore⟩ := grows_run (p := p) h hj
    rw [hmore, ByteArray.size_append]
    exact Nat.le_add_right _ _
  obtain ⟨pos, hprint, hstep⟩ := step_beyond (unlimited_run (p := p) h n) hbefore
    (by rwa [← run_succ_last])
  rw [← hsame n (Nat.le_refl n), ← run_succ_last, ← run_succ_last] at hstep
  refine ⟨n, pos, hn, hprint, hbefore, hbeyond, hsame, fun j hj => ?_⟩
  have hended : ((m.limited limit).run p (n + 1)).current? p = none := by
    rw [hstep]
    rfl
  obtain ⟨more, hmore⟩ := grows_run (p := p) h (show n + 1 ≤ j from hj)
  rw [run_of_ended hended hj, hstep, hmore,
    Sink.extract_append_of_le_size (Nat.le_of_lt hbeyond)]

end Machine

namespace Program

/-- What a limit to the sink makes of the run of a program from the given variables. -/
structure Truncated (p : Program) (σ : Store) (limit : Nat) : Prop where
  /-- If no more is ever written than fits, the limit makes no difference. -/
  within : (∀ n, ((Machine.start σ none).run p n).sink.written.size ≤ limit) →
    ∀ n, (Machine.start σ (some limit)).run p n =
      ((Machine.start σ none).run p n).limited limit
  /-- If more is written at some time, the run is cut before that. -/
  beyond : ∀ k, limit < ((Machine.start σ none).run p k).sink.written.size →
    ∃ n pos, n < k ∧ Machine.CutAt p (Machine.start σ none) limit n pos

/-- A limit to the sink cuts a run short and changes nothing else. -/
theorem truncated (p : Program) (σ : Store) (limit : Nat) : p.Truncated σ limit where
  within hsize n := Machine.run_limited rfl n (hsize n)
  beyond k hk := Machine.exists_cutAt rfl (Nat.zero_le limit) k hk

/-- Two lines, the second with a character of two bytes. -/
def twoLines : Program where
  code := ⟨#[⟨⟨1, 7⟩, .constant (.integer 1)⟩, ⟨⟨1, 1⟩, .print⟩, ⟨⟨2, 7⟩, .constant (.string "é")⟩,
    ⟨⟨2, 1⟩, .print⟩]⟩

/-- With room for three bytes the run is cut in the middle of that character. -/
theorem truncated_twoLines :
    (∃ n pos, n < 4 ∧ Machine.CutAt twoLines (Machine.start {} none) 3 n pos) ∧
      ((Machine.start {} (some 3)).run twoLines 9).fault = some ⟨⟨2, 1⟩, .output⟩ ∧
      ((Machine.start {} (some 3)).run twoLines 9).sink.written.toList = [49, 10, 195] := by
  have hbeyond : 3 < ((Machine.start {} none).run twoLines 4).sink.written.size := by
    decide +kernel
  exact ⟨(truncated twoLines {} 3).beyond 4 hbeyond, by decide +kernel⟩

end Program

end StackLang
