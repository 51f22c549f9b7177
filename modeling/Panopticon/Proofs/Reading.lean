import Panopticon.Proofs.Region

/-! Cutting, seeking and reading an iterator over cells, against the list of the cells it yields. -/

namespace Panopticon.Proofs.Region
open Library Panopticon.Region

theorem yields_iff {it : LayerIter} {list : List Cell} : Yields it list ↔ list = cells it := by
  constructor
  · intro yields
    induction yields with
    | done none =>
      rw [(next_cells _).1, List.head?_eq_none_iff] at none
      exact none.symm
    | more some _ ih =>
      obtain ⟨head, tail⟩ := next_cells ‹_›
      rw [head] at some
      rw [ih, tail]
      exact (List.cons_head?_tail some)
  · rintro rfl
    exact yields_cells it

private theorem toNat_wordLen (it : LayerIter) : it.wordLen.toNat = it.len % 2 ^ 64 := by
  induction it with
  | undefined r => simp [LayerIter.wordLen, LayerIter.len]
  | defined buf => cases buf <;> simp [LayerIter.wordLen, LayerIter.len]
  | sparse map mapped pos ih => exact ih
  | concat car cdr first last => simp [LayerIter.wordLen, LayerIter.len, first, last]

private theorem overrun_panics {ε : Type} {it : LayerIter} {start stop : Nat} (overrun : Overruns start stop it) :
    (it.cut start stop : Outcome ε _) = .panics := by
  obtain ⟨plain, some, behind⟩ := overrun
  induction it with
  | undefined r =>
    have short : ¬start ≤ min stop r := fun reach => Nat.not_lt.mpr (reach.trans (Nat.min_le_right stop r)) behind
    unfold LayerIter.cut
    simp only [if_neg (Nat.not_le.mpr some), realEnd_eq]
    simp only [LayerIter.len, difference_panics short, Outcome.panics_bind]
  | defined buf =>
    obtain ⟨bytes, rfl⟩ := Option.isSome_iff_exists.mp plain
    have short : ¬(start ≤ min stop bytes.length ∧ min stop bytes.length ≤ bytes.length) :=
      fun reach => Nat.not_lt.mpr (reach.1.trans reach.2) behind
    unfold LayerIter.cut
    simp only [if_neg (Nat.not_le.mpr some), realEnd_eq]
    simp only [LayerIter.len, slice_panics short, Outcome.panics_bind]
  | sparse map mapped pos ih =>
    unfold LayerIter.cut
    simp only [if_neg (Nat.not_le.mpr some), ih plain behind, Outcome.panics_bind]
  | concat car cdr => exact plain.elim

private theorem plain_of_cut {ε : Type} {it part : LayerIter} {start stop : Nat} (plain : Plain it) (some : start < stop)
    (returned : (it.cut start stop : Outcome ε _) = .returns part) : Plain part := by
  induction it generalizing part with
  | undefined r =>
    unfold LayerIter.cut at returned
    simp only [if_neg (Nat.not_le.mpr some), Outcome.bind_eq_returns] at returned
    obtain ⟨_, _, same⟩ := returned
    cases same
    trivial
  | defined buf =>
    obtain ⟨bytes, rfl⟩ := Option.isSome_iff_exists.mp plain
    unfold LayerIter.cut at returned
    simp only [if_neg (Nat.not_le.mpr some), Outcome.bind_eq_returns] at returned
    obtain ⟨_, _, same⟩ := returned
    cases same
    rfl
  | sparse map mapped pos ih =>
    unfold LayerIter.cut at returned
    simp only [if_neg (Nat.not_le.mpr some), Outcome.bind_eq_returns] at returned
    obtain ⟨inner, below, same⟩ := returned
    cases same
    have kept : Plain inner := ih plain below
    exact kept
  | concat car cdr => exact plain.elim

theorem within_of_returns {ε : Type} {it part : LayerIter} {start stop : Nat}
    (returned : (it.cut start stop : Outcome ε _) = .returns part) : ¬Overruns start stop it := by
  intro overrun
  rw [overrun_panics overrun] at returned
  cases returned

/-- The length counts the cells, and the cut yields those inside the range. -/
def CutsRight (it : LayerIter) (start stop : Nat) : Prop :=
  ∃ list, Yields it list ∧ it.wordLen.toNat = list.length ∧
    ∃ part, (it.cut start stop : Outcome Empty _) = .returns part ∧ Yields part (segment list start (min stop list.length))

def Seeks (it : LayerIter) (p : Nat) : Prop :=
  ∃ list part, Yields it list ∧ (it.seek p : Outcome Empty _) = .returns part ∧ Yields part (list.drop (min p list.length))

theorem cutsRight_iff (it : LayerIter) (start stop : Nat) :
    CutsRight it start stop ↔ it.len < 2 ^ 64 ∧ ¬Overruns start stop it := by
  simp only [CutsRight, yields_iff, exists_eq_left, length_cells, toNat_wordLen]
  rw [← length_cells it, segment_min, length_cells, Nat.mod_eq_iff_lt (by decide)]
  refine and_congr_right fun _ => ⟨fun cut => ?_, fun within => ?_⟩
  · obtain ⟨part, returned, -⟩ := cut
    exact within_of_returns returned
  obtain ⟨part, returned, same⟩ := cut_segment (ε := Empty) it start stop within
  exact ⟨part, returned, same.symm⟩

private theorem seeks (it : LayerIter) (p : Nat) : Seeks it p := by
  have total := length_cells it
  have clamped : (cells it).drop (min p (cells it).length) = (cells it).drop p := by
    rcases Nat.le_total p (cells it).length with inside | behind
    · rw [Nat.min_eq_left inside]
    · rw [Nat.min_eq_right behind, List.drop_length, List.drop_eq_nil_of_le behind]
  simp only [Seeks, yields_iff, exists_and_left, exists_eq_left, clamped, LayerIter.seek]
  split_ifs with moved
  · obtain ⟨part, returned, same⟩ := cut_segment (ε := Empty) it p it.len fun overrun => by
      have behind := overrun.behind
      omega
    refine ⟨part, returned, ?_⟩
    rw [same, segment, List.take_of_length_le (by omega)]
  · refine ⟨it, rfl, ?_⟩
    rw [Nat.eq_zero_of_not_pos moved, List.drop_zero]

private theorem segment_segment (list : List Cell) (start stop start' stop' : Nat) :
    segment (segment list start stop) start' stop' = segment list (start + start') (min stop (start + stop')) := by
  simp only [segment, List.take_drop, List.take_take, List.drop_drop, Nat.min_comm]

private theorem within_of_cut {ε : Type} {it part : LayerIter} {start stop start' stop' : Nat}
    (returned : (it.cut start stop : Outcome ε _) = .returns part) (within : ¬Overruns start' stop' part) :
    ¬Overruns (start + start') (min stop (start + stop')) it := by
  rintro ⟨plain, some, behind⟩
  have first := within_of_returns returned
  obtain ⟨part', returned', same⟩ := cut_segment it start stop first
  rw [returned'] at returned
  cases returned
  have room : start < stop ∧ start' < stop' := by omega
  have length : part.len = min stop it.len - start := by
    rw [← length_cells, same, segment, List.length_drop, List.length_take, length_cells]
  have reach : ¬it.len < start := fun overrun => first ⟨plain, room.1, overrun⟩
  exact within ⟨plain_of_cut plain room.1 returned', room.2, by omega⟩

/-- Besides its exact condition: seeking is right, and a cut of a cut is the cut to the shifted intersection. -/
theorem cut_iff (it : LayerIter) (start stop : Nat) :
    (CutsRight it start stop ↔ it.len < 2 ^ 64 ∧ ¬Overruns start stop it) ∧ (∀ p, Seeks it p) ∧
    ∀ part start' stop', (it.cut start stop : Outcome Empty _) = .returns part → ¬Overruns start' stop' part →
      ∃ last direct list, (part.cut start' stop' : Outcome Empty _) = .returns last ∧
        (it.cut (start + start') (min stop (start + stop')) : Outcome Empty _) = .returns direct ∧
        Yields last list ∧ Yields direct list := by
  refine ⟨cutsRight_iff it start stop, seeks it, fun part start' stop' returned within => ?_⟩
  obtain ⟨part', returned', same⟩ := cut_segment (ε := Empty) it start stop (within_of_returns returned)
  rw [returned'] at returned
  cases returned
  obtain ⟨last, returnedLast, sameLast⟩ := cut_segment (ε := Empty) part start' stop' within
  obtain ⟨direct, returnedDirect, sameDirect⟩ := cut_segment (ε := Empty) it _ _ (within_of_cut returned' within)
  refine ⟨last, direct, cells last, returnedLast, returnedDirect, yields_cells last, yields_iff.mpr ?_⟩
  rw [sameLast, same, segment_segment, sameDirect]

/-- Two undefined cells cut behind their end. -/
theorem undefined_overrun : ¬CutsRight (.undefined 2) 3 5 := by
  rw [cutsRight_iff]
  exact fun right => right.2 ⟨trivial, by decide, by decide⟩

theorem cut_iff_bytes : ∃ part last : LayerIter,
    (LayerIter.cut (.defined (some [1, 2, 3, 4])) 1 4 : Outcome Empty _) = .returns part ∧
      (part.cut 1 9 : Outcome Empty _) = .returns last := by
  have within : ¬Overruns 1 9 (.defined (some [2, 3, 4])) := fun overrun => absurd overrun.behind.2 (by decide)
  obtain ⟨last, direct, list, returned, -⟩ :=
    (cut_iff (.defined (some [1, 2, 3, 4])) 1 4).2.2 (.defined (some [2, 3, 4])) 1 9 rfl within
  exact ⟨_, last, rfl, returned⟩

/-- The bytes before the first undefined cell. -/
def leading : List Cell → List UInt8
  | some b :: rest => b :: leading rest
  | _ => []

private theorem length_leading_le (list : List Cell) : (leading list).length ≤ list.length := by
  fun_induction leading list with
  | case1 b rest ih => simpa using ih
  | case2 list other => simp

private theorem length_leading_eq {list : List Cell} : (leading list).length = list.length ↔ ∀ cell ∈ list, cell.isSome = true := by
  fun_induction leading list with
  | case1 b rest ih => simpa using ih
  | case2 list other =>
    cases list with
    | nil => simp
    | cons cell rest =>
      cases cell with
      | some b => exact absurd rfl (other b rest)
      | none => simp

/-- The three ways out of the loop: the buffer is full, or there is no cell or an undefined one. -/
theorem readFrom_spec (idx : Nat) (it : LayerIter) (buf : List UInt8) :
    ∃ after, it.readFrom idx buf =
        (if buf.length ≤ (leading (cells it)).length then 0 else idx + (leading (cells it)).length,
          (leading (cells it)).take buf.length ++ buf.drop (leading (cells it)).length, after) ∧
      cells after = (cells it).drop
        (if buf.length ≤ (leading (cells it)).length then buf.length else (leading (cells it)).length + 1) := by
  induction buf generalizing idx it with
  | nil => exact ⟨it, by simp [LayerIter.readFrom], by simp⟩
  | cons old rest ih =>
    obtain ⟨head, tail⟩ := next_cells it
    obtain ⟨first, rest', stepped⟩ : ∃ first rest', it.next = (first, rest') := ⟨_, _, rfl⟩
    rw [stepped] at head tail
    simp only at head tail
    simp only [LayerIter.readFrom, stepped]
    rcases list : cells it with _ | ⟨_ | b, others⟩
    · rw [list] at head tail
      obtain rfl : first = none := head
      exact ⟨rest', by simp [leading], by simp [leading, tail]⟩
    · rw [list] at head tail
      obtain rfl : first = some none := head
      exact ⟨rest', by simp [leading], by simp [leading, tail]⟩
    · rw [list] at head tail
      obtain rfl : first = some (some b) := head
      obtain ⟨after, read, behind⟩ := ih (idx + 1) rest'
      rw [tail] at read behind
      simp only [List.tail_cons] at read behind
      refine ⟨after, ?_, ?_⟩
      · by_cases full : rest.length ≤ (leading others).length
        · simp [read, leading, full]
        · simp only [read, leading, full, if_false, List.length_cons, Nat.add_le_add_iff_right, List.take_succ_cons,
            List.drop_succ_cons, List.cons_append, Nat.add_assoc, Nat.add_comm 1]
      · by_cases full : rest.length ≤ (leading others).length <;> simp [behind, leading, full]

/-- The smaller of the size of the buffer and the number of leading defined cells. -/
def readable (it : LayerIter) (buf : List UInt8) : Nat := min buf.length (leading (cells it)).length

/-- The first cells are stored and counted, and the iterator is moved behind them. -/
def ReadsRight (it : LayerIter) (buf : List UInt8) : Prop :=
  ∃ list after, Yields it list ∧
    it.read buf = (readable it buf, (leading list).take (readable it buf) ++ buf.drop (readable it buf), after) ∧
    Yields after (list.drop (readable it buf))

/-- The buffer is empty, or larger than an iterator without undefined cells. -/
def Roomy (it : LayerIter) (buf : List UInt8) : Prop :=
  buf = [] ∨ (∀ cell ∈ cells it, cell.isSome = true) ∧ it.len < buf.length

theorem readsRight_iff (it : LayerIter) (buf : List UInt8) : ReadsRight it buf ↔ Roomy it buf := by
  obtain ⟨last, read, behind⟩ := readFrom_spec 0 it buf
  have few := length_leading_le (cells it)
  simp only [ReadsRight, yields_iff, exists_and_left, exists_eq_left, LayerIter.read, read, Prod.mk.injEq, Roomy,
    ← length_leading_eq, ← List.length_eq_zero_iff, readable]
  by_cases full : buf.length ≤ (leading (cells it)).length
  · -- the cells are read, but not counted
    rw [if_pos full] at behind
    simp only [if_pos full, Nat.min_eq_left full]
    constructor
    · rintro ⟨_, ⟨count, -, -⟩, -⟩
      exact .inl count.symm
    · rintro (empty | ⟨defined, short⟩)
      · refine ⟨last, ⟨empty.symm, ?_, rfl⟩, behind.symm⟩
        rw [List.drop_eq_nil_of_le full, List.drop_eq_nil_of_le (Nat.le_refl _)]
      · rw [length_cells] at defined
        omega
  · rw [if_neg full] at behind
    have room : (leading (cells it)).length ≤ buf.length := by omega
    simp only [if_neg full, Nat.min_eq_right room, Nat.zero_add, true_and]
    constructor
    · rintro ⟨_, ⟨-, rfl⟩, same⟩
      have lengths := congrArg List.length (same.trans behind)
      simp only [List.length_drop] at lengths
      rw [length_cells] at lengths few ⊢
      omega
    · rintro (empty | ⟨defined, short⟩)
      · omega
      · refine ⟨last, ⟨?_, rfl⟩, ?_⟩
        · rw [List.take_of_length_le room, List.take_length]
        · rw [behind, List.drop_eq_nil_of_le (Nat.le_of_eq defined.symm), List.drop_eq_nil_of_le (by omega)]

/-- Reads one buffer after another, and collects the bytes that are reported. -/
def drain : LayerIter → List (List UInt8) → List UInt8 × LayerIter
  | it, [] => ([], it)
  | it, buf :: bufs =>
    let (count, bytes, after) := it.read buf
    let (more, last) := drain after bufs
    (bytes.take count ++ more, last)

def AllRoomy : LayerIter → List (List UInt8) → Prop
  | _, [] => True
  | it, buf :: bufs => Roomy it buf ∧ AllRoomy (it.read buf).2.2 bufs

private theorem leading_drop {list : List Cell} {k : Nat} (within : k ≤ (leading list).length) :
    leading (list.drop k) = (leading list).drop k := by
  induction k generalizing list with
  | zero => simp
  | succ k ih =>
    rcases list with _ | ⟨_ | b, rest⟩
    · simp [leading] at within
    · simp [leading] at within
    · simpa [leading] using ih (by simpa [leading] using within)

/-- Each call is right exactly when it is roomy, and a run of such calls returns the leading bytes one after another. -/
theorem read_iff (it : LayerIter) (buf : List UInt8) (bufs : List (List UInt8)) :
    (ReadsRight it buf ↔ Roomy it buf) ∧
      (AllRoomy it bufs → (drain it bufs).1 = (leading (cells it)).take (bufs.map List.length).sum ∧
        cells (drain it bufs).2 = (cells it).drop (drain it bufs).1.length) := by
  refine ⟨readsRight_iff it buf, ?_⟩
  clear buf
  induction bufs generalizing it with
  | nil => simp [drain]
  | cons buf bufs ih =>
    intro holds
    obtain ⟨roomy, later⟩ := holds
    obtain ⟨list, after, yields, read, behind⟩ := (readsRight_iff it buf).mpr roomy
    rw [yields_iff] at yields behind
    subst yields
    rw [read] at later
    obtain ⟨bytes, last⟩ := ih after later
    have within : readable it buf ≤ (leading (cells it)).length := Nat.min_le_right _ _
    have reported : ((leading (cells it)).take (readable it buf) ++ buf.drop (readable it buf)).take (readable it buf) =
        (leading (cells it)).take (readable it buf) := by
      rw [List.take_append_of_le_length (by simpa using within), List.take_take, Nat.min_self]
    have drained : drain it (buf :: bufs) =
        ((leading (cells it)).take (readable it buf) ++ (drain after bufs).1, (drain after bufs).2) := by
      simp only [drain, read, reported]
    rw [drained]
    simp only [List.map_cons, List.sum_cons, List.length_append, List.length_take, Nat.min_eq_left within]
    rw [← behind, leading_drop within] at bytes
    rw [← behind] at last
    constructor
    · rw [bytes, ← List.take_add]
      rcases Nat.le_total buf.length (leading (cells it)).length with small | large
      · rw [readable, Nat.min_eq_left small]
      · rw [readable, Nat.min_eq_right large, List.take_of_length_le (by omega), List.take_of_length_le (by omega)]
    · rw [last, List.drop_drop]

/-- A full buffer is reported as the end, and an undefined cell is dropped. -/
theorem not_readsRight :
    ¬ReadsRight (.defined (some [1, 2, 3])) [0, 0] ∧
      ¬ReadsRight (.concat (.undefined 1) (.defined (some [1]))) [0] := by
  constructor <;> simp [readsRight_iff, Roomy, cells, LayerIter.len]

theorem read_iff_bytes : (drain (.defined (some [1, 2, 3])) [[], [0, 0, 0, 0], [0]]).1 = [1, 2, 3] := by
  have defined : ∀ cell ∈ cells (.defined (some [1, 2, 3])), cell.isSome = true := by simp [cells]
  refine ((read_iff (.defined (some [1, 2, 3])) [] [[], [0, 0, 0, 0], [0]]).2 ?_).1.trans rfl
  exact ⟨.inl rfl, .inr ⟨defined, by simp [LayerIter.read, LayerIter.readFrom, LayerIter.len]⟩, .inr (by
    simp [LayerIter.read, LayerIter.readFrom, LayerIter.next, LayerIter.len, cells]), trivial⟩

end Panopticon.Proofs.Region
