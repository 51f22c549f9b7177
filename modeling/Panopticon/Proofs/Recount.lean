import Panopticon.Proofs.Recovery
import Panopticon.Proofs.Size

/-! Addresses that the worklist takes twice. An address that one instruction alone jumps to is taken
once in every order. One that two instructions jump to, or that is the start as well, is taken again
in the order that puts off one of them for as long as something else is to be done. -/

open Panopticon.Function

namespace Panopticon.Proofs.Recount
open Library Worklist Recovery Size

variable {decode : UInt64 → Except String Match} {start : UInt64} {todo : Nat → Enumeration UInt64}

/-- Size of what the decoder returns at an address. -/
def sizeAt (decode : UInt64 → Except String Match) (addr : UInt64) : UInt64 :=
  match entryAt decode addr with
  | .mnemonic mne => mne.size
  | .error _ _ => 0

/-- What a turn counts for an address that has been visited before. -/
def countedAgain (decode : UInt64 → Except String Match) (todo : Nat → Enumeration UInt64) (turn : Nat × Worklist) : UInt64 :=
  ((taken todo turn).map fun addr => if addr ∈ turn.2.mnemonics then counted decode turn.2.mnemonics addr else 0).getD 0

private theorem jumps_iff (single : SingleMnemonic decode) (addr target : UInt64) :
    Jumps decode addr target ↔ ∃ size guard, (addr, .constant target size, guard) ∈ jumpsAt decode addr := by
  refine ⟨fun jumps => ?_, fun jumps => ⟨addr, jumps⟩⟩
  obtain ⟨origin, size, guard, member⟩ := jumps
  exact ⟨size, guard, (single.origin member : origin = addr) ▸ member⟩

/-- Of the instructions the code has, none jumps to the first one, and no two jump to the same one. -/
def Once (decode : UInt64 → Except String Match) (start : UInt64) : Prop :=
  ∀ target, Reached decode start target → (∃ matched, decode target = .ok matched) →
    (target = start → ∀ addr, Reached decode start addr → ¬Jumps decode addr target) ∧
    ∀ a b, Reached decode start a → Reached decode start b → Jumps decode a target → Jumps decode b target → a = b

theorem counted_eq (single : SingleMnemonic decode) {work : Worklist} (valid : Invariant decode start work) (addr : UInt64) :
    counted decode work.mnemonics addr = sizeAt decode addr := by
  by_cases present : addr ∈ work.mnemonics
  · obtain ⟨found, value⟩ := Option.isSome_iff_exists.mp (Std.ExtTreeMap.isSome_getElem?_iff_mem.mpr present)
    obtain ⟨rfl, -⟩ := valid.entries addr found value
    simp only [counted, mnemonicsAt, valuesAt, value, Option.getD_some, List.head?_cons, sizeAt]
    cases entryAt decode addr with
    | mnemonic mne => simp
    | error pos msg => rfl
  · have free : valuesAt work.mnemonics addr = [] := by simp [valuesAt, Std.ExtTreeMap.getElem?_eq_none present]
    simp only [counted, mnemonicsAt, free, List.head?_nil, sizeAt, entryAt]
    cases decoded : decode addr with
    | error message => rfl
    | ok matched =>
      obtain ⟨mne, mnemonics, -⟩ := single addr matched decoded
      simp [mnemonics]

private theorem size_ne_zero {mne : Mnemonic} (positive : mne.area.start < mne.area.stop) : mne.size ≠ 0 := by
  intro nothing
  have same : mne.area.stop = mne.area.start := by
    rw [← sub_eq_zero]
    exact nothing
  rw [same] at positive
  exact UInt64.lt_irrefl _ positive

theorem sizeAt_eq_zero_iff (single : SingleMnemonic decode) (addr : UInt64) :
    sizeAt decode addr = 0 ↔ ¬∃ matched, decode addr = .ok matched := by
  cases decoded : decode addr with
  | error message => simp [sizeAt, entryAt, decoded]
  | ok matched =>
    obtain ⟨mne, mnemonics, first, positive, -⟩ := single addr matched decoded
    have size := size_ne_zero (first ▸ positive : mne.area.start < mne.area.stop)
    simp [sizeAt, entryAt, decoded, mnemonics, size]

private theorem reached_of_mem {work : Worklist} (valid : Invariant decode start work) {addr : UInt64}
    (visited : addr ∈ work.mnemonics) : Reached decode start addr := by
  obtain ⟨found, value⟩ := Option.isSome_iff_exists.mp (Std.ExtTreeMap.isSome_getElem?_iff_mem.mpr visited)
  exact (valid.entries addr found value).2

private theorem reached_of_jumps {addr target : UInt64} (reached : Reached decode start addr) (jumps : Jumps decode addr target) :
    Reached decode start target := by
  obtain ⟨origin, size, guard, member⟩ := jumps
  exact reached.target member

/-- A turn takes one address, and what that jumps to has to be done if it was free. -/
theorem turn_takes (single : SingleMnemonic decode) {n : Nat} {work next : Worklist} (valid : Invariant decode start work)
    (step : turn decode todo n work = some next) :
    ∃ addr ∈ work.todo, taken todo (n, work) = some addr ∧
      (∀ other, other ∈ next.mnemonics ↔ other = addr ∨ other ∈ work.mnemonics) ∧
      ∀ other, other ∈ next.todo ↔ other ≠ addr ∧ other ∈ work.todo ∨ addr ∉ work.mnemonics ∧ Jumps decode addr other := by
  obtain ⟨addr, member, drawn, rfl⟩ := turn_draws step
  refine ⟨addr, member, drawn, ?_⟩
  rcases visit_cases single valid addr (work.todo.erase addr) with ⟨present, size, same⟩ | ⟨absent, same⟩
  · rw [same]
    refine ⟨fun other => ?_, fun other => ?_⟩
    · exact (or_iff_right_of_imp fun here => here ▸ present).symm
    · rw [mem_erase, or_iff_left fun free => free.1 present]
  · obtain ⟨mnemonics, -, -, -, todo⟩ := decodeAt_facts single addr { work with todo := work.todo.erase addr }
    rw [same]
    refine ⟨fun other => ?_, fun other => ?_⟩
    · rw [mnemonics, mem_push]
    · rw [todo, mem_erase, and_iff_right absent, jumps_iff single]

/-- Nothing that was decoded waits in the worklist again. -/
structure Linear (decode : UInt64 → Except String Match) (start : UInt64) (work : Worklist) : Prop where
  valid : Invariant decode start work
  origin : ∀ addr, addr ∈ work.mnemonics ∨ addr ∈ work.todo → addr = start ∨ ∃ a ∈ work.mnemonics, Jumps decode a addr
  fresh : ∀ addr, (∃ matched, decode addr = .ok matched) → addr ∈ work.mnemonics → addr ∉ work.todo

theorem Linear.turn (single : SingleMnemonic decode) (once : Once decode start) {n : Nat} {work next : Worklist}
    (linear : Linear decode start work) (step : turn decode todo n work = some next) : Linear decode start next := by
  have valid := linear.valid
  obtain ⟨addr, member, -, mnemonics, todo⟩ := turn_takes single valid step
  have old (other : UInt64) (before : other ∈ work.mnemonics ∨ other ∈ work.todo) :
      other = start ∨ ∃ a ∈ next.mnemonics, Jumps decode a other :=
    (linear.origin other before).imp_right (Exists.imp fun a jump => ⟨(mnemonics a).mpr (.inr jump.1), jump.2⟩)
  have before (other : UInt64) (inside : other ∈ next.mnemonics) : other ∈ work.mnemonics ∨ other ∈ work.todo := by
    rcases (mnemonics other).mp inside with rfl | inside
    · exact .inr member
    · exact .inl inside
  refine ⟨turn_preserves single valid step, fun other found => ?_, fun other decoded inside waiting => ?_⟩
  · rcases found with inside | waiting
    · exact old other (before other inside)
    · rcases (todo other).mp waiting with ⟨-, waiting⟩ | ⟨-, jump⟩
      · exact old other (.inr waiting)
      · exact .inr ⟨addr, (mnemonics addr).mpr (.inl rfl), jump⟩
  · rcases (todo other).mp waiting with ⟨different, waiting⟩ | ⟨absent, jump⟩
    · exact linear.fresh other decoded (((mnemonics other).mp inside).resolve_left different) waiting
    · -- it was found before, as the start or from some other address
      have reached := valid.pending addr member
      obtain ⟨notStart, unique⟩ := once other (reached_of_jumps reached jump) decoded
      rcases linear.origin other (before other inside) with same | ⟨a, visited, jump'⟩
      · exact notStart same addr reached jump
      · exact absent (unique a addr (reached_of_mem valid visited) reached jump' jump ▸ visited)

theorem freshWork_facts (orders : HashOrders) (start addr : UInt64) :
    addr ∉ (freshWork orders start).mnemonics ∧ (addr ∈ (freshWork orders start).todo ↔ addr = start) := by
  have labels := List.perm_singleton.mp ((fresh_lists start).labels_perm orders.labels)
  simp only [freshWork, initialWork, indexCflowGraph, labels, List.foldl_cons, List.foldl_nil, indexTarget, initialTodo]
  refine ⟨by simp, ?_⟩
  rw [Rvalue.newU64, mem_insert, mem_insert]
  simp

theorem Linear.initial (orders : HashOrders) : Linear decode start (freshWork orders start) := by
  refine ⟨Worklist.initial orders start 0, fun addr found => ?_, fun addr _ inside => ?_⟩
  · obtain ⟨absent, todo⟩ := freshWork_facts orders start addr
    exact .inl (todo.mp (found.resolve_left absent))
  · exact absurd inside (freshWork_facts orders start addr).1

theorem countedAgain_eq (single : SingleMnemonic decode) {n : Nat} {work : Worklist} (valid : Invariant decode start work)
    {addr : UInt64} (drawn : taken todo (n, work) = some addr) :
    countedAgain decode todo (n, work) = if addr ∈ work.mnemonics then sizeAt decode addr else 0 := by
  simp [countedAgain, drawn, counted_eq single valid]

/-- Counts of the turns that take an address again, as a natural number. -/
def recounted (decode : UInt64 → Except String Match) (todo : Nat → Enumeration UInt64) (turns : List (Nat × Worklist)) : Nat :=
  (turns.map fun turn => (countedAgain decode todo turn).toNat).sum

theorem ofNat_recounted (turns : List (Nat × Worklist)) :
    UInt64.ofNat (recounted decode todo turns) = (turns.map (countedAgain decode todo)).sum := by
  induction turns with
  | nil => rfl
  | cons turn turns ih =>
    rw [List.map_cons, List.sum_cons, ← ih]
    simp [recounted]

theorem recounted_of_once (single : SingleMnemonic decode) (once : Once decode start) {n : Nat} {work final : Worklist}
    {turns : List (Nat × Worklist)} (run : Turns (turn decode todo) n work turns final)
    (linear : Linear decode start work) : recounted decode todo turns = 0 := by
  induction run with
  | stops => rfl
  | @goes n work next _ turns step _ ih =>
    obtain ⟨addr, member, drawn, -⟩ := turn_takes single linear.valid step
    have nothing : countedAgain decode todo (n, work) = 0 := by
      rw [countedAgain_eq single linear.valid drawn]
      split
      · next present =>
        rw [sizeAt_eq_zero_iff single]
        exact fun decoded => linear.fresh addr decoded present member
      · rfl
    have rest := ih (linear.turn single once step)
    simp only [recounted, List.map_cons, List.sum_cons] at rest ⊢
    rw [rest, nothing]
    rfl

def avoiding (last : UInt64) : Enumeration UInt64 where
  list entries := entries.filter (· ≠ last) ++ entries.filter (· = last)
  perm entries := by
    have parts := List.filter_append_perm (fun addr => decide (addr ≠ last)) entries
    simpa using parts

/-- `last` is drawn when nothing else is left. -/
theorem avoiding_head {last : UInt64} {entries : List UInt64} (drawn : ((avoiding last).list entries).head? = some last) :
    ∀ addr ∈ entries, addr = last := by
  intro addr member
  by_contra different
  have inside : addr ∈ entries.filter (· ≠ last) := by simpa using ⟨member, different⟩
  cases rest : entries.filter (· ≠ last) with
  | nil =>
    rw [rest] at inside
    cases inside
  | cons first others =>
    have kept : first ∈ entries.filter (· ≠ last) := rest ▸ List.mem_cons_self
    simp only [avoiding, rest, List.cons_append, List.head?_cons, Option.some.injEq] at drawn
    simp [drawn] at kept

/-- What is reached without the jumps of `last`. -/
inductive Early (decode : UInt64 → Except String Match) (start last : UInt64) : UInt64 → Prop where
  | start (different : start ≠ last) : Early decode start last start
  | jump {addr target} (early : Early decode start last addr) (jumps : Jumps decode addr target) (different : target ≠ last) :
      Early decode start last target

theorem Early.visited {last : UInt64} {work : Worklist} (valid : Invariant decode start work)
    (rest : ∀ addr ∈ work.todo, addr = last) {addr : UInt64} (early : Early decode start last addr) :
    addr ∈ work.mnemonics := by
  induction early with
  | start different => exact valid.started.resolve_right fun waiting => different (rest _ waiting)
  | @jump addr target _ jumps different ih =>
    obtain ⟨origin, size, guard, member⟩ := jumps
    exact (valid.closed addr ih origin target size guard member).resolve_right fun waiting => different (rest _ waiting)

private theorem early_total {a b : UInt64} (different : a ≠ b) (reached : Reached decode start a) :
    Early decode start a b ∨ Early decode start b a := by
  suffices general : ∀ addr, Reached decode start addr → (Early decode start a b ∨ Early decode start b a) ∨
      (addr ≠ a ∧ addr ≠ b) ∧ Early decode start a addr ∧ Early decode start b addr from
    (general a reached).resolve_right fun other => other.1.1 rfl
  intro addr reached
  -- the first of the two on the way is reached without the other
  have meet (addr : UInt64) (fromA : addr ≠ a → Early decode start a addr) (fromB : addr ≠ b → Early decode start b addr) :
      (Early decode start a b ∨ Early decode start b a) ∨
        (addr ≠ a ∧ addr ≠ b) ∧ Early decode start a addr ∧ Early decode start b addr := by
    by_cases here : addr = a
    · subst here
      exact .inl (.inr (fromB different))
    by_cases there : addr = b
    · subst there
      exact .inl (.inl (fromA here))
    exact .inr ⟨⟨here, there⟩, fromA here, fromB there⟩
  induction reached with
  | start => exact meet start .start .start
  | @jump addr matched origin target size guard _ decoded member ih =>
    rcases ih with found | ⟨-, fromA, fromB⟩
    · exact .inl found
    · have jumps : Jumps decode addr target :=
        ⟨origin, size, guard, by simpa [jumpsAt, decoded] using member⟩
      exact meet target (fromA.jump jumps) (fromB.jump jumps)

private theorem exists_late (several : ¬Once decode start) :
    ∃ last target, Reached decode start last ∧ Jumps decode last target ∧ (∃ matched, decode target = .ok matched) ∧
      (target = last ∨ Early decode start last target) := by
  simp only [Once, not_forall] at several
  obtain ⟨target, -, decoded, several⟩ := several
  by_cases begin : target = start ∧ ∃ addr, Reached decode start addr ∧ Jumps decode addr target
  · obtain ⟨rfl, addr, reached, jumps⟩ := begin
    refine ⟨addr, target, reached, jumps, decoded, ?_⟩
    by_cases same : target = addr
    · exact .inl same
    · exact .inr (.start same)
  · have pair : ∃ a b, Reached decode start a ∧ Reached decode start b ∧ Jumps decode a target ∧ Jumps decode b target ∧ a ≠ b := by
      by_contra none
      refine several ⟨fun same addr reached jumps => begin ⟨same, addr, reached, jumps⟩, fun a b fromA fromB jumps jumps' => ?_⟩
      by_contra different
      exact none ⟨a, b, fromA, fromB, jumps, jumps', different⟩
    obtain ⟨a, b, fromA, fromB, jumps, jumps', different⟩ := pair
    have late (a b : UInt64) (reached : Reached decode start a) (jumps : Jumps decode a target)
        (jumps' : Jumps decode b target) (early : Early decode start a b) : ∃ last target, Reached decode start last ∧
          Jumps decode last target ∧ (∃ matched, decode target = .ok matched) ∧
            (target = last ∨ Early decode start last target) := by
      refine ⟨a, target, reached, jumps, decoded, ?_⟩
      by_cases same : target = a
      · exact .inl same
      · exact .inr (early.jump jumps' same)
    rcases early_total different fromA with early | early
    · exact late a b fromA jumps jumps' early
    · exact late b a fromB jumps' jumps early

private theorem taken_again (single : SingleMnemonic decode) {n : Nat} {work final : Worklist} {turns : List (Nat × Worklist)}
    (run : Turns (turn decode todo) n work turns final) (valid : Invariant decode start work) {addr : UInt64}
    (present : addr ∈ work.mnemonics) (waiting : addr ∈ work.todo) :
    ∃ turn ∈ turns, countedAgain decode todo turn = sizeAt decode addr := by
  induction run with
  | stops done => exact absurd waiting (todo_empty done addr)
  | @goes n work next _ turns step _ ih =>
    obtain ⟨other, -, drawn, mnemonics, todo⟩ := turn_takes single valid step
    by_cases same : addr = other
    · refine ⟨(n, work), by simp, ?_⟩
      rw [countedAgain_eq single valid drawn, ← same, if_pos present]
    · obtain ⟨turn, member, counts⟩ := ih (turn_preserves single valid step) ((mnemonics addr).mpr (.inr present))
        ((todo addr).mpr (.inl ⟨same, waiting⟩))
      exact ⟨turn, List.mem_cons_of_mem _ member, counts⟩

/-- In the order that puts `last` off, what it jumps to has been decoded before. -/
theorem taken_late (single : SingleMnemonic decode) {last target : UInt64} (reached : Reached decode start last)
    (jumps : Jumps decode last target) (early : target = last ∨ Early decode start last target) {n : Nat}
    {work final : Worklist} {turns : List (Nat × Worklist)}
    (run : Turns (turn decode fun _ => avoiding last) n work turns final) (valid : Invariant decode start work)
    (absent : last ∉ work.mnemonics) :
    ∃ turn ∈ turns, countedAgain decode (fun _ => avoiding last) turn = sizeAt decode target := by
  induction run with
  | stops done => exact absurd ((valid.visited (todo_empty done) last).mpr reached) absent
  | @goes n work next _ turns step rest ih =>
    obtain ⟨addr, member, drawn, mnemonics, todo⟩ := turn_takes single valid step
    have kept := turn_preserves single valid step
    by_cases same : addr = last
    · subst same
      have alone : ∀ other ∈ work.todo, other = addr := fun other waiting =>
        avoiding_head drawn other (by simpa using waiting)
      have present : target ∈ next.mnemonics := (mnemonics target).mpr (early.imp_right fun early => early.visited valid alone)
      obtain ⟨turn, inside, counts⟩ := taken_again single rest kept present ((todo target).mpr (.inr ⟨absent, jumps⟩))
      exact ⟨turn, List.mem_cons_of_mem _ inside, counts⟩
    · have missing : last ∉ next.mnemonics := by
        rw [mnemonics]
        exact not_or.mpr ⟨Ne.symm same, absent⟩
      obtain ⟨turn, inside, counts⟩ := ih kept missing
      exact ⟨turn, List.mem_cons_of_mem _ inside, counts⟩

theorem recounts (single : SingleMnemonic decode) (several : ¬Once decode start) (orders : HashOrders) :
    ∃ todo : Nat → Enumeration UInt64, ∀ turns final,
      Turns (turn decode todo) 0 (freshWork orders start) turns final → 0 < recounted decode todo turns := by
  obtain ⟨last, target, reached, jumps, decoded, early⟩ := exists_late several
  refine ⟨fun _ => avoiding last, fun turns final run => ?_⟩
  obtain ⟨turn, member, counts⟩ := taken_late single reached jumps early run (Worklist.initial orders start 0)
    (freshWork_facts orders start last).1
  have positive : 0 < (countedAgain decode (fun _ => avoiding last) turn).toNat := by
    rw [counts, Nat.pos_iff_ne_zero]
    intro nothing
    exact (sizeAt_eq_zero_iff single target).mp (UInt64.toNat_inj.mp nothing) decoded
  exact lt_of_lt_of_le positive (List.le_sum_of_mem (List.mem_map_of_mem member))

end Panopticon.Proofs.Recount
