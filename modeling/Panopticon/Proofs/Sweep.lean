import Panopticon.Function
import Panopticon.Library.Grouping

/-! The sweep over the table of mnemonics cuts the decoded mnemonics into runs and
adds one vertex for each run and each decoding error. -/

open Panopticon.Function

namespace Panopticon.Proofs.Sweep
open Library

/-- The vertices the sweep adds, in order, when `bblock` is still open. -/
def pieces (cut : Mnemonic → Mnemonic → Bool) (bblock : List Mnemonic) : List MnemonicOrError → List ControlFlowTarget
  | [] => if bblock.isEmpty then [] else [.resolved (.fromVec bblock)]
  | .error pos msg :: entries => .failed pos msg :: pieces cut bblock entries
  | .mnemonic mne :: entries =>
    if bblock.getLast?.any (cut · mne) then .resolved (.fromVec bblock) :: pieces cut [mne] entries
    else pieces cut (bblock ++ [mne]) entries

variable {bySource byDestination : JumpTable} {start : UInt64}

private theorem foldl_sweepEntry (entries : List MnemonicOrError) (bblock : List Mnemonic) {g : ControlFlowGraph}
    {labels : List ControlFlowTarget} {arcs : List (Guard × Nat × Nat)} (lists : g.Lists labels arcs) :
    let sweep := (entries.map ([·])).foldl (sweepEntry bySource byDestination start) (bblock, g)
    (if sweep.1.isEmpty then sweep.2 else (closeBlock sweep).2).Lists
      (labels ++ pieces (newBb bySource byDestination start) bblock entries) arcs := by
  induction entries generalizing bblock g labels with
  | nil =>
    simp only [List.map_nil, List.foldl_nil, pieces, closeBlock]
    split
    · simpa using lists
    · exact lists.addVertex _
  | cons entry entries ih =>
    simp only [List.map_cons, List.foldl_cons]
    cases entry with
    | error pos msg =>
      have step : sweepEntry bySource byDestination start (bblock, g) [.error pos msg] =
          (bblock, (g.addVertex (.failed pos msg)).1) := by
        cases last : bblock.getLast? <;> simp [sweepEntry, sweepMoe, last]
      rw [step, pieces]
      simpa using ih bblock (lists.addVertex (.failed pos msg))
    | mnemonic mne =>
      have step : sweepEntry bySource byDestination start (bblock, g) [.mnemonic mne] =
          if bblock.getLast?.any (newBb bySource byDestination start · mne) then
            ([mne], (g.addVertex (.resolved (.fromVec bblock))).1)
          else (bblock ++ [mne], g) := by
        cases last : bblock.getLast? with
        | none => simp [sweepEntry, sweepMoe, last]
        | some prev =>
          simp only [sweepEntry, last, List.head?_cons, Option.any_some, List.foldl_cons, List.foldl_nil]
          split <;> simp [sweepMoe, closeBlock]
      rw [step, pieces]
      split
      · simpa using ih [mne] (lists.addVertex (.resolved (.fromVec bblock)))
      · exact ih (bblock ++ [mne]) lists

theorem sweepAll_lists {mnemonics : Mnemonics} {entries : List MnemonicOrError}
    (table : mnemonics.toList.map Prod.snd = entries.map ([·])) :
    (sweepAll mnemonics bySource byDestination start).Lists
      (pieces (newBb bySource byDestination start) [] entries) [] := by
  have empty : (AdjacencyList.new : ControlFlowGraph).Lists [] [] := .new
  rw [sweepAll, table]
  exact foldl_sweepEntry entries [] empty

def block? : ControlFlowTarget → Option BasicBlock
  | .resolved bb => some bb
  | _ => none

def mnemonic? : MnemonicOrError → Option Mnemonic
  | .mnemonic mne => some mne
  | .error _ _ => none

/-- The address an entry of the table describes. -/
def address : MnemonicOrError → UInt64
  | .mnemonic mne => mne.area.start
  | .error pos _ => pos

def contents : ControlFlowTarget → List MnemonicOrError
  | .resolved bb => bb.mnemonics.map .mnemonic
  | .failed pos msg => [.error pos msg]
  | .unresolved _ => []

def addresses : ControlFlowTarget → List UInt64
  | .resolved bb => bb.mnemonics.map (·.area.start)
  | .failed pos _ => [pos]
  | .unresolved _ => []

variable {cut : Mnemonic → Mnemonic → Bool}

private theorem blocks_pieces (bblock : List Mnemonic) (entries : List MnemonicOrError)
    (chain : bblock.IsChain fun first second => !cut first second) :
    (pieces cut bblock entries).filterMap block? =
      ((bblock ++ entries.filterMap mnemonic?).splitBy fun first second => !cut first second).map .fromVec := by
  induction entries generalizing bblock with
  | nil =>
    cases bblock with
    | nil => simp [pieces]
    | cons mne bblock =>
      have whole := List.splitBy_of_isChain (List.cons_ne_nil mne bblock) chain
      simp [pieces, block?, whole]
  | cons entry entries ih =>
    cases entry with
    | error pos msg => simpa [pieces, block?, mnemonic?, List.filterMap_cons] using ih bblock chain
    | mnemonic mne =>
      simp only [pieces]
      split
      next separate =>
        obtain ⟨last, found, cutHere⟩ : ∃ last, bblock.getLast? = some last ∧ cut last mne = true := by
          simpa [Option.any_eq_true] using separate
        have nonempty : bblock ≠ [] := by
          rintro rfl
          cases found
        have apart : (bblock ++ mne :: entries.filterMap mnemonic?).splitBy (fun first second => !cut first second) =
            [bblock] ++ (mne :: entries.filterMap mnemonic?).splitBy fun first second => !cut first second := by
          rw [List.splitBy_append_cons, List.splitBy_of_isChain nonempty chain]
          intro other member
          rw [found] at member
          cases member
          simp [cutHere]
        simpa [block?, mnemonic?, apart] using ih [mne] (List.isChain_singleton _)
      next together =>
        have longer : (bblock ++ [mne]).IsChain fun first second => !cut first second := by
          rw [List.isChain_append]
          refine ⟨chain, List.isChain_singleton _, ?_⟩
          intro last found next same
          cases same
          simp only [Option.any_eq_true, not_exists, not_and, Bool.not_eq_true] at together
          simp [together last found]
        simpa [mnemonic?] using ih (bblock ++ [mne]) longer

theorem resolved_mem_pieces (entries : List MnemonicOrError) (bb : BasicBlock) :
    .resolved bb ∈ pieces cut [] entries ↔
      ∃ part ∈ (entries.filterMap mnemonic?).splitBy (fun first second => !cut first second), .fromVec part = bb := by
  have blocks : (pieces cut [] entries).filterMap block? = _ := blocks_pieces [] entries List.isChain_nil
  have member : .resolved bb ∈ pieces cut [] entries ↔ bb ∈ (pieces cut [] entries).filterMap block? := by
    simp only [List.mem_filterMap]
    constructor
    · intro inside
      exact ⟨_, inside, rfl⟩
    · rintro ⟨target, inside, same⟩
      cases target with
      | resolved other => cases same; exact inside
      | unresolved _ | failed _ _ => cases same
  rw [member, blocks, List.nil_append, List.mem_map]

theorem failed_mem_pieces (bblock : List Mnemonic) (entries : List MnemonicOrError) (pos : UInt64) (msg : String) :
    .failed pos msg ∈ pieces cut bblock entries ↔ .error pos msg ∈ entries := by
  induction entries generalizing bblock with
  | nil => unfold pieces; split <;> simp
  | cons entry entries ih =>
    cases entry with
    | error _ _ => simp [pieces, ih]
    | mnemonic mne => unfold pieces; split <;> simp [ih]

theorem unresolved_notMem_pieces (bblock : List Mnemonic) (entries : List MnemonicOrError) (target : Rvalue) :
    .unresolved target ∉ pieces cut bblock entries := by
  induction entries generalizing bblock with
  | nil => unfold pieces; split <;> simp
  | cons entry entries ih =>
    cases entry with
    | error _ _ => simp [pieces, ih]
    | mnemonic mne => unfold pieces; split <;> simp [ih]

theorem contents_pieces (bblock : List Mnemonic) (entries : List MnemonicOrError) :
    ((pieces cut bblock entries).flatMap contents).Perm (bblock.map .mnemonic ++ entries) := by
  induction entries generalizing bblock with
  | nil =>
    unfold pieces
    split
    next empty => simp_all
    next => simp [contents, BasicBlock.fromVec]
  | cons entry entries ih =>
    cases entry with
    | error pos msg =>
      simp only [pieces, List.flatMap_cons, contents, List.singleton_append]
      exact ((ih bblock).cons _).trans List.perm_middle.symm
    | mnemonic mne =>
      unfold pieces
      split
      · simp only [List.flatMap_cons, contents, BasicBlock.fromVec]
        exact (ih [mne]).append_left _
      · simpa using ih (bblock ++ [mne])

private theorem addresses_pieces (entries : List MnemonicOrError) :
    ((pieces cut [] entries).flatMap addresses).Perm (entries.map address) := by
  have each : addresses = fun lb => (contents lb).map address := by
    funext lb
    cases lb <;> simp [addresses, contents, address]
  rw [each, ← List.map_flatMap]
  simpa using (contents_pieces [] entries).map address

/-- Each mnemonic has positive length and ends where the next one starts. -/
structure Contiguous (ms : List Mnemonic) : Prop where
  positive : ∀ mne ∈ ms, mne.area.start < mne.area.stop
  adjacent : ms.IsChain fun first second => first.area.stop = second.area.start

theorem Contiguous.tail {mne : Mnemonic} {ms : List Mnemonic} (contiguous : Contiguous (mne :: ms)) :
    Contiguous ms := ⟨fun other member => contiguous.positive other (by simp [member]), contiguous.adjacent.tail⟩

theorem Contiguous.head {mne next : Mnemonic} {ms : List Mnemonic} (contiguous : Contiguous (mne :: next :: ms)) :
    mne.area.stop = next.area.start := (List.isChain_cons_cons.mp contiguous.adjacent).1

private theorem foldl_extend (mne : Mnemonic) (ms : List Mnemonic) (contiguous : Contiguous (mne :: ms)) (low : UInt64)
    (below : low ≤ mne.area.start) :
    ms.foldl BasicBlock.extend (some ⟨low, mne.area.stop⟩) =
      some ⟨low, ((mne :: ms).getLast (by simp)).area.stop⟩ := by
  induction ms generalizing mne with
  | nil => simp
  | cons next ms ih =>
    have meets := contiguous.head
    have first := contiguous.positive mne (by simp)
    have second := contiguous.positive next (by simp)
    have lower : min low next.area.start = low := by
      rw [Std.min_eq_if, if_pos (UInt64.le_trans below (meets ▸ UInt64.le_of_lt first))]
    have upper : max mne.area.stop next.area.stop = next.area.stop :=
      if_pos (meets ▸ UInt64.le_of_lt second)
    rw [List.foldl_cons]
    simp only [BasicBlock.extend, lower, upper]
    rw [ih next contiguous.tail (UInt64.le_trans below (meets ▸ UInt64.le_of_lt first))]
    simp

theorem fromVec_area {ms : List Mnemonic} (nonempty : ms ≠ []) (contiguous : Contiguous ms) :
    (BasicBlock.fromVec ms).area = ⟨(ms.head nonempty).area.start, (ms.getLast nonempty).area.stop⟩ := by
  cases ms with
  | nil => exact absurd rfl nonempty
  | cons mne ms =>
    have covered := foldl_extend mne ms contiguous mne.area.start (by simp)
    simp only [BasicBlock.fromVec, List.foldl_cons]
    rw [show BasicBlock.extend none mne = some ⟨mne.area.start, mne.area.stop⟩ from rfl, covered]
    simp

theorem Contiguous.start_lt_stop {ms : List Mnemonic} (nonempty : ms ≠ []) (contiguous : Contiguous ms) :
    (ms.head nonempty).area.start < (ms.getLast nonempty).area.stop := by
  induction ms with
  | nil => exact absurd rfl nonempty
  | cons mne ms ih =>
    cases ms with
    | nil => exact contiguous.positive mne (by simp)
    | cons next ms =>
      rw [List.getLast_cons_cons, List.head_cons]
      have first := contiguous.positive mne (by simp)
      rw [contiguous.head] at first
      exact UInt64.lt_trans first (ih (by simp) contiguous.tail)

private theorem mem_area {ms : List Mnemonic} (nonempty : ms ≠ []) (contiguous : Contiguous ms) (addr : UInt64) :
    ((BasicBlock.fromVec ms).area.start ≤ addr ∧ addr < (BasicBlock.fromVec ms).area.stop) ↔
      ∃ mne ∈ ms, mne.area.start ≤ addr ∧ addr < mne.area.stop := by
  rw [fromVec_area nonempty contiguous]
  induction ms with
  | nil => exact absurd rfl nonempty
  | cons mne ms ih =>
    cases ms with
    | nil => simp
    | cons next ms =>
      have meets := contiguous.head
      have first := contiguous.positive mne (by simp)
      have second := contiguous.tail.start_lt_stop (by simp)
      rw [List.exists_mem_cons_iff, ← ih (by simp) contiguous.tail]
      simp only [List.head_cons, List.getLast_cons_cons] at second ⊢
      constructor
      · rintro ⟨above, below⟩
        by_cases inside : addr < mne.area.stop
        · exact .inl ⟨above, inside⟩
        · exact .inr ⟨meets ▸ UInt64.not_lt.mp inside, below⟩
      · rintro (⟨above, below⟩ | ⟨above, below⟩)
        · exact ⟨above, UInt64.lt_trans below (meets ▸ second)⟩
        · exact ⟨UInt64.le_trans (UInt64.le_of_lt first) (meets ▸ above), below⟩

/-- Entries in ascending order of address, mnemonics of positive length. -/
structure Sorted (entries : List MnemonicOrError) : Prop where
  ascending : (entries.map address).Pairwise (· < ·)
  positive : ∀ mne, .mnemonic mne ∈ entries → mne.area.start < mne.area.stop

section
variable {entries : List MnemonicOrError}

/-- `next` directly follows `mne` in one block. -/
def Follows (cut : Mnemonic → Mnemonic → Bool) (entries : List MnemonicOrError) (mne next : Mnemonic) : Prop :=
  [mne, next] <:+: entries.filterMap mnemonic? ∧ cut mne next = false

theorem mem_mnemonics (mne : Mnemonic) : mne ∈ entries.filterMap mnemonic? ↔ .mnemonic mne ∈ entries := by
  simp only [List.mem_filterMap]
  constructor
  · rintro ⟨entry, member, same⟩
    cases entry with
    | mnemonic other => cases same; exact member
    | error _ _ => cases same
  · intro member
    exact ⟨_, member, rfl⟩

/-- Two mnemonics of a block are consecutive exactly when one follows the other. -/
theorem follows_iff (mne next : Mnemonic) :
    Follows cut entries mne next ↔ ∃ bb, .resolved bb ∈ pieces cut [] entries ∧ [mne, next] <:+: bb.mnemonics := by
  have runs := pair_infix_splitBy (fun first second => !cut first second) (entries.filterMap mnemonic?) mne next
  simp only [Bool.not_eq_true'] at runs
  rw [Follows, ← runs]
  constructor
  · rintro ⟨part, member, adjacent⟩
    exact ⟨.fromVec part, (resolved_mem_pieces entries _).mpr ⟨part, member, rfl⟩, adjacent⟩
  · rintro ⟨bb, member, adjacent⟩
    obtain ⟨part, inside, rfl⟩ := (resolved_mem_pieces entries bb).mp member
    exact ⟨part, inside, adjacent⟩

theorem block_member {bb : BasicBlock} (member : .resolved bb ∈ pieces cut [] entries) {mne : Mnemonic}
    (inside : mne ∈ bb.mnemonics) : .mnemonic mne ∈ entries := by
  obtain ⟨part, run, rfl⟩ := (resolved_mem_pieces entries bb).mp member
  have whole := infix_flatten run
  rw [List.flatten_splitBy] at whole
  exact (mem_mnemonics mne).mp (whole.subset inside)

theorem block_nonempty {bb : BasicBlock} (member : .resolved bb ∈ pieces cut [] entries) : bb.mnemonics ≠ [] := by
  obtain ⟨part, run, rfl⟩ := (resolved_mem_pieces entries bb).mp member
  exact List.ne_nil_of_mem_splitBy run

theorem block_exists (cut : Mnemonic → Mnemonic → Bool) {mne : Mnemonic} (member : .mnemonic mne ∈ entries) :
    ∃ bb, .resolved bb ∈ pieces cut [] entries ∧ mne ∈ bb.mnemonics := by
  rw [← mem_mnemonics, ← List.flatten_splitBy (fun first second => !cut first second) (entries.filterMap mnemonic?),
    List.mem_flatten] at member
  obtain ⟨part, run, inside⟩ := member
  exact ⟨.fromVec part, (resolved_mem_pieces entries _).mpr ⟨part, run, rfl⟩, inside⟩

theorem Sorted.mnemonics (table : Sorted entries) :
    (entries.filterMap mnemonic?).Pairwise fun first second => first.area.start < second.area.start := by
  have ascending := table.ascending
  rw [List.pairwise_map] at ascending
  rw [List.pairwise_filterMap]
  refine ascending.imp ?_
  intro first second less mne found next found'
  cases first with
  | error _ _ => cases found
  | mnemonic _ =>
    cases second with
    | error _ _ => cases found'
    | mnemonic _ => cases found; cases found'; exact less

theorem Sorted.next_unique (table : Sorted entries) {mne next other : Mnemonic}
    (pair : [mne, next] <:+: entries.filterMap mnemonic?) (pair' : [mne, other] <:+: entries.filterMap mnemonic?) :
    next.area.start = other.area.start := by
  rw [pair_infix_sorted (fun _ _ less => UInt64.lt_asymm less) table.mnemonics] at pair pair'
  have above : ¬ other.area.start < next.area.start := fun less => pair.2.2.2 other pair'.2.1 ⟨pair'.2.2.1, less⟩
  have below : ¬ next.area.start < other.area.start := fun less => pair'.2.2.2 next pair.2.1 ⟨pair.2.2.1, less⟩
  exact UInt64.le_antisymm (UInt64.not_lt.mp above) (UInt64.not_lt.mp below)

theorem Sorted.prev_unique (table : Sorted entries) {mne other next : Mnemonic}
    (pair : [mne, next] <:+: entries.filterMap mnemonic?) (pair' : [other, next] <:+: entries.filterMap mnemonic?) :
    mne.area.start = other.area.start := by
  rw [pair_infix_sorted (fun _ _ less => UInt64.lt_asymm less) table.mnemonics] at pair pair'
  have above : ¬ mne.area.start < other.area.start := fun less => pair.2.2.2 other pair'.1 ⟨less, pair'.2.2.1⟩
  have below : ¬ other.area.start < mne.area.start := fun less => pair'.2.2.2 mne pair.1 ⟨less, pair.2.2.1⟩
  exact UInt64.le_antisymm (UInt64.not_lt.mp below) (UInt64.not_lt.mp above)

theorem block_ascending (table : Sorted entries) {bb : BasicBlock} (member : .resolved bb ∈ pieces cut [] entries) :
    bb.mnemonics.Pairwise fun first second => first.area.start < second.area.start := by
  obtain ⟨part, run, rfl⟩ := (resolved_mem_pieces entries bb).mp member
  have whole := infix_flatten run
  rw [List.flatten_splitBy] at whole
  exact table.mnemonics.sublist whole.sublist

theorem Sorted.nodup (table : Sorted entries) : (entries.map address).Nodup :=
  table.ascending.imp UInt64.ne_of_lt

theorem Sorted.unique (table : Sorted entries) {first second : MnemonicOrError} (member : first ∈ entries)
    (member' : second ∈ entries) (same : address first = address second) : first = second :=
  List.inj_on_of_nodup_map table.nodup member member' same

theorem Sorted.addresses_nodup (table : Sorted entries) (cut : Mnemonic → Mnemonic → Bool) : ((pieces cut [] entries).flatMap addresses).Nodup :=
  (addresses_pieces entries).nodup_iff.mpr table.nodup

theorem block_nodup (table : Sorted entries) {bb : BasicBlock} (member : .resolved bb ∈ pieces cut [] entries) :
    bb.mnemonics.Nodup := by
  have nodup := (List.nodup_flatMap.mp (table.addresses_nodup cut)).1 _ member
  exact List.Nodup.of_map _ nodup

theorem Sorted.vertex_unique (table : Sorted entries) {first second : ControlFlowTarget} {addr : UInt64}
    (member : first ∈ pieces cut [] entries) (member' : second ∈ pieces cut [] entries)
    (left : addr ∈ addresses first) (right : addr ∈ addresses second) : first = second := by
  obtain ⟨i, inside, rfl⟩ := List.getElem_of_mem member
  obtain ⟨j, inside', rfl⟩ := List.getElem_of_mem member'
  have same := index_unique (table.addresses_nodup cut) (List.getElem?_eq_getElem inside)
    (List.getElem?_eq_getElem inside') left right
  subst same
  rfl

theorem Sorted.block_unique (table : Sorted entries) {first second : BasicBlock} {mne : Mnemonic}
    (member : .resolved first ∈ pieces cut [] entries) (member' : .resolved second ∈ pieces cut [] entries)
    (left : mne ∈ first.mnemonics) (right : mne ∈ second.mnemonics) : first = second := by
  have first_ : mne.area.start ∈ addresses (.resolved first) := List.mem_map_of_mem left
  have second_ : mne.area.start ∈ addresses (.resolved second) := List.mem_map_of_mem right
  have same := table.vertex_unique member member' first_ second_
  cases same
  rfl

theorem Sorted.pieces_nodup (table : Sorted entries) : (pieces cut [] entries).Nodup := by
  refine (List.nodup_flatMap.mp (table.addresses_nodup cut)).2.imp_of_mem ?_
  rintro lb _ member - disjoint rfl
  have nothing : addresses lb = [] := by
    rw [List.eq_nil_iff_forall_not_mem]
    exact fun addr inside => disjoint inside inside
  cases lb with
  | resolved bb => exact block_nonempty member (List.map_eq_nil_iff.mp nothing)
  | failed pos msg => cases nothing
  | unresolved target => exact unresolved_notMem_pieces [] entries target member

theorem leaves_address {lb : ControlFlowTarget} {addr : UInt64} (member : lb ∈ pieces cut [] entries)
    (leaving : leaves addr lb = true) : addr ∈ addresses lb := by
  cases lb with
  | resolved bb =>
    cases last : bb.mnemonics.getLast? with
    | none => simp [leaves, last] at leaving
    | some mne =>
      simp only [leaves, last, Option.map_some, Option.getD_some, beq_iff_eq] at leaving
      exact List.mem_map.mpr ⟨mne, List.mem_of_getLast? last, leaving⟩
  | failed pos msg => exact List.mem_singleton.mpr (beq_iff_eq.mp leaving).symm
  | unresolved target => exact absurd member (unresolved_notMem_pieces [] entries target)

theorem leaves_iff (table : Sorted entries) {mne : Mnemonic} (member : .mnemonic mne ∈ entries) :
    (∃ lb ∈ pieces cut [] entries, leaves mne.area.start lb = true) ↔ ¬ ∃ next, Follows cut entries mne next := by
  obtain ⟨bb, inside, listed⟩ := block_exists cut member
  constructor
  · rintro ⟨lb, inside', leaving⟩ ⟨next, follows⟩
    have same := table.vertex_unique inside inside' (List.mem_map_of_mem listed) (leaves_address inside' leaving)
    subst lb
    obtain ⟨other, inside'', adjacent⟩ := (follows_iff mne next).mp follows
    have equal := table.block_unique inside inside'' listed (adjacent.subset (by simp))
    subst other
    cases last : bb.mnemonics.getLast? with
    | none => simp [leaves, last] at leaving
    | some final =>
      simp only [leaves, last, Option.map_some, Option.getD_some, beq_iff_eq] at leaving
      have entry := block_member inside (List.mem_of_getLast? last)
      cases table.unique entry member leaving
      exact not_pair_of_getLast (block_nodup table inside) last next adjacent
  · intro nothing
    refine ⟨.resolved bb, inside, ?_⟩
    have last := (getLast_or_pair listed).resolve_right fun pair => by
      obtain ⟨next, adjacent⟩ := pair
      exact nothing ⟨next, (follows_iff mne next).mpr ⟨bb, inside, adjacent⟩⟩
    simp [leaves, last]

theorem pieces_congr {cut cut' : Mnemonic → Mnemonic → Bool} (bblock : List Mnemonic) (entries : List MnemonicOrError)
    (same : ∀ first second, [first, second] <:+: bblock ++ entries.filterMap mnemonic? →
      cut first second = cut' first second) :
    pieces cut bblock entries = pieces cut' bblock entries := by
  induction entries generalizing bblock with
  | nil => rfl
  | cons entry entries ih =>
    cases entry with
    | error pos msg =>
      rw [pieces, pieces, ih bblock same]
    | mnemonic mne =>
      have equal : bblock.getLast?.any (cut · mne) = bblock.getLast?.any (cut' · mne) := by
        cases last : bblock.getLast? with
        | none => rfl
        | some prev =>
          obtain ⟨before, rfl⟩ := List.getLast?_eq_some_iff.mp last
          exact same prev mne ⟨before, entries.filterMap mnemonic?, by simp [mnemonic?]⟩
      rw [pieces, pieces, equal]
      split
      · rw [ih [mne]]
        intro first second pair
        refine same first second (pair.trans ?_)
        exact ⟨bblock, [], by simp [mnemonic?]⟩
      · rw [ih (bblock ++ [mne])]
        intro first second pair
        exact same first second (by simpa [mnemonic?] using pair)

variable (adjacent : ∀ first second, cut first second = false → first.area.stop = second.area.start)
include adjacent

theorem block_contiguous (table : Sorted entries) {bb : BasicBlock} (member : .resolved bb ∈ pieces cut [] entries) :
    Contiguous bb.mnemonics := by
  refine ⟨fun mne inside => table.positive mne (block_member member inside), ?_⟩
  obtain ⟨part, run, rfl⟩ := (resolved_mem_pieces entries bb).mp member
  exact (List.isChain_of_mem_splitBy run).imp fun first second joined => adjacent first second (by simpa using joined)

theorem block_area (table : Sorted entries) {bb : BasicBlock} (member : .resolved bb ∈ pieces cut [] entries) :
    bb.area = ⟨(bb.mnemonics.head (block_nonempty member)).area.start,
      (bb.mnemonics.getLast (block_nonempty member)).area.stop⟩ := by
  have contiguous := block_contiguous adjacent table member
  obtain ⟨part, run, rfl⟩ := (resolved_mem_pieces entries bb).mp member
  exact fromVec_area (block_nonempty member) contiguous

theorem block_mem_area (table : Sorted entries) {bb : BasicBlock} (member : .resolved bb ∈ pieces cut [] entries)
    (addr : UInt64) :
    (bb.area.start ≤ addr ∧ addr < bb.area.stop) ↔
      ∃ mne ∈ bb.mnemonics, mne.area.start ≤ addr ∧ addr < mne.area.stop := by
  have contiguous := block_contiguous adjacent table member
  obtain ⟨part, run, rfl⟩ := (resolved_mem_pieces entries bb).mp member
  exact mem_area (block_nonempty member) contiguous addr

theorem block_start (table : Sorted entries) {bb : BasicBlock} (member : .resolved bb ∈ pieces cut [] entries) :
    ∃ mne, bb.mnemonics.head? = some mne ∧ bb.area.start = mne.area.start := by
  refine ⟨_, List.head?_eq_some_head (block_nonempty member), ?_⟩
  rw [block_area adjacent table member]

theorem enters_address (table : Sorted entries) {lb : ControlFlowTarget} {value : UInt64} {size : Nat}
    (member : lb ∈ pieces cut [] entries) (entering : enters (.constant value size) lb = true) :
    value ∈ addresses lb := by
  cases lb with
  | resolved bb =>
    obtain ⟨mne, first, area⟩ := block_start adjacent table member
    simp only [enters, area, beq_iff_eq] at entering
    exact List.mem_map.mpr ⟨mne, List.mem_of_head? first, entering⟩
  | failed pos msg => exact List.mem_singleton.mpr (beq_iff_eq.mp entering).symm
  | unresolved target => exact absurd member (unresolved_notMem_pieces [] entries target)

theorem enters_iff (table : Sorted entries) {mne : Mnemonic} (member : .mnemonic mne ∈ entries) (size : Nat) :
    (∃ lb ∈ pieces cut [] entries, enters (.constant mne.area.start size) lb = true) ↔
      ¬ ∃ prev, Follows cut entries prev mne := by
  obtain ⟨bb, inside, listed⟩ := block_exists cut member
  obtain ⟨head, first, area⟩ := block_start adjacent table inside
  constructor
  · rintro ⟨lb, inside', entering⟩ ⟨prev, follows⟩
    have same := table.vertex_unique inside inside' (List.mem_map_of_mem listed)
      (enters_address adjacent table inside' entering)
    subst lb
    obtain ⟨other, inside'', pair⟩ := (follows_iff prev mne).mp follows
    have equal := table.block_unique inside inside'' listed (pair.subset (by simp))
    subst other
    simp only [enters, area, beq_iff_eq] at entering
    cases table.unique (block_member inside (List.mem_of_head? first)) member entering
    exact not_pair_of_head (block_nodup table inside) first prev pair
  · intro nothing
    refine ⟨.resolved bb, inside, ?_⟩
    have begins := (head_or_pair listed).resolve_right fun before => by
      obtain ⟨prev, pair⟩ := before
      exact nothing ⟨prev, (follows_iff prev mne).mpr ⟨bb, inside, pair⟩⟩
    rw [first] at begins
    cases begins
    simp [enters, area]

theorem block_single (table : Sorted entries) {bb : BasicBlock} (member : .resolved bb ∈ pieces cut [] entries)
    (leaving : leaves bb.area.start (.resolved bb) = true) : ∃ mne, bb.mnemonics = [mne] := by
  obtain ⟨first, head, area⟩ := block_start adjacent table member
  cases last : bb.mnemonics.getLast? with
  | none => simp [leaves, last] at leaving
  | some final =>
    simp only [leaves, last, Option.map_some, Option.getD_some, beq_iff_eq, area] at leaving
    cases table.unique (block_member member (List.mem_of_getLast? last))
      (block_member member (List.mem_of_head? head)) leaving
    cases ms : bb.mnemonics with
    | nil => simp [ms] at head
    | cons mne rest =>
      rw [ms] at head
      cases head
      cases rest with
      | nil => exact ⟨_, rfl⟩
      | cons next rest =>
        refine absurd ?_ (not_pair_of_getLast (block_nodup table member) last next)
        exact ⟨[], rest, by simp [ms]⟩

end
end Panopticon.Proofs.Sweep
