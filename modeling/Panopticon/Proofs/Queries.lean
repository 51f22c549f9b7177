import Panopticon.Proofs.Recount

/-! What a freshly disassembled function answers about itself: which addresses it contains,
which block lies at an address and how long it is. -/

open Panopticon.Function

namespace Panopticon.Proofs.Queries
open Library AdjacencyList Worklist Sweep Connect Layout Recovery Size Recount

variable {decode : UInt64 → Except String Match} {start : UInt64}

/-- Some mnemonic in a basic block covers `a`. -/
def Covers (f : Function) (order : Enumeration Nat) (a : UInt64) : Prop :=
  ∃ bb ∈ f.basicBlocks order, ∃ mne ∈ bb.mnemonics, mne.area.start ≤ a ∧ a < mne.area.stop

/-- The queries describe the blocks. -/
structure Describes (f : Function) (order : Enumeration Nat) : Prop where
  contains : ∀ a, f.contains order a = true ↔ Covers f order a
  found : ∀ a, (f.findBasicBlockAt order a).isSome ↔ Covers f order a
  length : f.len = (((f.basicBlocks order).flatMap BasicBlock.mnemonics).map Mnemonic.size).sum

/-- The mnemonics decoded cover the addresses up to the start of one that begins a block, and no others. -/
def Dense (decode : UInt64 → Except String Match) (start : UInt64) : Prop :=
  ∃ last, Decoded decode start last ∧ (∀ prev, ¬FallsThrough decode start prev last) ∧
    ∀ a, (∃ mne, Decoded decode start mne ∧ mne.area.start ≤ a ∧ a < mne.area.stop) ↔ a ≤ last.area.start

section
variable {Region : Type} {arch : Architecture Region} {orders : HashOrders} {fuel : Nat} {region : Region}
  {regionName : String} {name : Option String} {init : arch.Configuration} {uuid : Uuid} {f : Function}

/-- A new function is made of the run that filled the tables. -/
structure Built (decode : UInt64 → Except String Match) (orders : HashOrders) (start : UInt64) (f : Function)
    (work : Worklist) (turns : List (Nat × Worklist)) : Prop where
  run : Turns (turn decode orders.todo) 0 (freshWork orders start) turns work
  complete : Complete decode start work
  size : f.size = work.size
  lists : ∃ labels arcs jumps, ConnectsAll (placed decode start work) jumps labels arcs ∧ f.cflowGraph.Lists labels arcs
  entry : ∃ v bb, f.cflowGraph.vertexLabel v = some (.resolved bb)

theorem new_built (single : SingleMnemonic (arch.decode region · init))
    (recovered : Function.new arch orders fuel start region regionName name init uuid = some (.ok f)) :
    ∃ work turns, Built (arch.decode region · init) orders start f work turns := by
  simp only [Function.new, disassemble, Option.map_map, Option.map_eq_some_iff] at recovered
  obtain ⟨work, finished, result⟩ := recovered
  have whole := complete single orders finished
  obtain ⟨turns, run⟩ := turns_of_loop finished
  obtain ⟨labels, arcs, connects, lists⟩ := assembled whole orders
  simp only [Function.comp_apply] at result
  cases found : (assembleCflowGraph orders work.mnemonics work.bySource work.byDestination start).findVertex
      orders.vertices (isEntry start) with
  | none =>
    rw [found] at result
    cases result
  | some entryPoint =>
    rw [found] at result
    cases result
    obtain ⟨lb, label, isStart⟩ := findVertex_some found
    refine ⟨work, turns, run, whole, rfl, ⟨labels, arcs, _, connects, lists⟩, entryPoint, ?_⟩
    cases lb with
    | resolved bb => exact ⟨bb, label⟩
    | unresolved _ | failed _ _ => cases isStart

end

theorem mem_basicBlocks {f : Function} (order : Enumeration Nat) (bb : BasicBlock) :
    bb ∈ f.basicBlocks order ↔ ∃ v, f.cflowGraph.vertexLabel v = some (.resolved bb) := by
  simp only [basicBlocks, List.mem_filterMap, mem_vertices]
  constructor
  · intro holds
    obtain ⟨lb, ⟨v, _, label⟩, same⟩ := holds
    cases lb with
    | resolved other =>
      cases same
      exact ⟨v, label⟩
    | unresolved _ | failed _ _ => cases same
  · intro holds
    obtain ⟨v, label⟩ := holds
    exact ⟨_, ⟨v, by simp [label], label⟩, rfl⟩

section
variable {orders : HashOrders} {f : Function} {work : Worklist} {turns : List (Nat × Worklist)}
  (single : SingleMnemonic decode) (built : Built decode orders start f work turns) (order : Enumeration Nat)
include built

theorem Built.mem_blocks (bb : BasicBlock) : bb ∈ f.basicBlocks order ↔ .resolved bb ∈ placed decode start work := by
  obtain ⟨labels, arcs, jumps, connects, lists⟩ := built.lists
  rw [mem_basicBlocks]
  simp only [lists.vertexLabel]
  constructor
  · intro holds
    obtain ⟨v, label⟩ := holds
    exact List.mem_of_getElem? (placed_of_label connects label (by simp))
  · intro member
    obtain ⟨v, label⟩ := List.mem_iff_getElem?.mp member
    exact ⟨v, label_of_placed connects label⟩

include single

theorem Built.covers_iff (a : UInt64) :
    Covers f order a ↔ ∃ mne, Decoded decode start mne ∧ mne.area.start ≤ a ∧ a < mne.area.stop := by
  constructor
  · intro holds
    obtain ⟨bb, member, mne, inside, covered⟩ := holds
    have entry := block_member ((built.mem_blocks order bb).mp member) inside
    exact ⟨mne, (mnemonic_mem single built.complete mne).mp entry, covered⟩
  · intro holds
    obtain ⟨mne, decoded, covered⟩ := holds
    obtain ⟨bb, member, inside⟩ := block_exists (cut work start) ((mnemonic_mem single built.complete mne).mpr decoded)
    exact ⟨bb, (built.mem_blocks order bb).mpr member, mne, inside, covered⟩

theorem Built.found_iff (a : UInt64) : (f.findBasicBlockAt order a).isSome ↔ Covers f order a := by
  rw [findBasicBlockAt, List.find?_isSome]
  constructor
  · intro holds
    obtain ⟨bb, member, inside⟩ := holds
    simp only [Bool.and_eq_true, decide_eq_true_eq] at inside
    exact ⟨bb, member, (block_mem_area cut_adjacent (sorted single work) ((built.mem_blocks order bb).mp member) a).mp inside⟩
  · intro holds
    obtain ⟨bb, member, covered⟩ := holds
    refine ⟨bb, member, ?_⟩
    simp only [Bool.and_eq_true, decide_eq_true_eq]
    exact (block_mem_area cut_adjacent (sorted single work) ((built.mem_blocks order bb).mp member) a).mpr covered

/-- `contains` answers for all addresses up to the start of some block. -/
theorem Built.contains_iff (a : UInt64) : f.contains order a = true ↔
    ∃ mne, Decoded decode start mne ∧ (∀ prev, ¬FallsThrough decode start prev mne) ∧ a ≤ mne.area.start := by
  have table := sorted single work
  simp only [Function.contains, List.any_eq_true, Bool.and_eq_true, decide_eq_true_eq]
  constructor
  · intro holds
    obtain ⟨bb, member, below, _⟩ := holds
    have inside := (built.mem_blocks order bb).mp member
    obtain ⟨mne, head, area⟩ := block_start cut_adjacent table inside
    have decoded := (mnemonic_mem single built.complete mne).mp (block_member inside (List.mem_of_head? head))
    refine ⟨mne, decoded, ?_, by rwa [← area]⟩
    have enters : ∃ lb ∈ placed decode start work, enters (.constant mne.area.start 64) lb = true :=
      ⟨_, inside, by simp [Function.enters, area]⟩
    exact not_exists.mp ((begins_iff single built.complete decoded 64).mp enters)
  · intro holds
    obtain ⟨mne, decoded, first, below⟩ := holds
    obtain ⟨lb, inside, entering⟩ := (begins_iff single built.complete decoded 64).mpr (not_exists.mpr first)
    have address := enters_address cut_adjacent table inside entering
    cases lb with
    | resolved bb =>
      have same : bb.area.start = mne.area.start := by simpa [Function.enters] using entering
      have contiguous := block_contiguous cut_adjacent table inside
      have proper := contiguous.start_lt_stop (block_nonempty inside)
      have area := block_area cut_adjacent table inside
      refine ⟨bb, (built.mem_blocks order bb).mpr inside, by rwa [same], ?_⟩
      rw [area] at same ⊢
      exact UInt64.lt_of_le_of_lt (same ▸ below) proper
    | failed pos msg =>
      have error := (failed_mem_pieces [] _ _ _).mp inside
      cases table.unique error ((mnemonic_mem single built.complete mne).mpr decoded) (List.mem_singleton.mp address).symm
    | unresolved target => exact absurd inside (unresolved_notMem_pieces [] _ target)

theorem Built.exists_last : ∃ last, Decoded decode start last ∧ (∀ prev, ¬FallsThrough decode start prev last) ∧
    ∀ mne, Decoded decode start mne → (∀ prev, ¬FallsThrough decode start prev mne) → mne.area.start ≤ last.area.start := by
  classical
  have begins_iff : ∀ mne, (.mnemonic mne ∈ entries decode work ∧ ∀ prev, ¬FallsThrough decode start prev mne) ↔
      Decoded decode start mne ∧ ∀ prev, ¬FallsThrough decode start prev mne :=
    fun mne => and_congr_left fun _ => mnemonic_mem single built.complete mne
  obtain ⟨v, bb, label⟩ := built.entry
  have member := (built.mem_blocks .canonical bb).mp ((mem_basicBlocks .canonical bb).mpr ⟨v, label⟩)
  obtain ⟨first, head, area⟩ := block_start cut_adjacent (sorted single work) member
  have decoded := (mnemonic_mem single built.complete first).mp (block_member member (List.mem_of_head? head))
  have enters : ∃ lb ∈ placed decode start work, enters (.constant first.area.start 64) lb = true :=
    ⟨_, member, by simp [Function.enters, area]⟩
  have begins := not_exists.mp ((Layout.begins_iff single built.complete decoded 64).mp enters)
  let firsts := (((entries decode work).filterMap mnemonic?).filter
    fun mne => decide (∀ prev, ¬FallsThrough decode start prev mne)).toFinset
  have mem_firsts : ∀ mne, mne ∈ firsts ↔ Decoded decode start mne ∧ ∀ prev, ¬FallsThrough decode start prev mne := by
    intro mne
    rw [← begins_iff]
    simp only [firsts, List.mem_toFinset, List.mem_filter, mem_mnemonics, decide_eq_true_eq]
  obtain ⟨last, inside, highest⟩ := firsts.exists_max_image (fun mne => mne.area.start.toNat)
    ⟨first, (mem_firsts first).mpr ⟨decoded, begins⟩⟩
  obtain ⟨decoded', begins'⟩ := (mem_firsts last).mp inside
  exact ⟨last, decoded', begins', fun mne decoded begins => UInt64.le_iff_toNat_le.mpr
    (highest mne ((mem_firsts mne).mpr ⟨decoded, begins⟩))⟩

/-- `contains` is right about all addresses exactly when the mnemonics lie densely. -/
theorem Built.dense_iff : (∀ a, f.contains order a = true ↔ Covers f order a) ↔ Dense decode start := by
  constructor
  · intro right
    obtain ⟨last, decoded, begins, highest⟩ := built.exists_last single
    refine ⟨last, decoded, begins, fun a => ?_⟩
    rw [← built.covers_iff single order, ← right, built.contains_iff single order]
    constructor
    · intro holds
      obtain ⟨mne, decoded, begins, below⟩ := holds
      exact UInt64.le_trans below (highest mne decoded begins)
    · intro below
      exact ⟨last, decoded, begins, below⟩
  · intro holds a
    obtain ⟨last, decoded, begins, dense⟩ := holds
    rw [built.covers_iff single order, dense, built.contains_iff single order]
    constructor
    · intro holds
      obtain ⟨mne, decoded, _, below⟩ := holds
      have positive := (sorted single work).positive mne ((mnemonic_mem single built.complete mne).mpr decoded)
      have inside := (dense mne.area.start).mp ⟨mne, decoded, UInt64.le_refl _, positive⟩
      exact UInt64.le_trans below inside
    · intro below
      exact ⟨last, decoded, begins, below⟩

end

/-- What has been counted is counted once for each address decoded and again for each address taken again. -/
theorem turn_counts (single : SingleMnemonic decode) {todo : Nat → Enumeration UInt64} {n : Nat} {work next : Worklist}
    (valid : Invariant decode start work) (step : turn decode todo n work = some next) :
    Invariant decode start next ∧ (next.calls.map (sizeAt decode)).sum + countedAgain decode todo (n, work) =
      (work.calls.map (sizeAt decode)).sum + countedIn decode todo (n, work) := by
  refine ⟨turn_preserves single valid step, ?_⟩
  obtain ⟨addr, -, drawn, rfl⟩ := turn_draws step
  simp only [countedIn, countedAgain, taken, drawn, Option.map_some, Option.getD_some]
  rcases visit_cases single valid addr (work.todo.erase addr) with ⟨present, size, same⟩ | ⟨absent, same⟩
  · rw [same, if_pos present]
  · obtain ⟨-, calls, -⟩ := decodeAt_facts single addr { work with todo := work.todo.erase addr }
    rw [same, if_neg absent, calls, counted_eq single valid]
    simp

/-- The size of a new function is the length of its mnemonics and of those at addresses taken again. -/
theorem Built.size_eq {orders : HashOrders} {f : Function} {work : Worklist} {turns : List (Nat × Worklist)}
    (single : SingleMnemonic decode) (built : Built decode orders start f work turns) :
    f.size = (work.calls.map (sizeAt decode)).sum + (turns.map (countedAgain decode orders.todo)).sum := by
  have total := turns_size built.run (initial_keyed _ _ _ _)
  have fresh := built.run.total (Invariant decode start) (fun work => (work.calls.map (sizeAt decode)).sum)
    (fun turn => countedIn decode orders.todo turn - countedAgain decode orders.todo turn) (fun n work next valid step => by
      obtain ⟨kept, added⟩ := turn_counts single valid step
      refine ⟨kept, ?_⟩
      rw [← add_sub_assoc, ← added, add_sub_cancel_right]) (initial orders start 0)
  have nothing : (freshWork orders start).size = 0 ∧ (freshWork orders start).calls = [] := ⟨rfl, rfl⟩
  rw [nothing.1, zero_add] at total
  rw [nothing.2, List.map_nil, List.sum_nil, zero_add] at fresh
  rw [built.size, total, fresh, ← List.sum_map_add]
  simp only [sub_add_cancel]

private theorem filterMap_contents (labels : List ControlFlowTarget) :
    (labels.filterMap block?).flatMap BasicBlock.mnemonics = (labels.flatMap contents).filterMap mnemonic? := by
  induction labels with
  | nil => rfl
  | cons lb labels ih =>
    cases lb with
    | resolved bb =>
      have all : (bb.mnemonics.map MnemonicOrError.mnemonic).filterMap mnemonic? = bb.mnemonics := by
        simp [List.filterMap_map, Function.comp_def, mnemonic?]
      simp [block?, contents, ih, all]
    | unresolved target => simpa [List.filterMap_cons, block?, contents] using ih
    | failed pos msg => simpa [List.filterMap_cons, block?, contents, mnemonic?] using ih

private theorem sum_sizeAt (addrs : List UInt64) :
    (((addrs.map (entryAt decode)).filterMap mnemonic?).map Mnemonic.size).sum = (addrs.map (sizeAt decode)).sum := by
  induction addrs with
  | nil => rfl
  | cons addr addrs ih =>
    rw [List.map_cons, List.filterMap_cons, List.map_cons, List.sum_cons, ← ih, sizeAt]
    cases entryAt decode addr with
    | mnemonic mne => simp only [mnemonic?, List.map_cons, List.sum_cons]
    | error pos msg => simp only [mnemonic?, zero_add]

theorem Built.blocks_length {orders : HashOrders} {f : Function} {work : Worklist} {turns : List (Nat × Worklist)}
    (built : Built decode orders start f work turns) (order : Enumeration Nat) :
    (((f.basicBlocks order).flatMap BasicBlock.mnemonics).map Mnemonic.size).sum = (work.calls.map (sizeAt decode)).sum := by
  obtain ⟨labels, arcs, jumps, connects, lists⟩ := built.lists
  obtain ⟨extras, rfl, unresolved⟩ := connects.grows
  have blocks : (f.basicBlocks order).Perm ((placed decode start work).filterMap block?) := by
    have nothing : extras.filterMap block? = [] := by
      rw [List.filterMap_eq_nil_iff]
      intro lb member
      obtain ⟨target, rfl⟩ := unresolved lb member
      rfl
    have perm := (lists.labels_perm order).filterMap block?
    rw [List.filterMap_append, nothing, List.append_nil] at perm
    exact perm
  have mnemonics := blocks.flatMap_right BasicBlock.mnemonics
  rw [filterMap_contents] at mnemonics
  have held : ((placed decode start work).flatMap contents).Perm (entries decode work) := by
    simpa using contents_pieces [] (entries decode work)
  have decoded := held.filterMap mnemonic?
  have calls : work.mnemonics.keys.Perm work.calls := by
    rw [List.perm_ext_iff_of_nodup Std.ExtTreeMap.nodup_keys built.complete.calls.1]
    intro addr
    rw [built.complete.calls.2, Std.ExtTreeMap.mem_keys]
  have listed : entries decode work = work.mnemonics.keys.map (entryAt decode) := by
    rw [entries, ← Std.ExtTreeMap.map_fst_toList_eq_keys, List.map_map]
    rfl
  rw [((mnemonics.trans decoded).map Mnemonic.size).sum_eq, listed, sum_sizeAt, (calls.map (sizeAt decode)).sum_eq]

section
variable {Region : Type} {arch : Architecture Region} {orders : HashOrders} {fuel : Nat} {region : Region}
  {regionName : String} {name : Option String} {init : arch.Configuration} {uuid : Uuid} {f : Function}

private theorem new_recovers (single : SingleMnemonic (arch.decode region · init))
    (recovered : Function.new arch orders fuel start region regionName name init uuid = some (.ok f))
    (todo : Nat → Enumeration UInt64) : ∃ fuel f,
      Function.new arch { orders with todo } fuel start region regionName name init uuid = some (.ok f) := by
  obtain ⟨enough, work, finished⟩ := terminates single { orders with todo } start 0
  obtain ⟨result, found⟩ : ∃ result,
      Function.new arch { orders with todo } enough start region regionName name init uuid = some result := by
    simp only [Function.new, disassemble, finished, Option.map_some]
    exact ⟨_, rfl⟩
  have same := new_graph_eq single recovered found rfl rfl rfl
  cases result with
  | ok other => exact ⟨enough, other, found⟩
  | error message => cases same

theorem Built.length_eq {work : Worklist} {turns : List (Nat × Worklist)} (single : SingleMnemonic decode)
    (built : Built decode orders start f work turns) (order : Enumeration Nat) :
    f.len = (((f.basicBlocks order).flatMap BasicBlock.mnemonics).map Mnemonic.size).sum +
      UInt64.ofNat (recounted decode orders.todo turns) := by
  rw [built.blocks_length order, len, built.size_eq single, ofNat_recounted]

end

/-- An instruction that continues at either of two others. -/
def threeBlocks : Architecture Unit := listing
  [instruction 0 1 [(.newU64 1, .predicate (.var "z" none 0 1) true), (.newU64 2, .predicate (.var "z" none 0 1) false)],
   instruction 1 2 [], instruction 2 3 []]

theorem threeBlocks_jumps {addr target : UInt64} (jumps : Jumps (threeBlocks.decode () · ()) addr target) :
    addr = 0 ∧ (target = 1 ∨ target = 2) := by
  obtain ⟨origin, size, guard, member⟩ := jumps
  unfold jumpsAt at member
  split at member
  · next matched decoded =>
    have listed := listing_mem decoded
    simp only [instruction, List.mem_cons, Prod.mk.injEq, List.not_mem_nil, or_false] at listed
    rcases listed with ⟨here, rfl⟩ | ⟨-, rfl⟩ | ⟨-, rfl⟩
    · refine ⟨here, ?_⟩
      simp only [List.map_cons, List.mem_cons, Prod.mk.injEq, Rvalue.newU64, Rvalue.constant.injEq] at member
      exact member.imp (fun first => first.2.1.1) fun second => (second.resolve_right (by simp)).2.1.1
    · cases member
    · cases member
  · cases member

private theorem threeBlocks_area {mne : Mnemonic} (decoded : Decoded (threeBlocks.decode () · ()) 0 mne) :
    mne.area = ⟨0, 1⟩ ∨ mne.area = ⟨1, 2⟩ ∨ mne.area = ⟨2, 3⟩ := by
  obtain ⟨-, matched, decoded, mnemonics⟩ := decoded
  have listed := listing_mem decoded
  simp only [instruction, List.mem_cons, Prod.mk.injEq, List.not_mem_nil, or_false] at listed
  rcases listed with ⟨-, rfl⟩ | ⟨-, rfl⟩ | ⟨-, rfl⟩ <;> cases mnemonics <;> simp

private theorem threeBlocks_dense : Dense (threeBlocks.decode () · ()) 0 := by
  have begin : Reached (threeBlocks.decode () · ()) 0 0 := .start
  have jumpOne : (0, .constant 1 64, .predicate (.var "z" none 0 1) true) ∈ jumpsAt (threeBlocks.decode () · ()) 0 := by
    decide
  have jumpTwo : (0, .constant 2 64, .predicate (.var "z" none 0 1) false) ∈ jumpsAt (threeBlocks.decode () · ()) 0 := by
    decide
  have decodes (mne : Mnemonic) (reached : Reached (threeBlocks.decode () · ()) 0 mne.area.start)
      (entry : entryAt (threeBlocks.decode () · ()) mne.area.start = .mnemonic mne) :
      Decoded (threeBlocks.decode () · ()) 0 mne :=
    (decoded_iff (listing_single _ (by decide)) mne).mpr ⟨reached, entry⟩
  have first := decodes ⟨⟨0, 1⟩, "op", [], [], []⟩ begin (by decide)
  have second := decodes ⟨⟨1, 2⟩, "op", [], [], []⟩ (begin.target jumpOne) (by decide)
  have third := decodes ⟨⟨2, 3⟩, "op", [], [], []⟩ (begin.target jumpTwo) (by decide)
  refine ⟨⟨⟨2, 3⟩, "op", [], [], []⟩, third, fun prev falls => ?_, fun a => ⟨fun covered => ?_, fun below => ?_⟩⟩
  · have same := falls.incoming 0 begin _ _ _ jumpTwo
    have only := falls.outgoing _ _ _ _ (same ▸ jumpOne)
    cases only
  · obtain ⟨mne, decoded, -, before⟩ := covered
    rcases threeBlocks_area decoded with area | area | area <;> rw [area] at before <;> grind
  · have cases : a = 0 ∨ a = 1 ∨ a = 2 := by grind
    rcases cases with rfl | rfl | rfl
    · exact ⟨_, first, by decide⟩
    · exact ⟨_, second, by decide⟩
    · exact ⟨_, third, by decide⟩

private theorem threeBlocks_once : Once (threeBlocks.decode () · ()) 0 := by
  intro target _ _
  refine ⟨fun same addr _ jumps => ?_, fun a b _ _ jumps jumps' => ?_⟩
  · rcases (threeBlocks_jumps jumps).2 with other | other <;> simp [same] at other
  · exact (threeBlocks_jumps jumps).1.trans (threeBlocks_jumps jumps').1.symm

def twoInALoop : Architecture Unit := listing
  [instruction 0 1 [(.newU64 1, .always)], instruction 1 3 [(.newU64 0, .always)]]

end Panopticon.Proofs.Queries
