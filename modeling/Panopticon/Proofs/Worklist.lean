import Panopticon.Function

/-! The worklist decodes every address reachable by constant jumps, each once, in
whatever order the addresses are drawn. The tables it leaves behind are therefore
determined by the decoder alone, up to the order of entries for one destination. -/

open Panopticon.Function

namespace Panopticon.Proofs.Worklist
open Library

variable {decode : UInt64 → Except String Match} {start : UInt64}

/-- At every address the decoder fails or returns one mnemonic of positive length
starting there, together with jumps that originate there. -/
def SingleMnemonic (decode : UInt64 → Except String Match) : Prop :=
  ∀ addr matched, decode addr = .ok matched → ∃ mne, matched.mnemonics = [mne] ∧
    mne.area.start = addr ∧ addr < mne.area.stop ∧ ∀ jump ∈ matched.jumps, jump.1 = addr

/-- An instruction that occupies `addr` up to `stop`. -/
def instruction (addr stop : UInt64) (jumps : List (Rvalue × Guard)) : UInt64 × Match :=
  (addr, ⟨[⟨⟨addr, stop⟩, "op", [], [], []⟩], jumps.map fun jump => (addr, jump)⟩)

/-- An architecture that knows a finite listing. -/
def listing (code : List (UInt64 × Match)) : Architecture Unit where
  Configuration := Unit
  decode _ addr _ := match code.lookup addr with
    | some matched => .ok matched
    | none => .error "not in the listing"

theorem listing_mem {code : List (UInt64 × Match)} {addr : UInt64} {matched : Match}
    (decoded : (listing code).decode () addr () = .ok matched) : (addr, matched) ∈ code := by
  simp only [listing] at decoded
  split at decoded
  next other found =>
    cases decoded
    obtain ⟨before, after, split, _⟩ := List.lookup_eq_some_iff.mp found
    simp [split]
  next => cases decoded

theorem listing_single (code : List (UInt64 × Match))
    (shape : ∀ entry ∈ code, ∃ mne ∈ entry.2.mnemonics, entry.2.mnemonics = [mne] ∧ mne.area.start = entry.1 ∧
      entry.1 < mne.area.stop ∧ ∀ jump ∈ entry.2.jumps, jump.1 = entry.1) :
    SingleMnemonic ((listing code).decode () · ()) := by
  intro addr matched decoded
  obtain ⟨mne, _, facts⟩ := shape (addr, matched) (listing_mem decoded)
  exact ⟨mne, facts⟩

/-- The least set that contains the start and the constant jump targets of every
mnemonic decoded inside it. -/
inductive Reached (decode : UInt64 → Except String Match) (start : UInt64) : UInt64 → Prop where
  | start : Reached decode start start
  | jump {addr matched origin target size guard} (reached : Reached decode start addr)
      (decoded : decode addr = .ok matched) (member : (origin, .constant target size, guard) ∈ matched.jumps) :
      Reached decode start target

/-- What the table of mnemonics holds for a visited address. -/
def entryAt (decode : UInt64 → Except String Match) (addr : UInt64) : MnemonicOrError :=
  match decode addr with
  | .ok matched => (matched.mnemonics.head?.map .mnemonic).getD (.error addr "Unrecognized instruction")
  | .error _ => .error addr "Unrecognized instruction"

def jumpsAt (decode : UInt64 → Except String Match) (addr : UInt64) : List (UInt64 × Rvalue × Guard) :=
  match decode addr with
  | .ok matched => matched.jumps
  | .error _ => []

theorem SingleMnemonic.origin (single : SingleMnemonic decode) {addr : UInt64} {jump : UInt64 × Rvalue × Guard}
    (member : jump ∈ jumpsAt decode addr) : jump.1 = addr := by
  unfold jumpsAt at member
  split at member
  next matched decoded =>
    obtain ⟨mne, _, _, _, origins⟩ := single addr matched decoded
    exact origins jump member
  next => cases member

theorem SingleMnemonic.entry (single : SingleMnemonic decode) (addr : UInt64) :
    (∃ mne, entryAt decode addr = .mnemonic mne ∧ mne.area.start = addr ∧ addr < mne.area.stop) ∨
      entryAt decode addr = .error addr "Unrecognized instruction" ∧ jumpsAt decode addr = [] := by
  cases decoded : decode addr with
  | error _ => exact .inr ⟨by simp [entryAt, decoded], by simp [jumpsAt, decoded]⟩
  | ok matched =>
    obtain ⟨mne, mnemonics, first, positive, _⟩ := single addr matched decoded
    exact .inl ⟨mne, by simp [entryAt, decoded, mnemonics], first, positive⟩

theorem Reached.target {addr target : UInt64} {origin size guard} (reached : Reached decode start addr)
    (member : (origin, .constant target size, guard) ∈ jumpsAt decode addr) : Reached decode start target := by
  unfold jumpsAt at member
  split at member
  next matched decoded => exact .jump reached decoded member
  next => cases member

@[simp] theorem mem_insert (set : Std.ExtTreeSet UInt64) (addr other : UInt64) :
    other ∈ set.insert addr ↔ other = addr ∨ other ∈ set := by
  rw [Std.ExtTreeSet.mem_insert, Std.LawfulEqCmp.compare_eq_iff_eq, eq_comm]

@[simp] theorem mem_erase (set : Std.ExtTreeSet UInt64) (addr other : UInt64) :
    other ∈ set.erase addr ↔ other ≠ addr ∧ other ∈ set := by
  rw [Std.ExtTreeSet.mem_erase, Ne, Std.LawfulEqCmp.compare_eq_iff_eq, eq_comm]

theorem firstKey_present {mnemonics : Mnemonics} {addr : UInt64} {entries : List MnemonicOrError}
    (present : mnemonics[addr]? = some entries) :
    mnemonics.toList.find? (fun entry => addr ≤ entry.1) = some (addr, entries) := by
  have member := Std.ExtTreeMap.mem_toList_iff_getElem?_eq_some.mpr present
  have ordered := Std.ExtTreeMap.ordered_keys_toList (t := mnemonics)
  obtain ⟨before, after, split⟩ := List.append_of_mem member
  rw [List.find?_eq_some_iff_append]
  refine ⟨by simp, before, after, split, ?_⟩
  intro earlier inside
  rw [split, List.pairwise_append] at ordered
  have less := ordered.2.2 earlier inside (addr, entries) (by simp)
  rw [Std.compare_eq_lt] at less
  simpa using less

private theorem firstFrom_present {mnemonics : Mnemonics} {addr : UInt64} {entry : MnemonicOrError}
    (present : mnemonics[addr]? = some [entry]) : firstFrom mnemonics addr = some entry := by
  simp [firstFrom, firstKey_present present]

theorem firstFrom_absent {mnemonics : Mnemonics} {addr : UInt64} (absent : addr ∉ mnemonics)
    {entry : MnemonicOrError} (found : firstFrom mnemonics addr = some entry) :
    ∃ key entries, mnemonics[key]? = some entries ∧ entry ∈ entries ∧ addr < key := by
  simp only [firstFrom, Option.bind_eq_some_iff] at found
  obtain ⟨⟨key, entries⟩, searched, head⟩ := found
  have value := Std.ExtTreeMap.mem_toList_iff_getElem?_eq_some.mp (List.mem_of_find?_eq_some searched)
  refine ⟨key, entries, value, List.mem_of_head? head, ?_⟩
  have le : addr ≤ key := by simpa using List.find?_some searched
  have different : addr ≠ key := by
    intro same
    subst key
    exact absent (by simp [← Std.ExtTreeMap.isSome_getElem?_iff_mem, value])
  grind

private theorem foldl_addJump (addr : UInt64) (jumps : List (UInt64 × Rvalue × Guard)) (work : Worklist)
    (origins : ∀ jump ∈ jumps, jump.1 = addr) :
    let after := jumps.foldl addJump work
    after.mnemonics = work.mnemonics ∧ after.calls = work.calls ∧
    (∀ origin, after.bySource[origin]? =
      if origin = addr ∧ jumps ≠ [] then some (valuesAt work.bySource addr ++ jumps.map Prod.snd)
      else work.bySource[origin]?) ∧
    (∀ target source guard, (source, guard) ∈ valuesAt after.byDestination target ↔
      (source, guard) ∈ valuesAt work.byDestination target ∨
        source = .newU64 addr ∧ ∃ size, (addr, .constant target size, guard) ∈ jumps) ∧
    (∀ target, target ∈ after.todo ↔
      target ∈ work.todo ∨ ∃ size guard, (addr, .constant target size, guard) ∈ jumps) := by
  induction jumps generalizing work with
  | nil => simp
  | cons jump jumps ih =>
    obtain ⟨origin, tgt, gu⟩ := jump
    have same : origin = addr := origins (origin, tgt, gu) (by simp)
    subst origin
    have rest := ih (addJump work (addr, tgt, gu)) (fun jump member => origins jump (by simp [member]))
    simp only [List.foldl_cons]
    obtain ⟨mnemonics, calls, bySource, byDestination, todo⟩ := rest
    cases tgt with
    | constant value size =>
      refine ⟨mnemonics, calls, ?_, ?_, ?_⟩
      · intro origin
        rw [bySource origin]
        simp only [addJump, valuesAt_push, getElem?_push]
        by_cases same : origin = addr
        · subst origin
          cases jumps <;> simp [valuesAt]
        · simp [same, Ne.symm same]
      · intro target source guard
        rw [byDestination]
        simp only [addJump, valuesAt_push, List.mem_append, List.mem_cons, Prod.mk.injEq, Rvalue.constant.injEq,
          true_and]
        grind
      · intro target
        rw [todo]
        simp only [addJump, mem_insert, List.mem_cons, Prod.mk.injEq, Rvalue.constant.injEq, true_and]
        grind
    | undefined | var _ _ _ _ =>
      refine ⟨mnemonics, calls, ?_, ?_, ?_⟩
      · intro origin
        rw [bySource origin]
        simp only [addJump, valuesAt_push, getElem?_push]
        by_cases same : origin = addr
        · subst origin
          cases jumps <;> simp [valuesAt]
        · simp [same, Ne.symm same]
      · intro target source guard
        simpa [addJump] using byDestination target source guard
      · intro target
        simpa [addJump] using todo target

/-- Decoding at an address, whether it succeeds or fails, adds one entry and the jumps found. -/
theorem decodeAt_facts (single : SingleMnemonic decode) (addr : UInt64) (work : Worklist) :
    let after := decodeAt decode addr work
    after.mnemonics = push work.mnemonics addr (entryAt decode addr) ∧ after.calls = work.calls ++ [addr] ∧
    (∀ origin, after.bySource[origin]? =
      if origin = addr ∧ jumpsAt decode addr ≠ [] then
        some (valuesAt work.bySource addr ++ (jumpsAt decode addr).map Prod.snd)
      else work.bySource[origin]?) ∧
    (∀ target source guard, (source, guard) ∈ valuesAt after.byDestination target ↔
      (source, guard) ∈ valuesAt work.byDestination target ∨
        source = .newU64 addr ∧ ∃ size, (addr, .constant target size, guard) ∈ jumpsAt decode addr) ∧
    (∀ target, target ∈ after.todo ↔
      target ∈ work.todo ∨ ∃ size guard, (addr, .constant target size, guard) ∈ jumpsAt decode addr) := by
  cases decoded : decode addr with
  | error e => simp [decodeAt, decoded, entryAt, jumpsAt, addError]
  | ok matched =>
    obtain ⟨mne, mnemonics, first, _, origins⟩ := single addr matched decoded
    have recorded := foldl_addJump addr matched.jumps
      (addMnemonic { work with calls := work.calls ++ [addr] } mne) origins
    simpa [decodeAt, decoded, entryAt, jumpsAt, mnemonics, addMnemonic, first] using recorded

structure Invariant (decode : UInt64 → Except String Match) (start : UInt64) (work : Worklist) : Prop where
  entries : ∀ addr found, work.mnemonics[addr]? = some found →
    found = [entryAt decode addr] ∧ Reached decode start addr
  pending : ∀ addr ∈ work.todo, Reached decode start addr
  started : start ∈ work.mnemonics ∨ start ∈ work.todo
  closed : ∀ addr ∈ work.mnemonics, ∀ origin target size guard,
    (origin, .constant target size, guard) ∈ jumpsAt decode addr → target ∈ work.mnemonics ∨ target ∈ work.todo
  bySource : ∀ origin, work.bySource[origin]? =
    if origin ∈ work.mnemonics ∧ jumpsAt decode origin ≠ [] then some ((jumpsAt decode origin).map Prod.snd) else none
  byDestination : ∀ target source guard, (source, guard) ∈ valuesAt work.byDestination target ↔
    target = start ∧ source = .undefined ∧ guard = .always ∨
      ∃ origin ∈ work.mnemonics, source = .newU64 origin ∧
        ∃ size, (origin, .constant target size, guard) ∈ jumpsAt decode origin
  calls : work.calls.Nodup ∧ ∀ addr, addr ∈ work.calls ↔ addr ∈ work.mnemonics

theorem visit_cases (single : SingleMnemonic decode) {work : Worklist} (valid : Invariant decode start work)
    (addr : UInt64) (todo : Std.ExtTreeSet UInt64) :
    (addr ∈ work.mnemonics ∧ ∃ size, visit decode addr { work with todo } = { work with todo, size }) ∨
      (addr ∉ work.mnemonics ∧ visit decode addr { work with todo } = decodeAt decode addr { work with todo }) := by
  by_cases present : addr ∈ work.mnemonics
  · refine .inl ⟨present, ?_⟩
    obtain ⟨found, value⟩ := Option.isSome_iff_exists.mp (Std.ExtTreeMap.isSome_getElem?_iff_mem.mpr present)
    obtain ⟨rfl, _⟩ := valid.entries addr found value
    simp only [visit, firstFrom_present value]
    rcases single.entry addr with ⟨mne, entry, first, _⟩ | ⟨entry, _⟩
    · exact ⟨work.size + mne.size, by simp [entry, first]⟩
    · exact ⟨work.size, by simp [entry]⟩
  · refine .inr ⟨present, ?_⟩
    simp only [visit]
    cases found : firstFrom work.mnemonics addr with
    | none => simp only
    | some entry =>
      -- the entry found belongs to a later address, so neither early exit applies
      obtain ⟨key, entries, value, inside, later⟩ := firstFrom_absent present found
      obtain ⟨rfl, _⟩ := valid.entries key entries value
      cases List.mem_singleton.mp inside
      rcases single.entry key with ⟨mne, entry, first, _⟩ | ⟨entry, _⟩
      · have before : ¬ mne.area.start < addr := by grind
        have other : ¬ mne.area.start = addr := by grind
        simp [entry, before, other]
      · have other : ¬ key = addr := by grind
        simp [entry, other]

theorem turn_draws {todo : Nat → Enumeration UInt64} {n : Nat} {work next : Worklist}
    (step : turn decode todo n work = some next) : ∃ addr ∈ work.todo,
      ((todo n).list work.todo.toList).head? = some addr ∧ next = visit decode addr { work with todo := work.todo.erase addr } := by
  unfold turn at step
  split at step
  · cases step
  next addr rest drawn =>
    cases step
    have inside : addr ∈ (todo n).list work.todo.toList := by simp [drawn]
    exact ⟨addr, by simpa using inside, by simp [drawn], rfl⟩

theorem turn_cases (single : SingleMnemonic decode) {todo : Nat → Enumeration UInt64} {n : Nat}
    {work next : Worklist} (valid : Invariant decode start work) (step : turn decode todo n work = some next) :
    ∃ addr ∈ work.todo,
      (addr ∈ work.mnemonics ∧ ∃ size, next = { work with todo := work.todo.erase addr, size }) ∨
      (addr ∉ work.mnemonics ∧ next = decodeAt decode addr { work with todo := work.todo.erase addr }) := by
  obtain ⟨addr, member, -, rfl⟩ := turn_draws step
  exact ⟨addr, member, visit_cases single valid addr (work.todo.erase addr)⟩

theorem turn_preserves (single : SingleMnemonic decode) {todo : Nat → Enumeration UInt64} {n : Nat}
    {work next : Worklist} (valid : Invariant decode start work) (step : turn decode todo n work = some next) :
    Invariant decode start next := by
  obtain ⟨addr, member, ⟨present, size, rfl⟩ | ⟨absent, rfl⟩⟩ := turn_cases single valid step
  · have kept (other : UInt64) (covered : other ∈ work.mnemonics ∨ other ∈ work.todo) :
        other ∈ work.mnemonics ∨ other ∈ work.todo.erase addr := by
      by_cases same : other = addr
      · exact .inl (same ▸ present)
      · exact covered.imp_right fun waiting => (mem_erase _ _ _).mpr ⟨same, waiting⟩
    refine ⟨valid.entries, ?_, ?_, ?_, valid.bySource, valid.byDestination, valid.calls⟩
    · intro other inside
      exact valid.pending other ((mem_erase _ _ _).mp inside).2
    · exact kept start valid.started
    · intro other inside origin target width guard jump
      exact kept target (valid.closed other inside origin target width guard jump)
  · have reached := valid.pending addr member
    obtain ⟨mnemonics, calls, bySource, byDestination, todo⟩ :=
      decodeAt_facts single addr { work with todo := work.todo.erase addr }
    have added (other : UInt64) :
        other ∈ (decodeAt decode addr { work with todo := work.todo.erase addr }).mnemonics ↔
          other = addr ∨ other ∈ work.mnemonics := by
      rw [mnemonics, mem_push]
    have kept (other : UInt64) (covered : other ∈ work.mnemonics ∨ other ∈ work.todo) :
        other ∈ (decodeAt decode addr { work with todo := work.todo.erase addr }).mnemonics ∨
          other ∈ (decodeAt decode addr { work with todo := work.todo.erase addr }).todo := by
      rw [added, todo, mem_erase]
      by_cases same : other = addr
      · exact .inl (.inl same)
      · exact covered.imp .inr fun waiting => .inl ⟨same, waiting⟩
    refine ⟨?_, ?_, kept start valid.started, ?_, ?_, ?_, ?_⟩
    · intro other found value
      rw [mnemonics, getElem?_push] at value
      split at value
      next same =>
        subst other
        have missing : work.mnemonics[addr]? = none := by simpa using absent
        simp only [missing, Option.getD_none, List.nil_append, Option.some.injEq] at value
        exact ⟨value.symm, reached⟩
      next => exact valid.entries other found value
    · intro other inside
      rcases (todo other).mp inside with inside | ⟨width, guard, jump⟩
      · exact valid.pending other ((mem_erase _ _ _).mp inside).2
      · exact reached.target jump
    · intro other inside origin target width guard jump
      rcases (added other).mp inside with rfl | inside
      · have same : origin = other := single.origin jump
        subst origin
        exact .inr ((todo target).mpr (.inr ⟨width, guard, jump⟩))
      · exact kept target (valid.closed other inside origin target width guard jump)
    · intro origin
      rw [bySource origin]
      have old := valid.bySource origin
      by_cases same : origin = addr
      · subst origin
        have none : valuesAt work.bySource addr = [] := by simp [valuesAt, valid.bySource addr, absent]
        simp only [added, true_and, true_or, none, List.nil_append]
        split <;> simp_all
      · simpa only [added, same, false_and, ite_false, false_or] using old
    · intro target source guard
      rw [byDestination, valid.byDestination]
      simp only [added]
      grind
    · rw [calls]
      refine ⟨?_, ?_⟩
      · rw [List.nodup_append]
        refine ⟨valid.calls.1, by simp, ?_⟩
        intro other inside last singleton
        cases List.mem_singleton.mp singleton
        rintro rfl
        exact absent ((valid.calls.2 other).mp inside)
      · intro other
        rw [added, List.mem_append, valid.calls.2, List.mem_singleton, or_comm]

theorem fresh_lists (start : UInt64) :
    ((AdjacencyList.new : ControlFlowGraph).addVertex (.unresolved (.newU64 start))).1.Lists
      [.unresolved (.newU64 start)] [] :=
  AdjacencyList.Lists.new.addVertex _

theorem initial (orders : HashOrders) (start size : UInt64) :
    Invariant decode start (initialWork orders
      ((AdjacencyList.new : ControlFlowGraph).addVertex (.unresolved (.newU64 start))).1 start size) := by
  have labels := List.perm_singleton.mp ((fresh_lists start).labels_perm orders.labels)
  have edges : (AdjacencyList.edgeList ((AdjacencyList.new : ControlFlowGraph).addVertex
      (.unresolved (.newU64 start))).1 orders.edges) = [] := by
    rw [← List.length_eq_zero_iff]
    simp [AdjacencyList.edgeList, AdjacencyList.addVertex, AdjacencyList.new]
  simp only [initialWork, indexCflowGraph, labels, edges, List.filterMap_nil, List.foldl_cons, List.foldl_nil,
    indexTarget, initialTodo]
  refine ⟨by simp, ?_, by simp, by simp, by simp, ?_, by simp⟩
  · intro addr member
    simp only [Rvalue.newU64, mem_insert, Std.ExtTreeSet.not_mem_empty, or_false, or_self] at member
    exact member ▸ .start
  · intro target source guard
    simp only [valuesAt, Std.ExtTreeMap.getElem?_insert, Std.LawfulEqCmp.compare_eq_iff_eq]
    by_cases same : start = target
    · simp [same]
    · simp [same, Ne.symm same]

theorem todo_empty {todo : Nat → Enumeration UInt64} {n : Nat} {work : Worklist}
    (finished : turn decode todo n work = none) (addr : UInt64) : addr ∉ work.todo := by
  intro member
  have inside : addr ∈ (todo n).list work.todo.toList := by simpa using member
  unfold turn at finished
  split at finished
  next empty => simp [empty] at inside
  next => cases finished

/-- When nothing is left to do, exactly the reached addresses have been visited. -/
theorem Invariant.visited {work : Worklist} (valid : Invariant decode start work)
    (empty : ∀ addr, addr ∉ work.todo) (addr : UInt64) :
    addr ∈ work.mnemonics ↔ Reached decode start addr := by
  constructor
  · intro member
    obtain ⟨found, value⟩ := Option.isSome_iff_exists.mp (Std.ExtTreeMap.isSome_getElem?_iff_mem.mpr member)
    exact (valid.entries addr found value).2
  · intro reached
    induction reached with
    | start => exact valid.started.resolve_right (empty _)
    | @jump addr matched origin target size guard _ decoded member ih =>
      exact (valid.closed addr ih origin target size guard (by simpa [jumpsAt, decoded] using member)).resolve_right
        (empty _)

/-- The tables after a finished loop. -/
structure Complete (decode : UInt64 → Except String Match) (start : UInt64) (work : Worklist) : Prop
    extends Invariant decode start work where
  visited : ∀ addr, addr ∈ work.mnemonics ↔ Reached decode start addr

theorem complete (single : SingleMnemonic decode) (orders : HashOrders) {fuel : Nat} {size : UInt64} {work : Worklist}
    (finished : loop (turn decode orders.todo) fuel 0 (initialWork orders
      ((AdjacencyList.new : ControlFlowGraph).addVertex (.unresolved (.newU64 start))).1 start size) = some work) :
    Complete decode start work := by
  obtain ⟨valid, last, done⟩ := loop_invariant (Invariant decode start)
    (fun _ _ _ valid step => turn_preserves single valid step) (initial orders start size) finished
  exact ⟨valid, valid.visited (todo_empty done)⟩

open Classical in
/-- Undecoded addresses count for more than any worklist can hold. -/
noncomputable def remaining (work : Worklist) : Nat :=
  (Finset.univ.filter (· ∉ work.mnemonics)).card * (Fintype.card UInt64 + 1) +
    (Finset.univ.filter (· ∈ work.todo)).card

private theorem turn_decreases (single : SingleMnemonic decode) {todo : Nat → Enumeration UInt64} {n : Nat}
    {work next : Worklist} (valid : Invariant decode start work) (step : turn decode todo n work = some next) :
    remaining next < remaining work := by
  classical
  obtain ⟨addr, member, ⟨present, size, rfl⟩ | ⟨absent, rfl⟩⟩ := turn_cases single valid step
  · have smaller : (Finset.univ.filter (· ∈ work.todo.erase addr)).card <
        (Finset.univ.filter (· ∈ work.todo)).card := by
      apply Finset.card_lt_card
      rw [Finset.ssubset_iff_of_subset (fun other => by simp)]
      exact ⟨addr, by simpa using member, by simp⟩
    simpa [remaining] using smaller
  · obtain ⟨mnemonics, -⟩ := decodeAt_facts single addr { work with todo := work.todo.erase addr }
    have smaller : (Finset.univ.filter
        (· ∉ (decodeAt decode addr { work with todo := work.todo.erase addr }).mnemonics)).card <
          (Finset.univ.filter (· ∉ work.mnemonics)).card := by
      apply Finset.card_lt_card
      rw [mnemonics, Finset.ssubset_iff_of_subset (fun other => by simp [mem_push])]
      exact ⟨addr, by simpa using absent, by simp [mem_push]⟩
    have bounded : (Finset.univ.filter
        (· ∈ (decodeAt decode addr { work with todo := work.todo.erase addr }).todo)).card ≤ Fintype.card UInt64 :=
      Finset.card_le_univ _
    have product := Nat.mul_le_mul_right (Fintype.card UInt64 + 1) smaller
    simp only [Nat.succ_mul] at product
    unfold remaining
    omega

theorem terminates (single : SingleMnemonic decode) (orders : HashOrders) (start size : UInt64) :
    ∃ fuel work, loop (turn decode orders.todo) fuel 0 (initialWork orders
      ((AdjacencyList.new : ControlFlowGraph).addVertex (.unresolved (.newU64 start))).1 start size) = some work :=
  loop_terminates (Invariant decode start) remaining
    (fun _ _ _ valid step => turn_preserves single valid step)
    (fun _ _ _ valid step => turn_decreases single valid step) 0 (initial orders start size)

end Panopticon.Proofs.Worklist
