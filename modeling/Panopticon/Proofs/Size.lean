import Panopticon.Proofs.Resume

/-! The size of a function is counted while the worklist is worked off, and what has been
counted stays when the continuation fails. -/

open Panopticon.Function

namespace Panopticon.Proofs.Size
open Library AdjacencyList Worklist Sweep

variable {decode : UInt64 → Except String Match}

/-- The mnemonics met at an address: the one that is there already, or those decoded. -/
def mnemonicsAt (decode : UInt64 → Except String Match) (mnemonics : Mnemonics) (addr : UInt64) : List Mnemonic :=
  match (valuesAt mnemonics addr).head? with
  | some (.mnemonic mne) => [mne]
  | some (.error _ _) => []
  | none => match decode addr with
    | .ok matched => matched.mnemonics
    | .error _ => []

/-- What is counted for an address taken from the worklist. -/
def counted (decode : UInt64 → Except String Match) (mnemonics : Mnemonics) (addr : UInt64) : UInt64 :=
  ((mnemonicsAt decode mnemonics addr).map Mnemonic.size).sum

/-- The address a turn takes from the worklist. -/
def taken (todo : Nat → Enumeration UInt64) (turn : Nat × Worklist) : Option UInt64 :=
  ((todo turn.1).list turn.2.todo.toList).head?

def countedIn (decode : UInt64 → Except String Match) (todo : Nat → Enumeration UInt64) (turn : Nat × Worklist) : UInt64 :=
  ((taken todo turn).map (counted decode turn.2.mnemonics)).getD 0

/-- Entries lie at the address they describe. -/
def Keyed (mnemonics : Mnemonics) : Prop := ∀ addr entry, entry ∈ valuesAt mnemonics addr → address entry = addr

theorem Keyed.pushAll {mnemonics : Mnemonics} (keyed : Keyed mnemonics) {entries : List (UInt64 × MnemonicOrError)}
    (here : ∀ entry ∈ entries, address entry.2 = entry.1) : Keyed (pushAll mnemonics entries) := by
  intro addr found member
  rw [valuesAt_pushAll, List.mem_append] at member
  rcases member with member | member
  · exact keyed addr found member
  · simp only [List.mem_map, List.mem_filter, decide_eq_true_eq] at member
    obtain ⟨entry, ⟨inside, same⟩, rfl⟩ := member
    exact (here entry inside).trans same

theorem initial_keyed (orders : HashOrders) (g : ControlFlowGraph) (start size : UInt64) :
    Keyed (initialWork orders g start size).mnemonics := by
  have tables := Resume.indexCflowGraph_eq orders g start
  simp only [initialWork, tables]
  apply Keyed.pushAll
  · intro addr entry member
    simp at member
  · intro entry member
    obtain ⟨lb, -, inside⟩ := List.mem_flatMap.mp member
    rw [Resume.tableEntries_eq, List.mem_map] at inside
    obtain ⟨found, -, rfl⟩ := inside
    rfl

/-- The first entry from `addr` on is the one at `addr`, or that is free and the entry lies behind it. -/
theorem firstFrom_cases (mnemonics : Mnemonics) (addr : UInt64) :
    firstFrom mnemonics addr = (valuesAt mnemonics addr).head? ∨ (valuesAt mnemonics addr = [] ∧
      ∀ entry, firstFrom mnemonics addr = some entry → ∃ key, addr < key ∧ entry ∈ valuesAt mnemonics key) := by
  by_cases present : addr ∈ mnemonics
  · obtain ⟨found, value⟩ := Option.isSome_iff_exists.mp (Std.ExtTreeMap.isSome_getElem?_iff_mem.mpr present)
    left
    simp only [firstFrom, firstKey_present value, Option.bind_some, valuesAt, value, Option.getD_some]
  · right
    refine ⟨by simp [valuesAt, Std.ExtTreeMap.getElem?_eq_none present], ?_⟩
    intro entry found
    obtain ⟨key, entries, value, inside, later⟩ := firstFrom_absent present found
    exact ⟨key, later, by simpa [valuesAt, value] using inside⟩

/-- The instructions found at an address jump to another. -/
def Jumps (decode : UInt64 → Except String Match) (addr target : UInt64) : Prop :=
  ∃ origin size guard, (origin, .constant target size, guard) ∈ jumpsAt decode addr

/-- What decoding at an address leaves in the table. -/
def decodedEntries (decode : UInt64 → Except String Match) (addr : UInt64) : List (UInt64 × MnemonicOrError) :=
  match decode addr with
  | .ok matched =>
    if matched.mnemonics.isEmpty then [(addr, .error addr "Unrecognized instruction")]
    else matched.mnemonics.map fun mne => (mne.area.start, .mnemonic mne)
  | .error _ => [(addr, .error addr "Unrecognized instruction")]

theorem decodedEntries_cases {addr key : UInt64} {entry : MnemonicOrError}
    (member : (key, entry) ∈ decodedEntries decode addr) :
    (key = addr ∧ entry = .error addr "Unrecognized instruction") ∨
      ∃ matched mne, decode addr = .ok matched ∧ mne ∈ matched.mnemonics ∧ key = mne.area.start ∧ entry = .mnemonic mne := by
  unfold decodedEntries at member
  cases decoded : decode addr with
  | error message =>
    rw [decoded] at member
    cases List.mem_singleton.mp member
    exact .inl ⟨rfl, rfl⟩
  | ok matched =>
    rw [decoded] at member
    simp only at member
    split at member
    · cases List.mem_singleton.mp member
      exact .inl ⟨rfl, rfl⟩
    · obtain ⟨mne, inside, same⟩ := List.mem_map.mp member
      cases same
      exact .inr ⟨matched, mne, rfl, inside, rfl, rfl⟩

theorem foldl_addJump_facts (jumps : List (UInt64 × Rvalue × Guard)) (work : Worklist) :
    (jumps.foldl addJump work).size = work.size ∧ (jumps.foldl addJump work).mnemonics = work.mnemonics ∧
      ∀ target, target ∈ (jumps.foldl addJump work).todo ↔
        target ∈ work.todo ∨ ∃ origin size guard, (origin, .constant target size, guard) ∈ jumps := by
  induction jumps generalizing work with
  | nil => simp
  | cons jump jumps ih =>
    obtain ⟨origin, tgt, gu⟩ := jump
    obtain ⟨size, mnemonics, todo⟩ := ih (addJump work (origin, tgt, gu))
    rw [List.foldl_cons]
    cases tgt with
    | constant value width =>
      refine ⟨size, mnemonics, fun target => ?_⟩
      rw [todo]
      simp only [addJump, mem_insert, List.mem_cons, Prod.mk.injEq, Rvalue.constant.injEq]
      grind
    | undefined | var _ _ _ _ =>
      refine ⟨size, mnemonics, fun target => ?_⟩
      simpa [addJump] using todo target

private theorem foldl_addMnemonic_facts (ms : List Mnemonic) (work : Worklist) :
    (ms.foldl addMnemonic work).size = work.size + (ms.map Mnemonic.size).sum ∧
      (ms.foldl addMnemonic work).todo = work.todo ∧ (ms.foldl addMnemonic work).mnemonics =
        pushAll work.mnemonics (ms.map fun mne => (mne.area.start, .mnemonic mne)) := by
  induction ms generalizing work with
  | nil => exact ⟨by simp, rfl, rfl⟩
  | cons mne ms ih =>
    obtain ⟨size, todo, mnemonics⟩ := ih (addMnemonic work mne)
    refine ⟨?_, todo, mnemonics⟩
    rw [List.foldl_cons, size, List.map_cons, List.sum_cons]
    exact add_assoc _ _ _

private theorem decodeAt_adds (addr : UInt64) (work : Worklist) (free : valuesAt work.mnemonics addr = []) :
    (decodeAt decode addr work).size = work.size + counted decode work.mnemonics addr ∧
      (decodeAt decode addr work).mnemonics = pushAll work.mnemonics (decodedEntries decode addr) ∧
        ∀ target, target ∈ (decodeAt decode addr work).todo ↔ target ∈ work.todo ∨ Jumps decode addr target := by
  simp only [decodeAt, counted, mnemonicsAt, decodedEntries, Jumps, jumpsAt, free, List.head?_nil]
  cases decode addr with
  | error message => exact ⟨by simp [addError], rfl, by simp [addError]⟩
  | ok matched =>
    simp only
    rw [(foldl_addJump_facts _ _).1, (foldl_addJump_facts _ _).2.1]
    split
    · next empty =>
      rw [List.isEmpty_iff.mp empty]
      exact ⟨by simp [addError], rfl, (foldl_addJump_facts _ _).2.2⟩
    · obtain ⟨size, todo, mnemonics⟩ := foldl_addMnemonic_facts matched.mnemonics
        { work with calls := work.calls ++ [addr] }
      refine ⟨size, mnemonics, fun target => ?_⟩
      rw [(foldl_addJump_facts _ _).2.2, todo]

private theorem visit_adds (addr : UInt64) (work : Worklist) (keyed : Keyed work.mnemonics) :
    (valuesAt work.mnemonics addr ≠ [] ∧
      visit decode addr work = { work with size := work.size + counted decode work.mnemonics addr }) ∨
    (valuesAt work.mnemonics addr = [] ∧ visit decode addr work = decodeAt decode addr work) := by
  rcases firstFrom_cases work.mnemonics addr with here | ⟨free, behind⟩
  · cases values : valuesAt work.mnemonics addr with
    | nil =>
      rw [values, List.head?_nil] at here
      exact .inr ⟨rfl, by simp only [visit, here]⟩
    | cons entry rest =>
      rw [values, List.head?_cons] at here
      have known := keyed addr entry (by simp [values])
      refine .inl ⟨by simp, ?_⟩
      cases entry with
      | mnemonic mne =>
        have start : mne.area.start = addr := known
        simp [visit, here, counted, mnemonicsAt, values, start]
      | error pos msg =>
        have position : pos = addr := known
        simp [visit, here, counted, mnemonicsAt, values, position]
  · refine .inr ⟨free, ?_⟩
    unfold visit
    cases found : firstFrom work.mnemonics addr with
    | none => rfl
    | some entry =>
      obtain ⟨key, later, member⟩ := behind entry found
      have known := keyed key entry member
      cases entry with
      | mnemonic mne =>
        have start : mne.area.start = key := known
        have before : ¬ mne.area.start < addr := by grind
        have other : ¬ mne.area.start = addr := by grind
        simp [before, other]
      | error pos msg =>
        have position : pos = key := known
        have other : ¬ pos = addr := by grind
        simp [other]

/-- A turn takes one address; what is decoded there is added to the table, and its jumps have to be done. -/
theorem turn_adds {todo : Nat → Enumeration UInt64} {n : Nat} {work next : Worklist} (keyed : Keyed work.mnemonics)
    (step : turn decode todo n work = some next) : ∃ addr ∈ work.todo, taken todo (n, work) = some addr ∧
      next.size = work.size + counted decode work.mnemonics addr ∧
      ((valuesAt work.mnemonics addr ≠ [] ∧ next.mnemonics = work.mnemonics ∧
        ∀ other, other ∈ next.todo ↔ other ≠ addr ∧ other ∈ work.todo) ∨
      (valuesAt work.mnemonics addr = [] ∧ next.mnemonics = pushAll work.mnemonics (decodedEntries decode addr) ∧
        ∀ other, other ∈ next.todo ↔ other ≠ addr ∧ other ∈ work.todo ∨ Jumps decode addr other)) := by
  obtain ⟨addr, member, drawn, rfl⟩ := turn_draws step
  refine ⟨addr, member, drawn, ?_⟩
  rcases visit_adds addr { work with todo := work.todo.erase addr } keyed with ⟨taken, same⟩ | ⟨free, same⟩
  · rw [same]
    exact ⟨rfl, .inl ⟨taken, rfl, mem_erase _ _⟩⟩
  · obtain ⟨size, mnemonics, todo⟩ := @decodeAt_adds decode addr { work with todo := work.todo.erase addr } free
    rw [same]
    refine ⟨size, .inr ⟨free, mnemonics, fun other => ?_⟩⟩
    rw [todo, mem_erase]

theorem decodedEntries_keyed (decode : UInt64 → Except String Match) (addr : UInt64) :
    ∀ entry ∈ decodedEntries decode addr, address entry.2 = entry.1 := by
  intro entry member
  rcases decodedEntries_cases (show (entry.1, entry.2) ∈ decodedEntries decode addr from member) with
    ⟨same, error⟩ | ⟨matched, mne, -, -, same, mnemonic⟩
  · rw [error, same]
    rfl
  · rw [mnemonic, same]
    rfl

private theorem turn_size {todo : Nat → Enumeration UInt64} {n : Nat} {work next : Worklist} (keyed : Keyed work.mnemonics)
    (step : turn decode todo n work = some next) :
    Keyed next.mnemonics ∧ next.size = work.size + countedIn decode todo (n, work) := by
  obtain ⟨addr, -, drawn, size, cases⟩ := turn_adds keyed step
  refine ⟨?_, by rw [size, countedIn, drawn]; rfl⟩
  rcases cases with ⟨-, mnemonics, -⟩ | ⟨-, mnemonics, -⟩
  · rwa [mnemonics]
  · rw [mnemonics]
    exact keyed.pushAll (decodedEntries_keyed decode addr)

theorem turns_size {todo : Nat → Enumeration UInt64} {n : Nat} {work final : Worklist} {turns : List (Nat × Worklist)}
    (run : Turns (turn decode todo) n work turns final) (keyed : Keyed work.mnemonics) :
    final.size = work.size + (turns.map (countedIn decode todo)).sum :=
  run.total (fun work => Keyed work.mnemonics) Worklist.size (countedIn decode todo)
    (fun _ _ _ keyed step => turn_size keyed step) keyed

/-- The mnemonics of a function by address, as a continuation finds them. -/
def tableOf (orders : HashOrders) (f : Function) (start : UInt64) : Mnemonics :=
  (indexCflowGraph orders f.cflowGraph start).1

/-- The addresses a continuation takes: the start, the constants the function has left unresolved and, from an address
without a mnemonic yet, the targets of what the decoder finds there. -/
inductive Visits (decode : UInt64 → Except String Match) (f : Function) (table : Mnemonics) (start : UInt64) : UInt64 → Prop where
  | start : Visits decode f table start start
  | unresolved {v value size} (label : f.cflowGraph.vertexLabel v = some (.unresolved (.constant value size))) :
      Visits decode f table start value
  | jump {addr target} (visits : Visits decode f table start addr) (free : valuesAt table addr = [])
      (jumps : Jumps decode addr target) : Visits decode f table start target

/-- No address taken has a mnemonic of any size, be it the function's own or a decoded one. -/
def Quiet (decode : UInt64 → Except String Match) (f : Function) (table : Mnemonics) (start : UInt64) : Prop :=
  ∀ addr, Visits decode f table start addr → ∀ mne ∈ mnemonicsAt decode table addr, mne.size = 0

/-- Mnemonics decoded elsewhere than asked for have a size. -/
def Aligned (decode : UInt64 → Except String Match) : Prop :=
  ∀ addr matched, decode addr = .ok matched → ∀ mne ∈ matched.mnemonics, mne.size = 0 → mne.area.start = addr

section
variable {f : Function} {orders : HashOrders} {start : UInt64} {todo : Nat → Enumeration UInt64} {n : Nat}
  {work next final : Worklist} {turns : List (Nat × Worklist)}

private theorem mem_initialTodo (labels : List ControlFlowTarget) (addr : UInt64) :
    addr ∈ initialTodo labels start ↔ addr = start ∨ ∃ size, .unresolved (.constant addr size) ∈ labels := by
  induction labels using List.reverseRecOn with
  | nil => simpa [initialTodo] using eq_comm
  | append_singleton labels lb ih =>
    rw [initialTodo, mem_insert] at ih ⊢
    rw [List.foldl_append, List.foldl_cons, List.foldl_nil]
    cases lb with
    | resolved bb => simpa using ih
    | failed pos msg => simpa using ih
    | unresolved target =>
      cases target with
      | undefined | var _ _ _ _ => simpa using ih
      | constant value size =>
        simp only [mem_insert, List.mem_append, List.mem_singleton, ControlFlowTarget.unresolved.injEq,
          Rvalue.constant.injEq]
        grind

theorem initial_todo (size addr : UInt64) : addr ∈ (initialWork orders f.cflowGraph start size).todo ↔
    addr = start ∨ ∃ v size, f.cflowGraph.vertexLabel v = some (.unresolved (.constant addr size)) := by
  simp only [initialWork, mem_initialTodo, List.mem_filterMap, mem_vertices]
  refine or_congr_right ⟨fun holds => ?_, fun holds => ?_⟩
  · obtain ⟨size, v, -, label⟩ := holds
    exact ⟨v, size, label⟩
  · obtain ⟨v, size, label⟩ := holds
    exact ⟨size, v, by simp [label], label⟩

/-- What is left to be done is taken, and only mnemonics of no size have been added to the table. -/
structure Still (decode : UInt64 → Except String Match) (f : Function) (table : Mnemonics) (start : UInt64)
    (work : Worklist) : Prop where
  keyed : Keyed work.mnemonics
  pending : ∀ addr ∈ work.todo, Visits decode f table start addr
  entries : ∀ addr, ∃ added, valuesAt work.mnemonics addr = valuesAt table addr ++ added ∧
    ∀ mne, .mnemonic mne ∈ added → mne.size = 0

theorem Still.met {table : Mnemonics} (still : Still decode f table start work) (quiet : Quiet decode f table start)
    {addr : UInt64} (member : addr ∈ work.todo) : ∀ mne ∈ mnemonicsAt decode work.mnemonics addr, mne.size = 0 := by
  have silent := quiet addr (still.pending addr member)
  obtain ⟨added, values, small⟩ := still.entries addr
  cases free : valuesAt table addr with
  | cons entry rest => simpa [mnemonicsAt, values, free] using silent
  | nil =>
    rw [free, List.nil_append] at values
    cases added with
    | nil => simpa [mnemonicsAt, values, free] using silent
    | cons entry rest =>
      intro mne met
      cases entry with
      | mnemonic other =>
        have same : mne = other := by simpa [mnemonicsAt, values] using met
        exact small mne (by simp [same])
      | error pos msg => simp [mnemonicsAt, values] at met

private theorem counted_eq_zero {mnemonics : Mnemonics} {addr : UInt64}
    (small : ∀ mne ∈ mnemonicsAt decode mnemonics addr, mne.size = 0) : counted decode mnemonics addr = 0 :=
  List.sum_eq_zero (by simpa using small)

theorem Still.turn {table : Mnemonics} (quiet : Quiet decode f table start) (still : Still decode f table start work)
    (step : turn decode todo n work = some next) : Still decode f table start next ∧ next.size = work.size + 0 := by
  obtain ⟨addr, member, -, size, cases⟩ := turn_adds still.keyed step
  have small := still.met quiet member
  refine ⟨?_, by rw [size, counted_eq_zero small]⟩
  rcases cases with ⟨-, mnemonics, todo⟩ | ⟨free, mnemonics, todo⟩
  · exact ⟨mnemonics ▸ still.keyed, fun other waiting => still.pending other ((todo other).mp waiting).2,
      mnemonics ▸ still.entries⟩
  · obtain ⟨added, values, -⟩ := still.entries addr
    have open_ : valuesAt table addr = [] := (List.append_eq_nil_iff.mp (values ▸ free)).1
    refine ⟨?_, fun other waiting => ?_, fun other => ?_⟩
    · rw [mnemonics]
      exact still.keyed.pushAll (decodedEntries_keyed decode addr)
    · rcases (todo other).mp waiting with ⟨-, waiting⟩ | jumps
      · exact still.pending other waiting
      · exact .jump (still.pending addr member) open_ jumps
    · obtain ⟨added, values, none⟩ := still.entries other
      refine ⟨added ++ ((decodedEntries decode addr).filter fun entry => entry.1 = other).map Prod.snd, ?_, fun mne inside => ?_⟩
      · rw [mnemonics, valuesAt_pushAll, values, List.append_assoc]
      · rcases List.mem_append.mp inside with old | new
        · exact none mne old
        · obtain ⟨entry, kept, same⟩ := List.mem_map.mp new
          rcases decodedEntries_cases (show (entry.1, entry.2) ∈ _ from (List.mem_filter.mp kept).1) with
            ⟨-, error⟩ | ⟨matched, other, decoded, found, -, mnemonic⟩
          · rw [same] at error
            cases error
          · rw [same] at mnemonic
            cases mnemonic
            exact small mne (by simpa [mnemonicsAt, free, decoded] using found)

theorem Still.initial (size : UInt64) : Still decode f (tableOf orders f start) start (initialWork orders f.cflowGraph start size) := by
  refine ⟨initial_keyed orders _ start size, fun addr waiting => ?_, fun addr => ⟨[], ?_, by simp⟩⟩
  · rcases (initial_todo size addr).mp waiting with rfl | ⟨v, width, label⟩
    · exact .start
    · exact .unresolved label
  · rw [List.append_nil]
    rfl

/-- The bytes counted for the addresses taken, as a natural number. -/
def weight (decode : UInt64 → Except String Match) (mnemonics : Mnemonics) (addr : UInt64) : Nat :=
  ((mnemonicsAt decode mnemonics addr).map fun mne => mne.size.toNat).sum

private theorem ofNat_weight (mnemonics : Mnemonics) (addr : UInt64) :
    UInt64.ofNat (weight decode mnemonics addr) = counted decode mnemonics addr := by
  simp only [weight, counted]
  induction mnemonicsAt decode mnemonics addr with
  | nil => rfl
  | cons mne ms ih => simp [← ih]

private theorem weight_eq_zero {mnemonics : Mnemonics} {addr : UInt64} (nothing : weight decode mnemonics addr = 0) :
    ∀ mne ∈ mnemonicsAt decode mnemonics addr, mne.size = 0 := by
  intro mne met
  have small := List.le_sum_of_mem (List.mem_map_of_mem (f := fun mne => mne.size.toNat) met)
  rw [weight] at nothing
  exact UInt64.toNat_inj.mp (by rw [UInt64.toNat_zero]; omega)

/-- The addresses done so far: they have had no size, and away from them the table is as it was. -/
structure Settled (decode : UInt64 → Except String Match) (f : Function) (table : Mnemonics) (start : UInt64)
    (done : Set UInt64) (work : Worklist) : Prop where
  keyed : Keyed work.mnemonics
  silent : ∀ addr ∈ done, ∀ mne ∈ mnemonicsAt decode table addr, mne.size = 0
  started : start ∈ work.todo ∨ start ∈ done
  unresolved : ∀ v value size, f.cflowGraph.vertexLabel v = some (.unresolved (.constant value size)) →
    value ∈ work.todo ∨ value ∈ done
  closed : ∀ addr ∈ done, valuesAt table addr = [] → ∀ target, Jumps decode addr target → target ∈ work.todo ∨ target ∈ done
  away : ∀ addr, addr ∉ done → valuesAt work.mnemonics addr = valuesAt table addr

theorem Settled.turn {table : Mnemonics} (aligned : Aligned decode) {done : Set UInt64}
    (settled : Settled decode f table start done work) (step : turn decode todo n work = some next) :
    ∃ addr, taken todo (n, work) = some addr ∧ (weight decode work.mnemonics addr = 0 →
      Settled decode f table start (insert addr done) next) := by
  obtain ⟨addr, member, drawn, -, cases⟩ := turn_adds settled.keyed step
  refine ⟨addr, drawn, fun nothing => ?_⟩
  have small := weight_eq_zero nothing
  have kept (other : UInt64) (covered : other ∈ work.todo ∨ other ∈ done) : other ∈ next.todo ∨ other ∈ insert addr done := by
    by_cases same : other = addr
    · exact .inr (.inl same)
    · refine covered.imp (fun waiting => ?_) .inr
      rcases cases with ⟨-, -, todo⟩ | ⟨-, -, todo⟩
      · exact (todo other).mpr ⟨same, waiting⟩
      · exact (todo other).mpr (.inl ⟨same, waiting⟩)
  refine ⟨?_, fun other inside => ?_, kept start settled.started, fun v value size label => kept value
    (settled.unresolved v value size label), fun other inside free target jumps => ?_, fun other outside => ?_⟩
  · rcases cases with ⟨-, mnemonics, -⟩ | ⟨-, mnemonics, -⟩
    · rw [mnemonics]
      exact settled.keyed
    · rw [mnemonics]
      exact settled.keyed.pushAll (decodedEntries_keyed decode addr)
  · by_cases before : other ∈ done
    · exact settled.silent other before
    · cases inside.resolve_right before
      simpa only [mnemonicsAt, settled.away _ before] using small
  · by_cases before : other ∈ done
    · exact kept target (settled.closed other before free target jumps)
    · cases inside.resolve_right before
      rcases cases with ⟨taken, -⟩ | ⟨-, -, todo⟩
      · exact absurd ((settled.away _ before).trans free) taken
      · exact .inl ((todo target).mpr (.inr jumps))
  · obtain ⟨different, before⟩ := not_or.mp outside
    rcases cases with ⟨-, mnemonics, -⟩ | ⟨free, mnemonics, -⟩
    · rw [mnemonics]
      exact settled.away other before
    · -- what has no size was decoded at the address itself
      have none : (decodedEntries decode addr).filter (fun entry => entry.1 = other) = [] := by
        rw [List.filter_eq_nil_iff]
        intro entry inside
        rcases decodedEntries_cases (show (entry.1, entry.2) ∈ _ from inside) with
          ⟨here, -⟩ | ⟨matched, mne, decoded, found, here, -⟩
        · simp [here, Ne.symm different]
        · have size := small mne (by simpa [mnemonicsAt, free, decoded] using found)
          simp [here, aligned addr matched decoded mne found size, Ne.symm different]
      rw [mnemonics, valuesAt_pushAll, none, List.map_nil, List.append_nil]
      exact settled.away other before

theorem Settled.quiet {table : Mnemonics} {done : Set UInt64} (settled : Settled decode f table start done work)
    (empty : ∀ addr, addr ∉ work.todo) : Quiet decode f table start := by
  intro addr visits
  apply settled.silent
  induction visits with
  | start => exact settled.started.resolve_left (empty _)
  | unresolved label => exact (settled.unresolved _ _ _ label).resolve_left (empty _)
  | jump _ free jumps ih => exact (settled.closed _ ih free _ jumps).resolve_left (empty _)

theorem Settled.initial (size : UInt64) :
    Settled decode f (tableOf orders f start) start ∅ (initialWork orders f.cflowGraph start size) := by
  refine ⟨initial_keyed orders _ start size, by simp, .inl ((initial_todo size start).mpr (.inl rfl)),
    fun v value width label => .inl ((initial_todo size value).mpr (.inr ⟨v, width, label⟩)), by simp, fun addr _ => rfl⟩

/-- The bytes counted by a run, as a natural number. -/
def weightIn (decode : UInt64 → Except String Match) (todo : Nat → Enumeration UInt64) (turn : Nat × Worklist) : Nat :=
  ((taken todo turn).map (weight decode turn.2.mnemonics)).getD 0

private theorem ofNat_weightIn (turns : List (Nat × Worklist)) :
    UInt64.ofNat (turns.map (weightIn decode todo)).sum = (turns.map (countedIn decode todo)).sum := by
  have each (turn : Nat × Worklist) : UInt64.ofNat (weightIn decode todo turn) = countedIn decode todo turn := by
    cases drawn : taken todo turn with
    | none => simp [weightIn, countedIn, drawn]
    | some addr => simp [weightIn, countedIn, drawn, ofNat_weight]
  induction turns with
  | nil => rfl
  | cons turn turns ih => rw [List.map_cons, List.sum_cons, List.map_cons, List.sum_cons, ← ih, ← each, UInt64.ofNat_add]

private theorem quiet_of_run {table : Mnemonics} (aligned : Aligned decode) {done : Set UInt64}
    (run : Turns (turn decode todo) n work turns final) (settled : Settled decode f table start done work)
    (nothing : (turns.map (weightIn decode todo)).sum = 0) : Quiet decode f table start := by
  induction run generalizing done with
  | stops finished => exact settled.quiet (todo_empty finished)
  | @goes n work next _ turns step _ ih =>
    rw [List.map_cons, List.sum_cons, Nat.add_eq_zero_iff] at nothing
    obtain ⟨addr, drawn, kept⟩ := settled.turn aligned step
    refine ih (kept ?_) nothing.2
    simpa [weightIn, drawn] using nothing.1

end

section
variable {Region : Type} {arch : Architecture Region} {region : Region} {configuration : arch.Configuration}

/-- What a failed continuation should leave as it was. -/
structure Unchanged (f f' : Function) : Prop where
  cflowGraph : f'.cflowGraph = f.cflowGraph
  entryPoint : f'.entryPoint = f.entryPoint
  size : f'.size = f.size

/-- A failed continuation leaves the function as it was, but for the size it has counted meanwhile. -/
theorem cont_fails {orders : HashOrders} {fuel : Nat} {f f' : Function} {start : UInt64} {message : String}
    (failed : cont arch orders fuel f start region configuration = some (f', .error message)) :
    ∃ turns final, Turns (turn (arch.decode region · configuration) orders.todo) 0
        (initialWork orders f.cflowGraph start f.size) turns final ∧ f' = { f with size := final.size } := by
  simp only [cont, disassemble, Option.map_map, Option.map_eq_some_iff] at failed
  obtain ⟨work, finished, result⟩ := failed
  obtain ⟨turns, run⟩ := turns_of_loop finished
  refine ⟨turns, work, run, ?_⟩
  simp only [Function.comp_apply] at result
  split at result
  · cases result
  · next graph size' error same =>
    split at same
    · cases same
    · cases same
      cases result
      rfl

end

private theorem fails_with (result : Option (Function × Except String Unit)) (p : Function → Bool)
    (found : (match result with
      | some (f, .error _) => p f
      | _ => false) = true) : ∃ f message, result = some (f, .error message) ∧ p f = true := by
  split at found
  · exact ⟨_, _, rfl, found⟩
  · cases found

def oneInstruction : Architecture Unit := listing [instruction 0 1 []]

end Panopticon.Proofs.Size
