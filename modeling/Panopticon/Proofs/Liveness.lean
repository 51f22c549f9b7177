import Panopticon.Proofs.Dominator
import Panopticon.Proofs.Versions

/-! The sets computed for one block say which names it reads before writing them and
which it writes. -/

namespace Panopticon
open Library

/-- One access to a variable. -/
inductive Access where
  | read (rv : Rvalue)
  | write (lv : Lvalue)

def Statement.accesses (stmt : Statement) : List Access :=
  if stmt.op.isPhi then [] else stmt.op.operands.map .read ++ [.write stmt.assignee]

def Mnemonic.accesses (mne : Mnemonic) : List Access :=
  mne.operands.map .read ++ mne.instructions.flatMap Statement.accesses

def ControlFlowTarget.accesses : ControlFlowTarget → List Access
  | .resolved bb => bb.mnemonics.flatMap Mnemonic.accesses
  | _ => []

def Guard.accesses : Guard → List Access
  | .predicate flag _ => [.read flag]
  | _ => []

namespace Proofs.Liveness
open Panopticon.Liveness AdjacencyList

def touch (sets : Sets) : Access → Sets
  | .read rv => expose sets rv
  | .write lv => kill sets lv

def Exposes (accesses : List Access) (x : String) : Prop :=
  ∃ pre subscript offset size post, accesses = pre ++ .read (.var x subscript offset size) :: post ∧
    ∀ subscript size, .write (.var x subscript size) ∉ pre

def Writes (accesses : List Access) (x : String) : Prop := ∃ subscript size, .write (.var x subscript size) ∈ accesses

private theorem exposes_nil (x : String) : ¬ Exposes [] x := by
  intro holds
  obtain ⟨pre, _, _, _, post, same, _⟩ := holds
  cases pre <;> cases same

private theorem exposes_cons {access : Access} {accesses : List Access} {x : String} :
    Exposes (access :: accesses) x ↔ (∃ subscript offset size, access = .read (.var x subscript offset size)) ∨
      ((∀ subscript size, access ≠ .write (.var x subscript size)) ∧ Exposes accesses x) := by
  constructor
  · intro holds
    obtain ⟨pre, subscript, offset, size, post, same, unwritten⟩ := holds
    cases pre with
    | nil =>
      cases same
      exact .inl ⟨subscript, offset, size, rfl⟩
    | cons head pre =>
      cases same
      refine .inr ⟨fun subscript size equal => unwritten subscript size (by simp [equal]), ?_⟩
      exact ⟨pre, subscript, offset, size, post, rfl, fun s w member => unwritten s w (by simp [member])⟩
  · intro cases
    rcases cases with ⟨subscript, offset, size, rfl⟩ | ⟨plain, pre, subscript, offset, size, post, rfl, unwritten⟩
    · exact ⟨[], subscript, offset, size, accesses, rfl, by simp⟩
    · refine ⟨access :: pre, subscript, offset, size, post, rfl, ?_⟩
      intro s w member
      rcases List.mem_cons.mp member with same | member
      · exact plain s w same.symm
      · exact unwritten s w member

theorem mem_varkill_touch (sets : Sets) (access : Access) (x : String) :
    x ∈ (touch sets access).varkill ↔ x ∈ sets.varkill ∨ ∃ subscript size, access = .write (.var x subscript size) := by
  cases access with
  | read rv =>
    cases rv with
    | var name subscript offset size =>
      simp only [touch, expose]
      split <;> simp
    | undefined => simp [touch, expose]
    | constant => simp [touch, expose]
  | write lv =>
    cases lv with
    | var name subscript size => simp [touch, kill, or_comm]
    | undefined => simp [touch, kill]

private theorem mem_uevar_touch (sets : Sets) (access : Access) (x : String) :
    x ∈ (touch sets access).uevar ↔ x ∈ sets.uevar ∨ (x ∉ sets.varkill ∧
      ∃ subscript offset size, access = .read (.var x subscript offset size)) := by
  cases access with
  | read rv =>
    cases rv with
    | var name subscript offset size =>
      simp only [touch, expose]
      split
      · next killed =>
        simp only [Std.ExtTreeSet.contains_iff_mem] at killed
        refine ⟨.inl, fun cases => cases.elim id ?_⟩
        intro holds
        obtain ⟨alive, _, _, _, same⟩ := holds
        cases same
        exact absurd killed alive
      · next alive =>
        simp only [Std.ExtTreeSet.contains_iff_mem] at alive
        simp only [Std.ExtTreeSet.mem_insert, Std.LawfulEqCmp.compare_eq_iff_eq, Access.read.injEq, Rvalue.var.injEq]
        constructor
        · intro cases
          rcases cases with rfl | old
          · exact .inr ⟨alive, subscript, offset, size, rfl, rfl, rfl, rfl⟩
          · exact .inl old
        · intro cases
          rcases cases with old | ⟨_, _, _, _, same, _⟩
          · exact .inr old
          · exact .inl same
    | undefined => simp [touch, expose]
    | constant => simp [touch, expose]
  | write lv =>
    cases lv with
    | var name subscript size => simp [touch, kill]
    | undefined => simp [touch, kill]

private theorem mem_varkill (accesses : List Access) (sets : Sets) (x : String) :
    x ∈ (accesses.foldl touch sets).varkill ↔ x ∈ sets.varkill ∨ Writes accesses x := by
  induction accesses generalizing sets with
  | nil => simp [Writes]
  | cons access accesses ih =>
    rw [List.foldl_cons, ih, mem_varkill_touch]
    simp only [Writes, List.mem_cons, or_assoc]
    refine or_congr_right ?_
    constructor
    · intro cases
      rcases cases with ⟨s, w, same⟩ | ⟨s, w, member⟩
      · exact ⟨s, w, .inl same.symm⟩
      · exact ⟨s, w, .inr member⟩
    · intro holds
      obtain ⟨s, w, cases⟩ := holds
      rcases cases with same | member
      · exact .inl ⟨s, w, same.symm⟩
      · exact .inr ⟨s, w, member⟩

private theorem mem_uevar (accesses : List Access) (sets : Sets) (x : String) :
    x ∈ (accesses.foldl touch sets).uevar ↔ x ∈ sets.uevar ∨ (x ∉ sets.varkill ∧ Exposes accesses x) := by
  induction accesses generalizing sets with
  | nil => simp [exposes_nil]
  | cons access accesses ih =>
    rw [List.foldl_cons, ih, mem_uevar_touch, mem_varkill_touch, exposes_cons]
    simp only [not_or, not_exists, ← ne_eq]
    rw [or_assoc, and_assoc, ← and_or_left]

theorem Exposes.append {first : List Access} {x : String} (exposes : Exposes first x) (last : List Access) :
    Exposes (first ++ last) x := by
  obtain ⟨pre, subscript, offset, size, post, rfl, unwritten⟩ := exposes
  exact ⟨pre, subscript, offset, size, post ++ last, by simp, unwritten⟩

theorem mem_write_mnemonic {mne : Mnemonic} {lv : Lvalue} :
    .write lv ∈ mne.accesses ↔ ∃ stmt ∈ mne.instructions, stmt.op.isPhi = false ∧ stmt.assignee = lv := by
  simp only [Mnemonic.accesses, List.mem_append, List.mem_map, reduceCtorEq, and_false, exists_false, false_or,
    List.mem_flatMap]
  refine exists_congr fun stmt => and_congr_right fun _ => ?_
  unfold Statement.accesses
  split
  · next phi => simp [phi]
  · next plain => simp [plain, eq_comm]

theorem writes_iff {lb : ControlFlowTarget} {x : String} :
    Writes lb.accesses x ↔ ∃ stmt ∈ lb.statements, stmt.op.isPhi = false ∧ ∃ subscript size,
      stmt.assignee = .var x subscript size := by
  cases lb with
  | resolved bb =>
    simp only [Writes, ControlFlowTarget.accesses, ControlFlowTarget.statements, BasicBlock.statements, List.mem_flatMap,
      mem_write_mnemonic]
    constructor
    · intro holds
      obtain ⟨s, w, mne, listed, stmt, inside, plain, target⟩ := holds
      exact ⟨stmt, ⟨mne, listed, inside⟩, plain, s, w, target⟩
    · intro holds
      obtain ⟨stmt, ⟨mne, listed, inside⟩, plain, s, w, target⟩ := holds
      exact ⟨s, w, mne, listed, stmt, inside, plain, target⟩
  | unresolved => simp [Writes, ControlFlowTarget.accesses, ControlFlowTarget.statements]
  | failed => simp [Writes, ControlFlowTarget.accesses, ControlFlowTarget.statements]

theorem exposes_statement {lb : ControlFlowTarget} {pre post : List Statement} {stmt : Statement} {x : String}
    {subscript : Option Nat} {offset size : Nat} (split : lb.statements = pre ++ stmt :: post)
    (plain : stmt.op.isPhi = false) (read : .var x subscript offset size ∈ stmt.op.operands)
    (unwritten : ∀ other ∈ pre, ∀ subscript size, other.assignee ≠ .var x subscript size) : Exposes lb.accesses x := by
  cases lb with
  | unresolved => simp [ControlFlowTarget.statements] at split
  | failed => simp [ControlFlowTarget.statements] at split
  | resolved bb =>
    obtain ⟨front, mne, back, above, below, parts, inside, rfl, -⟩ := flatMap_eq_append_cons split
    obtain ⟨reads, others, operands⟩ := List.append_of_mem read
    refine ⟨front.flatMap Mnemonic.accesses ++ mne.operands.map .read ++ above.flatMap Statement.accesses ++
      reads.map .read, subscript, offset, size, others.map .read ++ [.write stmt.assignee] ++
      below.flatMap Statement.accesses ++ back.flatMap Mnemonic.accesses, ?_, ?_⟩
    · have here : stmt.accesses = reads.map .read ++ .read (.var x subscript offset size) :: others.map .read ++
          [.write stmt.assignee] := by
        simp [Statement.accesses, plain, operands]
      simp [ControlFlowTarget.accesses, parts, Mnemonic.accesses, inside, here]
    · intro s w member
      simp only [List.mem_append, List.mem_map, reduceCtorEq, and_false, exists_false, or_false, List.mem_flatMap] at member
      rcases member with (⟨other, listed, write⟩) | ⟨other, listed, write⟩
      · obtain ⟨target, within, -, assigned⟩ := mem_write_mnemonic.mp write
        exact unwritten target (List.mem_append_left _ (List.mem_flatMap.mpr ⟨other, listed, within⟩)) s w assigned
      · unfold Statement.accesses at write
        split at write
        · cases write
        · simp only [List.mem_append, List.mem_map, reduceCtorEq, and_false, exists_false, List.mem_singleton,
            Access.write.injEq, false_or] at write
          exact unwritten other (List.mem_append_right _ listed) s w write.symm

variable {ε : Type} {cfg : ControlFlowGraph}

private theorem scanStatement_eq (sets : Sets) (stmt : Statement) : scanStatement sets stmt = stmt.accesses.foldl touch sets := by
  unfold scanStatement Statement.accesses
  split
  · rfl
  · rw [List.foldl_append, List.foldl_map]
    rfl

private theorem scanMnemonic_eq (sets : Sets) (mne : Mnemonic) : scanMnemonic sets mne = mne.accesses.foldl touch sets := by
  unfold scanMnemonic Mnemonic.accesses
  rw [List.foldl_append, List.foldl_map, List.foldl_flatMap]
  congr 1
  funext sets stmt
  exact scanStatement_eq sets stmt

/-- The accesses of a vertex and of the guards on the edges that leave it. -/
def accessesAt (cfg : ControlFlowGraph) (v : Nat) : List Access :=
  ((cfg.vertexLabel v).map ControlFlowTarget.accesses).getD [] ++
    (cfg.outEdges[v]?.getD []).flatMap fun e => ((cfg.edgeLabel e).map Guard.accesses).getD []

private theorem not_writes_guards {edges : List Nat} {x : String} :
    ¬ Writes (edges.flatMap fun e => ((cfg.edgeLabel e).map Guard.accesses).getD []) x := by
  intro holds
  obtain ⟨s, w, member⟩ := holds
  obtain ⟨e, -, inside⟩ := List.mem_flatMap.mp member
  cases label : cfg.edgeLabel e with
  | none => simp [label] at inside
  | some gu => cases gu <;> simp [label, Guard.accesses] at inside

theorem writesAt_iff {v : Nat} {x : String} :
    Writes (accessesAt cfg v) x ↔ ∃ lb, cfg.vertexLabel v = some lb ∧ Writes lb.accesses x := by
  have split : Writes (accessesAt cfg v) x ↔ Writes (((cfg.vertexLabel v).map ControlFlowTarget.accesses).getD []) x := by
    constructor
    · intro holds
      obtain ⟨s, w, member⟩ := holds
      rcases List.mem_append.mp member with label | guard
      · exact ⟨s, w, label⟩
      · exact absurd ⟨s, w, guard⟩ not_writes_guards
    · intro holds
      obtain ⟨s, w, member⟩ := holds
      exact ⟨s, w, List.mem_append_left _ member⟩
  rw [split]
  cases cfg.vertexLabel v with
  | none => simp [Writes]
  | some lb => simp

theorem exposes_guard {v e : Nat} {out : List Nat} {x : String} {subscript : Option Nat} {offset size : Nat} {expected : Bool}
    (list : cfg.outEdges[v]? = some out) (member : e ∈ out)
    (label : cfg.edgeLabel e = some (.predicate (.var x subscript offset size) expected))
    (unwritten : ¬ Writes (accessesAt cfg v) x) : Exposes (accessesAt cfg v) x := by
  have read : .read (.var x subscript offset size) ∈ accessesAt cfg v := by
    refine List.mem_append_right _ (List.mem_flatMap.mpr ⟨e, ?_, ?_⟩)
    · simpa [list] using member
    · simp [label, Guard.accesses]
  obtain ⟨pre, post, split⟩ := List.append_of_mem read
  refine ⟨pre, subscript, offset, size, post, split, fun s w write => unwritten ⟨s, w, ?_⟩⟩
  rw [split]
  exact List.mem_append_left _ write

private theorem scanVertex_eq {table table' : Table} {vx : Nat} (scanned : (scanVertex cfg table vx : Outcome ε _) = .returns table') :
    table' = table.insert vx ((accessesAt cfg vx).foldl touch (table[vx]?.getD ⟨∅, ∅⟩)) := by
  simp only [scanVertex, outgoing, Outcome.bind_eq_returns, Outcome.unwrap_eq_returns, Outcome.pure_eq,
    Outcome.returns.injEq] at scanned
  obtain ⟨out, list, rfl⟩ := scanned
  have guards : ∀ sets, (out.map cfg.edgeLabel).foldl scanGuard sets =
      (out.flatMap fun e => ((cfg.edgeLabel e).map Guard.accesses).getD []).foldl touch sets := by
    intro sets
    rw [List.foldl_map, List.foldl_flatMap]
    congr 1
    funext sets e
    cases cfg.edgeLabel e with
    | none => rfl
    | some gu => cases gu <;> rfl
  have label : ∀ sets, scanLabel sets (cfg.vertexLabel vx) =
      (((cfg.vertexLabel vx).map ControlFlowTarget.accesses).getD []).foldl touch sets := by
    intro sets
    cases cfg.vertexLabel vx with
    | none => rfl
    | some lb =>
      cases lb with
      | resolved bb =>
        simp only [scanLabel, Option.map_some, Option.getD_some, ControlFlowTarget.accesses]
        rw [List.foldl_flatMap]
        congr 1
        funext sets mne
        exact scanMnemonic_eq sets mne
      | unresolved => rfl
      | failed => rfl
  rw [guards, label, accessesAt, list, Option.getD_some, List.foldl_append]

def Exact (cfg : ControlFlowGraph) (vx : Nat) (sets : Sets) : Prop :=
  ∀ x, (x ∈ sets.uevar ↔ Exposes (accessesAt cfg vx) x) ∧ (x ∈ sets.varkill ↔ Writes (accessesAt cfg vx) x)

theorem livenessSets_exact {f : Function} {fuel : Nat} {table : Table}
    (computed : (livenessSets f fuel : Outcome ε _) = .returns table) :
    ∃ order, (f.postorder fuel : Outcome ε _) = .returns order ∧
      (∀ (vx : Nat) sets, table[vx]? = some sets → vx ∈ order ∧ Exact f.cflowGraph vx sets) ∧ ∀ vx ∈ order, (table[vx]?).isSome := by
  simp only [livenessSets, Outcome.bind_eq_returns] at computed
  obtain ⟨order, collected, folded⟩ := computed
  refine ⟨order, collected, ?_⟩
  suffices general : ∀ (items : List Nat) (before : Table),
      (∀ (vx : Nat) sets, before[vx]? = some sets → vx ∈ order ∧ Exact f.cflowGraph vx sets) → (∀ vx ∈ items, vx ∈ order) →
      Outcome.fold (scanVertex f.cflowGraph) before items = (.returns table : Outcome ε _) →
      (∀ (vx : Nat) sets, table[vx]? = some sets → vx ∈ order ∧ Exact f.cflowGraph vx sets) ∧
        (∀ vx ∈ items, (table[vx]?).isSome) ∧ ∀ vx : Nat, (before[vx]?).isSome → (table[vx]?).isSome by
    obtain ⟨exact, present, -⟩ := general order ∅ (by simp) (fun _ member => member) folded
    exact ⟨exact, present⟩
  intro items
  induction items with
  | nil =>
    intro before exact _ folded
    cases folded
    exact ⟨exact, by simp, fun _ present => present⟩
  | cons vx items ih =>
    intro before exact inside folded
    simp only [Outcome.fold, Outcome.bind_eq_returns] at folded
    obtain ⟨middle, scanned, rest⟩ := folded
    have entry := scanVertex_eq scanned
    have step : ∀ (w : Nat) sets, middle[w]? = some sets → w ∈ order ∧ Exact f.cflowGraph w sets := by
      intro w sets found
      rw [entry, Std.ExtTreeMap.getElem?_insert] at found
      split at found
      · next same =>
        simp only [Nat.compare_eq_eq] at same
        subst w
        cases found
        refine ⟨inside vx (by simp), fun x => ?_⟩
        rw [mem_uevar, mem_varkill]
        cases old : before[vx]? with
        | none => simp
        | some sets =>
          obtain ⟨exposed, killed⟩ := (exact vx sets old).2 x
          simp only [Option.getD_some, exposed, killed]
          tauto
      · exact exact w sets found
    obtain ⟨exact', present, kept⟩ := ih middle step (fun w member => inside w (by simp [member])) rest
    refine ⟨exact', List.forall_mem_cons.mpr ⟨kept vx (by simp [entry]), present⟩, fun w old => kept w ?_⟩
    rw [entry, Std.ExtTreeMap.getElem?_insert]
    split
    · rfl
    · exact old

private theorem mem_addUsage (usage : Ssa.Usage) (vx : Nat) (vk : Names) (x : String) (w : Nat) :
    w ∈ (Ssa.addUsage usage vx vk)[x]?.getD ∅ ↔ w ∈ usage[x]?.getD ∅ ∨ (w = vx ∧ x ∈ vk) := by
  suffices general : ∀ (names : List String) (usage : Ssa.Usage),
      w ∈ (names.foldl (fun usage v => usage.insert v ((usage[v]?.getD ∅).insert vx)) usage)[x]?.getD ∅ ↔
        w ∈ usage[x]?.getD ∅ ∨ (w = vx ∧ x ∈ names) by
    simpa [Ssa.addUsage] using general vk.toList usage
  intro names
  induction names with
  | nil => simp
  | cons name names ih =>
    intro usage
    rw [List.foldl_cons, ih, Std.ExtTreeMap.getElem?_insert]
    by_cases same : name = x
    · subst name
      simp only [Std.LawfulEqCmp.compare_eq_iff_eq, ite_true, Option.getD_some, Std.ExtTreeSet.mem_insert,
        List.mem_cons, true_or, and_true]
      constructor
      · intro cases
        rcases cases with (here | old) | ⟨here, -⟩
        · exact .inr here.symm
        · exact .inl old
        · exact .inr here
      · intro cases
        rcases cases with old | here
        · exact .inl (.inr old)
        · exact .inl (.inl here.symm)
    · simp [same, Ne.symm same]

/-- Global names are read before written somewhere, and the usage of a name lists the blocks that write it. -/
theorem globalNames_exact {f : Function} {fuel : Nat} {globals : Names} {usage : Ssa.Usage}
    (computed : (Ssa.globalNames f fuel : Outcome ε _) = .returns (globals, usage)) :
    ∃ order, (f.postorder fuel : Outcome ε _) = .returns order ∧
      (∀ x, x ∈ globals ↔ ∃ v ∈ order, Exposes (accessesAt f.cflowGraph v) x) ∧
      ∀ x w, w ∈ usage[x]?.getD ∅ ↔ w ∈ order ∧ Writes (accessesAt f.cflowGraph w) x := by
  simp only [Ssa.globalNames, Outcome.bind_eq_returns, Outcome.pure_eq, Outcome.returns.injEq, Prod.mk.injEq] at computed
  obtain ⟨table, scanned, rfl, rfl⟩ := computed
  obtain ⟨order, collected, exact, present⟩ := livenessSets_exact scanned
  have entries : ∀ vx sets, (vx, sets) ∈ table.toList ↔ table[vx]? = some sets :=
    fun vx sets => Std.ExtTreeMap.mem_toList_iff_getElem?_eq_some
  refine ⟨order, collected, ?_, ?_⟩
  · intro x
    have members : ∀ (items : List (Nat × Sets)) (globals : Names),
        x ∈ items.foldl (fun globals entry => globals.insertMany entry.2.uevar.toList) globals ↔
          x ∈ globals ∨ ∃ entry ∈ items, x ∈ entry.2.uevar := by
      intro items
      induction items with
      | nil => simp
      | cons entry items ih =>
        intro globals
        simp [ih, Std.ExtTreeSet.mem_insertMany_list, or_assoc]
    rw [members]
    constructor
    · intro cases
      obtain ⟨⟨vx, sets⟩, member, inside⟩ := cases.resolve_left (by simp)
      obtain ⟨listed, sets⟩ := exact vx sets ((entries vx sets).mp member)
      exact ⟨vx, listed, (sets x).1.mp inside⟩
    · intro holds
      obtain ⟨vx, listed, exposes⟩ := holds
      obtain ⟨sets, found⟩ := Option.isSome_iff_exists.mp (present vx listed)
      exact .inr ⟨(vx, sets), (entries vx sets).mpr found, ((exact vx sets found).2 x).1.mpr exposes⟩
  · intro x w
    have members : ∀ (items : List (Nat × Sets)) (usage : Ssa.Usage),
        w ∈ (items.foldl (fun usage entry => Ssa.addUsage usage entry.1 entry.2.varkill) usage)[x]?.getD ∅ ↔
          w ∈ usage[x]?.getD ∅ ∨ ∃ entry ∈ items, w = entry.1 ∧ x ∈ entry.2.varkill := by
      intro items
      induction items with
      | nil => simp
      | cons entry items ih =>
        intro usage
        simp [ih, mem_addUsage, or_assoc]
    rw [members]
    constructor
    · intro cases
      obtain ⟨⟨vx, sets⟩, member, rfl, inside⟩ := cases.resolve_left (by simp)
      obtain ⟨listed, sets⟩ := exact w sets ((entries w sets).mp member)
      exact ⟨listed, (sets x).2.mp inside⟩
    · intro holds
      obtain ⟨listed, writes⟩ := holds
      obtain ⟨sets, found⟩ := Option.isSome_iff_exists.mp (present w listed)
      exact .inr ⟨(w, sets), (entries w sets).mpr found, rfl, ((exact w sets found).2 x).2.mpr writes⟩

end Proofs.Liveness
end Panopticon
