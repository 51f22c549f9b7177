import Panopticon.Proofs.DominatorTotal
import Panopticon.Proofs.SsaForm

/-! When a conversion that fails has left the function as it was. -/

namespace Panopticon.Proofs.SsaFailure
open Library Ssa Panopticon.Liveness Proofs.Liveness Proofs.PhiPlacement Proofs.Renaming AdjacencyList
open Outcome (Unfailing)

section Quiet
variable {ε N E : Type}

private theorem firstUnseen_unfailing (g : AdjacencyList N E) (seen : Std.ExtTreeSet Nat) (out : List Nat) :
    Unfailing (TreeIterator.firstUnseen g seen out : Outcome ε _) := by
  induction out with
  | nil => exact .returns _
  | cons e out ih =>
    refine (Unfailing.unwrap _).bind fun vx => ?_
    split
    · exact ih
    · exact .returns _

theorem collectPostorder_unfailing (g : AdjacencyList N E) (fuel start : Nat) :
    Unfailing (TreeIterator.collectPostorder g fuel start : Outcome ε _) := by
  refine (Unfailing.repeated (fun _ it => ?_) _ _ _).bind fun _ => .returns _
  refine (Unfailing.unwrap _).bind fun out => (firstUnseen_unfailing g _ out).bind fun found => ?_
  cases found with
  | some vx => exact .returns _
  | none =>
    cases it.stack with
    | nil => exact .returns _
    | cons parent stack => exact .returns _

theorem predecessors_unfailing (g : AdjacencyList N E) (b : Nat) : Unfailing (Dominator.predecessors g b : Outcome ε _) :=
  (Unfailing.unwrap _).bind fun _ => (Unfailing.each fun _ => .unwrap _).bind fun _ => .returns _

private theorem intersect_unfailing (fuel : Nat) (poIdx : Std.ExtTreeMap Nat Nat) (postorder : List Nat) (ret : DominatorTable)
    (b1 b2 : Nat) : Unfailing (Dominator.intersect fuel poIdx postorder ret b1 b2 : Outcome ε _) := by
  have climbs : ∀ f, Unfailing (Dominator.climb poIdx postorder ret f : Outcome ε _) :=
    fun f => (Unfailing.unwrap _).bind fun _ => (Unfailing.unwrap _).bind fun _ => .unwrap _
  refine (Unfailing.unwrap _).bind fun _ => (Unfailing.unwrap _).bind fun _ =>
    (Unfailing.repeated (fun _ fingers => ?_) _ _ _).bind fun _ => .unwrap _
  unfold Dominator.moveFinger
  split
  · exact (climbs _).bind fun _ => .returns _
  · split
    · exact (climbs _).bind fun _ => .returns _
    · exact .returns _

theorem immediateDominator_unfailing (g : AdjacencyList N E) (fuel start : Nat) :
    Unfailing (Dominator.immediateDominator g fuel start : Outcome ε _) := by
  refine (collectPostorder_unfailing g fuel start).bind fun order => .repeated (fun _ ret => ?_) _ _ _
  refine (Unfailing.fold (fun pass b => ?_) _ _).bind fun _ => .returns _
  have meets : Unfailing (Dominator.newIdom g fuel (Dominator.positions order) order pass.1 b : Outcome ε _) := by
    refine (predecessors_unfailing g b).bind fun pred => (Unfailing.unwrap _).bind fun first => .fold (fun dom p => ?_) _ _
    split
    · exact intersect_unfailing _ _ _ _ _ _
    · exact .returns _
  refine meets.bind fun dom => ?_
  split
  · exact .returns _
  · exact .returns _

theorem dominanceFrontiers_unfailing (g : AdjacencyList N E) (vertices : Enumeration Nat) (fuel : Nat) (idom : DominatorTable) :
    Unfailing (Dominator.dominanceFrontiers g vertices fuel idom : Outcome ε _) := by
  refine (Unfailing.fold (fun ret b => ?_) _ _).bind fun _ => .returns _
  refine (predecessors_unfailing g b).bind fun pred => ?_
  split
  · refine .fold (fun ret p => (Unfailing.repeated (fun _ state => ?_) _ _ _).bind fun _ => .returns _) _ _
    refine (Unfailing.unwrap _).bind fun dom => ?_
    split
    · exact .returns _
    · exact (Unfailing.unwrap _).bind fun _ => .returns _
  · exact .returns _

theorem globalNames_unfailing (f : Function) (fuel : Nat) : Unfailing (globalNames f fuel : Outcome ε _) := by
  refine Unfailing.bind ?_ fun _ => .returns _
  refine (collectPostorder_unfailing _ _ _).bind fun order => .fold (fun table vx => ?_) _ _
  exact (Unfailing.unwrap _).bind fun _ => .returns _

end Quiet

/-- The opcode of a mnemonic and which of its statements are phi functions. -/
def kinds (mne : Mnemonic) : String × List Bool := (mne.opcode, mne.instructions.map (·.op.isPhi))

def kindsOf : ControlFlowTarget → List (String × List Bool)
  | .resolved bb => bb.mnemonics.map kinds
  | _ => []

def kindsAt (g : ControlFlowGraph) (v : Nat) : List (String × List Bool) := ((g.vertexLabel v).map kindsOf).getD []

def SameKinds (g g' : ControlFlowGraph) : Prop := ∀ v, kindsAt g' v = kindsAt g v

theorem SameKinds.trans {g g' g'' : ControlFlowGraph} (first : SameKinds g g') (second : SameKinds g' g'') : SameKinds g g'' :=
  fun v => (second v).trans (first v)

theorem SameKinds.setVertexLabel {g : ControlFlowGraph} {v : Nat} {lb lb' : ControlFlowTarget}
    (label : g.vertexLabel v = some lb) (same : kindsOf lb' = kindsOf lb) : SameKinds g (g.setVertexLabel v lb') := by
  intro w
  simp only [kindsAt, vertexLabel_setVertexLabel]
  split
  · next here =>
    subst w
    simp [label, same]
  · rfl

/-- A phi function where the renaming does not expect one. -/
def Misplaced (list : List (String × List Bool)) : Prop := ∃ entry ∈ list, entry.1 ≠ "__phi" ∧ true ∈ entry.2

theorem accumulate_map {σ α β : Type} {f : σ → α → σ × α} {key : α → β} (kept : ∀ state a, key (f state a).2 = key a)
    (state : σ) (as : List α) : (accumulate f state as).2.map key = as.map key := by
  induction as generalizing state with
  | nil => rfl
  | cons a as ih => simp [accumulate, kept, ih]

private theorem numberMnemonic_kinds (vs : Versions) (mne : Mnemonic) : kinds (numberMnemonic vs mne).2 = kinds mne := by
  have phi : ∀ (vs : Versions) (stmt : Statement), (numberPhi vs stmt).2.op.isPhi = stmt.op.isPhi := by
    intro vs stmt
    unfold numberPhi
    split <;> rfl
  simp only [kinds, numberMnemonic]
  rw [accumulate_map phi]

section
variable {ε : Type}

private theorem rewrite_statements_kinds {vs vs' : Versions} {stmts stmts' : List Statement} {stop : Option String}
    (renamed : Outcome.rewrite renameStatement vs stmts = (.returns (vs', stmts', stop) : Outcome ε _)) :
    stmts'.map (·.op.isPhi) = stmts.map (·.op.isPhi) ∧ (stop.isSome ↔ ∃ stmt ∈ stmts, stmt.op.isPhi = true) := by
  induction stmts generalizing vs stmts' with
  | nil =>
    cases renamed
    simp
  | cons stmt stmts ih =>
    simp only [Outcome.rewrite, Outcome.bind_eq_returns] at renamed
    obtain ⟨⟨middle, first, halt⟩, step, rest⟩ := renamed
    unfold renameStatement at step
    split at step
    · next phi =>
      cases step
      cases rest
      simp [phi]
    · next plain =>
      split at step
      · cases step
        simp only [Outcome.bind_eq_returns, Outcome.pure_eq, Outcome.returns.injEq] at rest
        obtain ⟨⟨last, others, halt⟩, later, same⟩ := rest
        cases same
        obtain ⟨kept, stops⟩ := ih later
        have kind : (stmt.op.lift (inScope vs)).isPhi = stmt.op.isPhi := by cases stmt.op <;> rfl
        refine ⟨by simp [kept, kind], ?_⟩
        rw [stops]
        simp [plain]
      · cases step

private theorem renameMnemonic_kinds {vs vs' : Versions} {mne mne' : Mnemonic} {stop : Option String}
    (renamed : (renameMnemonic vs mne : Outcome ε _) = .returns (vs', mne', stop)) :
    kinds mne' = kinds mne ∧ (stop.isSome ↔ mne.opcode ≠ "__phi" ∧ true ∈ (kinds mne).2) := by
  unfold renameMnemonic at renamed
  split at renamed
  · next phi =>
    cases renamed
    simp [phi]
  · next plain =>
    simp only [Outcome.bind_eq_returns, Outcome.pure_eq, Outcome.returns.injEq] at renamed
    obtain ⟨⟨last, instructions, halt⟩, rewritten, same⟩ := renamed
    cases same
    obtain ⟨kept, stops⟩ := rewrite_statements_kinds rewritten
    refine ⟨by simp [kinds, kept], ?_⟩
    rw [stops]
    simp [plain, kinds]

private theorem rewrite_mnemonics_kinds {vs vs' : Versions} {mnes mnes' : List Mnemonic} {stop : Option String}
    (renamed : Outcome.rewrite renameMnemonic vs mnes = (.returns (vs', mnes', stop) : Outcome ε _)) :
    mnes'.map kinds = mnes.map kinds ∧ (stop.isSome ↔ Misplaced (mnes.map kinds)) := by
  induction mnes generalizing vs mnes' with
  | nil =>
    cases renamed
    simp [Misplaced]
  | cons mne mnes ih =>
    simp only [Outcome.rewrite, Outcome.bind_eq_returns] at renamed
    obtain ⟨⟨middle, first, halt⟩, step, rest⟩ := renamed
    obtain ⟨same, stops⟩ := renameMnemonic_kinds step
    have split : Misplaced ((mne :: mnes).map kinds) ↔
        (mne.opcode ≠ "__phi" ∧ true ∈ (kinds mne).2) ∨ Misplaced (mnes.map kinds) := by
      simp [Misplaced, kinds]
    cases halt with
    | some message =>
      cases rest
      exact ⟨by simp [same], iff_of_true rfl (split.mpr (.inl (stops.mp rfl)))⟩
    | none =>
      simp only [Outcome.bind_eq_returns, Outcome.pure_eq, Outcome.returns.injEq] at rest
      obtain ⟨⟨last, others, halt⟩, later, equal⟩ := rest
      cases equal
      obtain ⟨kept, later⟩ := ih later
      have clean : ¬ (mne.opcode ≠ "__phi" ∧ true ∈ (kinds mne).2) := fun bad => by
        have absurd := stops.mpr bad
        cases absurd
      exact ⟨by simp [same, kept], by rw [later, split, or_iff_right clean]⟩

private theorem kinds_strip (mne : Mnemonic) : kinds mne.strip = kinds mne := by
  simp [kinds, Mnemonic.strip]

private theorem fillTarget_kinds {vs : Versions} {lb lb' : ControlFlowTarget}
    (filled : (fillTarget vs lb : Outcome ε _) = .returns lb') : kindsOf lb' = kindsOf lb := by
  cases lb with
  | resolved bb =>
    simp only [fillTarget, Outcome.bind_eq_returns, Outcome.pure_eq, Outcome.returns.injEq] at filled
    obtain ⟨mnemonics, each, rfl⟩ := filled
    have same := congrArg (List.map kinds) (Versions.each_fillMnemonic each).2
    simpa [kindsOf, Function.comp_def, kinds_strip] using same
  | unresolved rv =>
    simp only [fillTarget, Outcome.bind_eq_returns, Outcome.pure_eq, Outcome.returns.injEq] at filled
    obtain ⟨rv', -, rfl⟩ := filled
    rfl
  | failed pos msg =>
    cases filled
    rfl

theorem renameRead_unfailing (vs : Versions) (rv : Rvalue) : Unfailing (renameRead vs rv : Outcome ε _) := by
  unfold renameRead
  split
  · exact .returns _
  · exact .panics

private theorem fillOperands_unfailing (vs : Versions) (ops : List Rvalue) : Unfailing (fillOperands vs ops : Outcome ε _) := by
  fun_induction fillOperands vs ops with
  | case1 => exact .returns _
  | case2 => exact (renameRead_unfailing vs _).bind fun _ => .returns _
  | case3 _ _ _ ih => exact ih.bind fun _ => .returns _

theorem fillTarget_unfailing (vs : Versions) (lb : ControlFlowTarget) : Unfailing (fillTarget vs lb : Outcome ε _) := by
  cases lb with
  | resolved bb =>
    refine (Unfailing.each fun mne => (Unfailing.each fun stmt => ?_).bind fun _ => .returns _).bind fun _ => .returns _
    unfold fillStatement
    split
    · exact (fillOperands_unfailing vs _).bind fun _ => .returns _
    · exact .returns _
  | unresolved rv => exact (renameRead_unfailing vs rv).bind fun _ => .returns _
  | failed pos msg => exact .returns _

theorem rename_mnemonics_unfailing (vs : Versions) (mnes : List Mnemonic) :
    Unfailing (Outcome.rewrite renameMnemonic vs mnes : Outcome ε _) := by
  refine .rewrite (fun vs mne => ?_) _ _
  unfold renameMnemonic
  split
  · exact .returns _
  · refine (Unfailing.rewrite (fun vs stmt => ?_) _ _).bind fun _ => .returns _
    unfold renameStatement
    split
    · exact .returns _
    · split
      · exact .returns _
      · exact .panics

end

/-- A block is renamed up to the first phi function that stands where none is expected. -/
theorem renameBlock_kinds {b : Nat} {st : Renaming} :
    (∀ st', renameBlock b st = .returns st' → SameKinds st.cfg st'.cfg ∧ ¬ Misplaced (kindsAt st.cfg b)) ∧
    ∀ failure, renameBlock b st = .fails failure → SameKinds st.cfg failure.cfg ∧ Misplaced (kindsAt st.cfg b) := by
  unfold renameBlock
  split
  · next bb label =>
    have here : kindsAt st.cfg b = bb.mnemonics.map kinds := by simp [kindsAt, label, kindsOf]
    have numbered : (accumulate numberMnemonic st.versions bb.mnemonics).2.map kinds = bb.mnemonics.map kinds :=
      accumulate_map numberMnemonic_kinds _ _
    have rewrites : ∀ {vs : Versions} {mnemonics : List Mnemonic} {stop : Option String},
        Outcome.rewrite renameMnemonic (accumulate numberMnemonic st.versions bb.mnemonics).1
          (accumulate numberMnemonic st.versions bb.mnemonics).2 = (.returns (vs, mnemonics, stop) : Outcome Failure _) →
        SameKinds st.cfg (st.cfg.setVertexLabel b (.resolved { bb with mnemonics })) ∧
          (stop.isSome ↔ Misplaced (kindsAt st.cfg b)) := by
      intro vs mnemonics stop rewritten
      obtain ⟨kept, stops⟩ := rewrite_mnemonics_kinds rewritten
      exact ⟨.setVertexLabel label (kept.trans numbered), by rw [stops, numbered, here]⟩
    refine ⟨fun st' returned => ?_, fun failure failed => ?_⟩
    · simp only [Outcome.bind_eq_returns] at returned
      obtain ⟨⟨vs, mnemonics, stop⟩, rewritten, rest⟩ := returned
      obtain ⟨same, stops⟩ := rewrites rewritten
      cases stop with
      | some message => cases rest
      | none =>
        cases rest
        refine ⟨same, fun bad => ?_⟩
        have absurd := stops.mpr bad
        cases absurd
    · rcases Outcome.bind_eq_fails.mp failed with early | ⟨⟨vs, mnemonics, stop⟩, rewritten, rest⟩
      · exact absurd early (rename_mnemonics_unfailing _ _ _)
      · obtain ⟨same, stops⟩ := rewrites rewritten
        cases stop with
        | none => cases rest
        | some message =>
          cases rest
          exact ⟨same, stops.mp rfl⟩
  · next other =>
    have empty : kindsAt st.cfg b = [] := by
      cases label : st.cfg.vertexLabel b with
      | none => simp [kindsAt, label]
      | some lb =>
        cases lb with
        | resolved bb => exact absurd label (other bb)
        | unresolved => simp [kindsAt, label, kindsOf]
        | failed => simp [kindsAt, label, kindsOf]
    refine ⟨fun st' returned => ?_, fun failure failed => ?_⟩
    · cases returned
      exact ⟨fun _ => rfl, by simp [empty, Misplaced]⟩
    · cases failed

private theorem renameEdge_unfailing (st : Renaming) (s : Nat) : Unfailing (renameEdge st s) := by
  have edge : Unfailing (relabelEdge st.versions st.cfg s : Outcome Failure _) := by
    unfold relabelEdge
    split
    · refine Unfailing.bind ?_ fun _ => .returns _
      unfold renameGuard
      split
      · exact (renameRead_unfailing _ _).bind fun _ => .returns _
      · exact .returns _
    · exact .returns _
  refine edge.bind fun cfg => (Unfailing.unwrap _).bind fun v => Unfailing.bind ?_ fun _ => .returns _
  unfold relabelTarget
  split
  · exact (fillTarget_unfailing _ _).bind fun _ => .returns _
  · exact .returns _

private theorem renameEdge_kinds {st st' : Renaming} {s : Nat} (renamed : renameEdge st s = .returns st') : SameKinds st.cfg st'.cfg := by
  simp only [renameEdge, Outcome.bind_eq_returns, Outcome.pure_eq, Outcome.returns.injEq] at renamed
  obtain ⟨middle, edge, v, -, last, target, rfl⟩ := renamed
  have first : SameKinds st.cfg middle := by
    unfold relabelEdge at edge
    split at edge
    · simp only [Outcome.bind_eq_returns, Outcome.pure_eq, Outcome.returns.injEq] at edge
      obtain ⟨gu, -, rfl⟩ := edge
      exact fun _ => rfl
    · cases edge
      exact fun _ => rfl
  refine first.trans ?_
  unfold relabelTarget at target
  split at target
  · next lb label =>
    simp only [Outcome.bind_eq_returns, Outcome.pure_eq, Outcome.returns.injEq] at target
    obtain ⟨lb', filled, rfl⟩ := target
    exact .setVertexLabel label (fillTarget_kinds filled)
  · cases target
    exact fun _ => rfl

theorem enterBlock_kinds {b : Nat} {st : Renaming} :
    (∀ st', enterBlock b st = .returns st' → SameKinds st.cfg st'.cfg ∧ ¬ Misplaced (kindsAt st.cfg b)) ∧
    ∀ failure, enterBlock b st = .fails failure → SameKinds st.cfg failure.cfg ∧ Misplaced (kindsAt st.cfg b) := by
  refine ⟨fun st' returned => ?_, fun failure failed => ?_⟩
  · simp only [enterBlock, Outcome.bind_eq_returns] at returned
    obtain ⟨middle, renamed, succ, -, folded⟩ := returned
    obtain ⟨same, clean⟩ := renameBlock_kinds.1 middle renamed
    have edges := Outcome.fold_invariant (fun last : Renaming => SameKinds st.cfg last.cfg)
      (fun _ _ _ _ holds step => holds.trans (renameEdge_kinds step)) same folded
    exact ⟨edges, clean⟩
  · simp only [enterBlock] at failed
    rcases Outcome.bind_eq_fails.mp failed with here | ⟨middle, -, later⟩
    · exact renameBlock_kinds.2 failure here
    · exact absurd later (((Unfailing.unwrap _).bind fun _ => .fold renameEdge_unfailing _ _) failure)

def Below (idom : DominatorTable) : Nat → Nat → Prop := Relation.ReflTransGen fun b k => idom[k]? = some b ∧ k ≠ b

theorem popBlock_cfg (b : Nat) (st : Renaming) : (popBlock b st).cfg = st.cfg := by
  unfold popBlock
  split <;> rfl

theorem rename_returns_kinds {orders : SsaOrders} {idom : DominatorTable} {fuel b : Nat} {st st' : Renaming}
    (returned : rename orders idom fuel b st = .returns st') :
    SameKinds st.cfg st'.cfg ∧ ∀ v, Below idom b v → ¬ Misplaced (kindsAt st.cfg v) := by
  induction fuel generalizing b st st' with
  | zero => cases returned
  | succ fuel ih =>
    simp only [rename, Outcome.bind_eq_returns, Outcome.pure_eq, Outcome.returns.injEq] at returned
    obtain ⟨entered, entering, last, folded, rfl⟩ := returned
    obtain ⟨same, clean⟩ := enterBlock_kinds.1 entered entering
    -- the children rename one after the other, each from a graph of the same kinds
    have all : ∀ (items : List Nat) (first last : Renaming), SameKinds st.cfg first.cfg →
        Outcome.fold (fun st k => rename orders idom fuel k st) first items = .returns last →
        SameKinds st.cfg last.cfg ∧ ∀ k ∈ items, ∀ v, Below idom k v → ¬ Misplaced (kindsAt st.cfg v) := by
      intro items
      induction items with
      | nil =>
        intro first last same folded
        cases folded
        exact ⟨same, by simp⟩
      | cons k items rest =>
        intro first last same folded
        simp only [Outcome.fold, Outcome.bind_eq_returns] at folded
        obtain ⟨middle, step, folded⟩ := folded
        obtain ⟨kept, below⟩ := ih step
        obtain ⟨final, others⟩ := rest middle last (same.trans kept) folded
        refine ⟨final, List.forall_mem_cons.mpr ⟨fun v under => ?_, others⟩⟩
        rw [← same v]
        exact below v under
    obtain ⟨final, children⟩ := all _ _ _ same folded
    refine ⟨by rw [popBlock_cfg]; exact final, fun v under => ?_⟩
    rcases Relation.ReflTransGen.cases_head under with rfl | ⟨k, child, under⟩
    · exact clean
    · exact children k (mem_children.mpr child) v under

private theorem rename_fails_kinds {orders : SsaOrders} {idom : DominatorTable} {fuel b : Nat} {st : Renaming} {failure : Failure}
    (failed : rename orders idom fuel b st = .fails failure) :
    SameKinds st.cfg failure.cfg ∧ ∃ v, Misplaced (kindsAt st.cfg v) := by
  induction fuel generalizing b st with
  | zero => cases failed
  | succ fuel ih =>
    rcases Outcome.bind_eq_fails.mp failed with here | ⟨entered, entering, later⟩
    · obtain ⟨same, bad⟩ := enterBlock_kinds.2 failure here
      exact ⟨same, b, bad⟩
    · have first := (enterBlock_kinds.1 entered entering).1
      rcases Outcome.bind_eq_fails.mp later with child | ⟨last, -, done⟩
      · obtain ⟨middle, k, -, same, step⟩ := Outcome.fold_fails (fun middle : Renaming => SameKinds st.cfg middle.cfg)
          (fun _ _ _ _ holds step => holds.trans (rename_returns_kinds step).1) first child
        obtain ⟨kept, v, bad⟩ := ih step
        exact ⟨same.trans kept, v, by rw [← same v]; exact bad⟩
      · cases done

theorem contains_setLen (ret : Lengths) (rv : Rvalue) (x : String) :
    (setLen ret rv).contains x ↔ ret.contains x ∨ ∃ subscript offset size, rv = .var x subscript offset size := by
  cases rv with
  | var name subscript offset size =>
    simp only [setLen, Std.ExtTreeMap.contains_insert, Bool.or_eq_true, beq_iff_eq, Std.LawfulEqCmp.compare_eq_iff_eq]
    constructor
    · intro cases
      rcases cases with rfl | known
      · exact .inr ⟨_, _, _, rfl⟩
      · exact .inl known
    · intro cases
      rcases cases with known | ⟨_, _, _, same⟩
      · exact .inr known
      · cases same
        exact .inl rfl
  | undefined => simp [setLen]
  | constant => simp [setLen]

theorem contains_foldl_setLen (ops : List Rvalue) (ret : Lengths) (x : String) :
    (ops.foldl setLen ret).contains x ↔ ret.contains x ∨ ∃ subscript offset size, .var x subscript offset size ∈ ops := by
  induction ops generalizing ret with
  | nil => simp
  | cons rv ops ih =>
    rw [List.foldl_cons, ih, contains_setLen, or_assoc]
    refine or_congr_right ?_
    simp only [List.mem_cons, exists_or, eq_comm]

theorem checkStatement_ok {ret ret' : Lengths} {stmt : Statement} (checked : checkStatement ret stmt = .ok ret') :
    ret' = setLen (stmt.op.operands.foldl setLen ret) stmt.assignee.toRvalue := by
  unfold checkStatement at checked
  split at checked
  · cases checked
  · cases checked
    rfl

theorem checkStatement_kept {ret ret' : Lengths} {stmt : Statement} {x : String} (known : ret.contains x)
    (checked : checkStatement ret stmt = .ok ret') : ret'.contains x := by
  rw [checkStatement_ok checked, contains_setLen, contains_foldl_setLen]
  exact .inl (.inl known)

theorem checkMnemonic_kept {ret ret' : Lengths} {mne : Mnemonic} {x : String} (known : ret.contains x)
    (checked : checkMnemonic ret mne = .ok ret') : ret'.contains x :=
  foldlM_establishes (fun ret : Lengths => ret.contains x) (fun _ _ _ => checkStatement_kept) checked
    (.inl ((contains_foldl_setLen _ _ _).mpr (.inl known)))

private theorem checkMnemonic_read {ret ret' : Lengths} {mne : Mnemonic} {x : String} {subscript : Option Nat} {offset size : Nat}
    (read : .read (.var x subscript offset size) ∈ mne.accesses) (checked : checkMnemonic ret mne = .ok ret') :
    ret'.contains x := by
  refine foldlM_establishes (fun ret : Lengths => ret.contains x) (fun _ _ _ => checkStatement_kept) checked ?_
  rcases List.mem_append.mp read with shown | inside
  · obtain ⟨rv, member, same⟩ := List.mem_map.mp shown
    cases same
    exact .inl ((contains_foldl_setLen _ _ _).mpr (.inr ⟨_, _, _, member⟩))
  · obtain ⟨stmt, member, inside⟩ := List.mem_flatMap.mp inside
    refine .inr ⟨stmt, member, fun before after step => ?_⟩
    rw [checkStatement_ok step, contains_setLen, contains_foldl_setLen]
    unfold Statement.accesses at inside
    split at inside
    · cases inside
    · obtain ⟨rv, operand, same⟩ := List.mem_map.mp ((List.mem_append.mp inside).resolve_right (by simp))
      cases same
      exact .inl (.inr ⟨_, _, _, operand⟩)

private theorem checkVertex_kept {g : ControlFlowGraph} {ret ret' : Lengths} {v : Nat} {x : String} (known : ret.contains x)
    (checked : checkVertex g ret v = .ok ret') : ret'.contains x := by
  unfold checkVertex at checked
  split at checked
  · exact foldlM_establishes (fun ret : Lengths => ret.contains x) (fun _ _ _ => checkMnemonic_kept) checked (.inl known)
  · cases checked
    exact known

private theorem contains_checkEdge (g : ControlFlowGraph) (edges : List Nat) (ret : Lengths) (x : String) :
    (edges.foldl (checkEdge g) ret).contains x ↔ ret.contains x ∨ ∃ e ∈ edges, ∃ subscript offset size expected,
      g.edgeLabel e = some (.predicate (.var x subscript offset size) expected) := by
  induction edges generalizing ret with
  | nil => simp
  | cons e edges ih =>
    have here : (checkEdge g ret e).contains x ↔ ret.contains x ∨ ∃ subscript offset size expected,
        g.edgeLabel e = some (.predicate (.var x subscript offset size) expected) := by
      unfold checkEdge
      split
      · next flag expected label =>
        rw [contains_setLen]
        refine or_congr_right ?_
        constructor
        · intro holds
          obtain ⟨subscript, offset, size, same⟩ := holds
          exact ⟨subscript, offset, size, expected, by rw [label, same]⟩
        · intro holds
          obtain ⟨subscript, offset, size, _, same⟩ := holds
          rw [label] at same
          cases same
          exact ⟨subscript, offset, size, rfl⟩
      · next other =>
        refine ⟨.inl, fun cases => cases.resolve_right ?_⟩
        intro holds
        obtain ⟨subscript, offset, size, expected, label⟩ := holds
        exact other _ _ label
    rw [List.foldl_cons, ih, here, or_assoc]
    simp only [List.mem_cons, exists_eq_or_imp]

private theorem typeCheck_read {orders : SsaOrders} {g : ControlFlowGraph} {lens : Lengths}
    (checked : typeCheck orders g = .ok lens) {v : Nat} {x : String} (exposes : Exposes (accessesAt g v) x) :
    lens.contains x := by
  cases folded : (g.vertices orders.vertices).foldlM (checkVertex g) ∅ with
  | error message => simp [typeCheck, folded, bind, Except.bind] at checked
  | ok ret =>
    simp only [typeCheck, folded, bind, Except.bind, pure, Except.pure, Except.ok.injEq] at checked
    rw [← checked, contains_checkEdge]
    obtain ⟨pre, subscript, offset, size, post, split, -⟩ := exposes
    have read : .read (.var x subscript offset size) ∈ accessesAt g v := by simp [split]
    rcases List.mem_append.mp read with label | guard
    · refine .inl (foldlM_establishes (fun ret : Lengths => ret.contains x) (fun _ _ _ => checkVertex_kept) folded ?_)
      cases found : g.vertexLabel v with
      | none => simp [found] at label
      | some lb =>
        have listed : v ∈ g.vertices orders.vertices := by
          simp only [vertices, Enumeration.mem_list, Std.ExtTreeMap.mem_keys]
          simpa [vertexLabel] using Option.isSome_of_eq_some found
        refine .inr ⟨v, listed, fun before after step => ?_⟩
        cases lb with
        | resolved bb =>
          obtain ⟨mne, member, inside⟩ := List.mem_flatMap.mp (by simpa [found, ControlFlowTarget.accesses] using label)
          simp only [checkVertex, found] at step
          exact foldlM_establishes (fun ret : Lengths => ret.contains x) (fun _ _ _ => checkMnemonic_kept) step
            (.inr ⟨mne, member, fun _ _ => checkMnemonic_read inside⟩)
        | unresolved => simp [found, ControlFlowTarget.accesses] at label
        | failed => simp [found, ControlFlowTarget.accesses] at label
    · obtain ⟨e, -, inside⟩ := List.mem_flatMap.mp guard
      cases found : g.edgeLabel e with
      | none => simp [found] at inside
      | some gu =>
        cases gu with
        | predicate flag expected =>
          simp only [found, Option.map_some, Option.getD_some, Guard.accesses, List.mem_singleton, Access.read.injEq] at inside
          refine .inr ⟨e, ?_, subscript, offset, size, expected, by rw [inside, found]⟩
          simp only [edgeList, Enumeration.mem_list, Std.ExtTreeMap.mem_keys]
          simpa [edgeLabel] using Option.isSome_of_eq_some found
        | _ => simp [found, Guard.accesses] at inside

/-- Some statement has nothing to compute with. -/
def Idle (g : ControlFlowGraph) : Prop := ∃ v, ∃ stmt ∈ statementsAt g v, stmt.op.operands = []

theorem typeCheck_error_iff {orders : SsaOrders} {g : ControlFlowGraph} :
    (∃ message, typeCheck orders g = .error message) ↔ Idle g := by
  have statement : ∀ (ret : Lengths) (stmt : Statement),
      (∃ message, checkStatement ret stmt = .error message) ↔ stmt.op.operands = [] := by
    intro ret stmt
    unfold checkStatement
    split
    · next none => simp [none]
    · next some => simpa using some
  have mnemonic : ∀ (ret : Lengths) (mne : Mnemonic),
      (∃ message, checkMnemonic ret mne = .error message) ↔ ∃ stmt ∈ mne.instructions, stmt.op.operands = [] :=
    fun ret mne => foldlM_error_iff statement
  have vertex : ∀ (ret : Lengths) (v : Nat),
      (∃ message, checkVertex g ret v = .error message) ↔ ∃ stmt ∈ statementsAt g v, stmt.op.operands = [] := by
    intro ret v
    unfold checkVertex
    split
    · next bb label =>
      rw [foldlM_error_iff mnemonic]
      simp only [statementsAt, label, Option.map_some, Option.getD_some, ControlFlowTarget.statements,
        BasicBlock.statements, List.mem_flatMap]
      constructor
      · intro holds
        obtain ⟨mne, inside, stmt, member, idle⟩ := holds
        exact ⟨stmt, ⟨mne, inside, member⟩, idle⟩
      · intro holds
        obtain ⟨stmt, ⟨mne, inside, member⟩, idle⟩ := holds
        exact ⟨mne, inside, stmt, member, idle⟩
    · next other =>
      have empty : statementsAt g v = [] := by
        cases label : g.vertexLabel v with
        | none => simp [statementsAt, label]
        | some lb =>
          cases lb with
          | resolved bb => exact absurd label (other bb)
          | unresolved => simp [statementsAt, label, ControlFlowTarget.statements]
          | failed => simp [statementsAt, label, ControlFlowTarget.statements]
      simp [empty]
  have whole : (∃ message, typeCheck orders g = .error message) ↔
      ∃ message, (g.vertices orders.vertices).foldlM (checkVertex g) ∅ = .error message := by
    unfold typeCheck
    cases (g.vertices orders.vertices).foldlM (checkVertex g) ∅ <;> simp [bind, Except.bind, pure, Except.pure]
  rw [whole, foldlM_error_iff vertex]
  constructor
  · intro holds
    obtain ⟨v, _, stmt, member, idle⟩ := holds
    exact ⟨v, stmt, member, idle⟩
  · intro holds
    obtain ⟨v, stmt, member, idle⟩ := holds
    refine ⟨v, ?_, stmt, member, idle⟩
    obtain ⟨bb, label⟩ := statementsAt_block member
    simp only [vertices, Enumeration.mem_list, Std.ExtTreeMap.mem_keys]
    simpa [vertexLabel] using Option.isSome_of_eq_some label

section Placing
variable {orders : SsaOrders} {fuel : Nat} {lens : Lengths} {usage : Usage} {df : Panopticon.Dominator.Frontiers}
  {g : ControlFlowGraph} {x : String}

/-- Everything on the worklist is a vertex. -/
structure Inside (g : ControlFlowGraph) (place : Placement) : Prop where
  only : OnlyLabels g place.cfg
  worklist : ∀ w ∈ place.worklist, (g.vertexLabel w).isSome

theorem Inside.phi {place next : Placement} {d : Nat} (inside : Inside g place)
    (step : placePhi lens usage x place d = .returns next) : Inside g next := by
  simp only [placePhi, Outcome.bind_eq_returns] at step
  obtain ⟨arity, -, step⟩ := step
  split at step
  · next bb label =>
    split at step
    · cases step
      exact inside
    · split at step
      · cases step
      · cases step
        refine ⟨inside.only.trans (.setVertexLabel _ (by simp [label])), fun w listed => ?_⟩
        simp only [Std.ExtTreeSet.mem_insert, Nat.compare_eq_eq] at listed
        rcases listed with rfl | listed
        · exact (inside.only.vertices _).mp (by simp [label])
        · exact inside.worklist w listed
  · cases step
    exact inside

private theorem placePhi_unfailing (known : lens.contains x) (place : Placement) (d : Nat) :
    Unfailing (placePhi lens usage x place d) := by
  have arity : Unfailing (argNum place.cfg usage x d) := by
    refine (Unfailing.unwrap _).bind fun edges => ?_
    split
    · exact (Unfailing.each fun _ => .unwrap _).bind fun _ => .returns _
    · exact .returns _
  refine arity.bind fun arity => ?_
  split
  · split
    · exact .returns _
    · have length : ∃ len, lengthOf lens x = .ok len := by
        rw [Std.ExtTreeMap.contains_eq_isSome_getElem?, Option.isSome_iff_exists] at known
        obtain ⟨len, found⟩ := known
        exact ⟨len, by simp [lengthOf, found]⟩
      obtain ⟨len, found⟩ := length
      simp only [found]
      exact .returns _
  · exact .returns _

theorem Inside.turn {place next : Placement} {turn : Nat} (inside : Inside g place)
    (step : placeTurn orders lens usage df x turn place = .returns (some next)) : Inside g next := by
  unfold placeTurn at step
  split at step
  · cases step
  · next w rest listed =>
    split at step
    · cases step
    · simp only [Outcome.bind_eq_returns, Outcome.pure_eq, Outcome.returns.injEq, Option.some.injEq] at step
      obtain ⟨final, folded, rfl⟩ := step
      have taken : Inside g { place with worklist := place.worklist.erase w } :=
        ⟨inside.only, fun w' pending => inside.worklist w' (Std.ExtTreeSet.mem_of_mem_erase pending)⟩
      exact Outcome.fold_invariant (Inside g) (fun _ _ _ _ inside step => inside.phi step) taken folded

private theorem placeTurn_unfailing (known : lens.contains x) (keys : ∀ w, (g.vertexLabel w).isSome → df[w]?.isSome)
    {place : Placement} (inside : Inside g place) (turn : Nat) :
    Unfailing (placeTurn orders lens usage df x turn place) := by
  unfold placeTurn
  split
  · exact .returns _
  · next w rest listed =>
    have pending : w ∈ place.worklist := by
      have first : w ∈ (orders.worklist x turn).list place.worklist.toList := by
        rw [listed]
        exact List.mem_cons_self
      simpa using first
    obtain ⟨frontiers, found⟩ := Option.isSome_iff_exists.mp (keys w (inside.worklist w pending))
    simp only [found]
    exact (Unfailing.fold (placePhi_unfailing known) _ _).bind fun _ => .returns _

/-- Phi functions are placed without errors when all sizes and frontiers are known. -/
theorem place_unfailing {names : List String} (known : ∀ x ∈ names, lens.contains x)
    (keys : ∀ w, (g.vertexLabel w).isSome → df[w]?.isSome)
    (used : ∀ x w, Assigning usage x w → (g.vertexLabel w).isSome) :
    Unfailing (Outcome.fold (placeName orders fuel lens usage df) ⟨g, [], ∅⟩ names) := by
  intro failure failed
  have start : ∀ (place : Placement) (x : String), OnlyLabels g place.cfg →
      Inside g { place with worklist := usage[x]?.getD ∅ } := fun place x only => ⟨only, used x⟩
  obtain ⟨place, x, member, only, failed⟩ := Outcome.fold_fails (fun place : Placement => OnlyLabels g place.cfg)
    (fun place x next _ only step => (Outcome.repeated_invariant (Inside g) (fun _ _ _ inside step => inside.turn step)
      (start place x only) step).1.only) (OnlyLabels.refl g) failed
  obtain ⟨turn, place, inside, failed⟩ := Outcome.repeated_fails (Inside g) (fun _ _ _ inside step => inside.turn step)
    (start place x only) failed
  exact placeTurn_unfailing (known x member) keys inside turn failure failed

end Placing

theorem dominanceFrontiers_keys {ε N E : Type} {g : AdjacencyList N E} {vertices : Enumeration Nat} {fuel : Nat}
    {idom : DominatorTable} {df : Panopticon.Dominator.Frontiers}
    (computed : (Panopticon.Dominator.dominanceFrontiers g vertices fuel idom : Outcome ε _) = .returns df) {w : Nat}
    (labelled : (g.vertexLabel w).isSome) : df[w]?.isSome := by
  simp only [Panopticon.Dominator.dominanceFrontiers, Outcome.bind_eq_returns, Outcome.pure_eq,
    Outcome.returns.injEq] at computed
  obtain ⟨ret, folded, rfl⟩ := computed
  have listed : w ∈ g.vertices vertices := by
    simp only [AdjacencyList.vertices, Enumeration.mem_list, Std.ExtTreeMap.mem_keys]
    simpa [vertexLabel] using labelled
  have fresh : ((g.vertices vertices).foldl (fun ret v => ret.insert v []) (∅ : Panopticon.Dominator.Frontiers))[w]?.isSome := by
    rw [getElem?_foldl_insert, if_pos listed]
    rfl
  have pushed : ∀ (table : Panopticon.Dominator.Frontiers) (v b : Nat), table[w]?.isSome → (push table v b)[w]?.isSome := by
    intro table v b known
    simp only [push, Std.ExtTreeMap.getElem?_alter, Nat.compare_eq_eq]
    split
    · rfl
    · exact known
  have kept := Outcome.fold_invariant (fun table : Panopticon.Dominator.Frontiers => table[w]?.isSome = true)
    (fun table b next _ known step => by
      simp only [Panopticon.Dominator.frontierBlock, Outcome.bind_eq_returns] at step
      obtain ⟨pred, -, step⟩ := step
      split at step
      · refine Outcome.fold_invariant (fun table : Panopticon.Dominator.Frontiers => table[w]?.isSome = true)
          (fun table p next _ known step => ?_) known step
        simp only [Outcome.bind_eq_returns, Outcome.pure_eq, Outcome.returns.injEq] at step
        obtain ⟨last, ran, rfl⟩ := step
        refine (Outcome.repeated_invariant (fun state : Nat × Panopticon.Dominator.Frontiers => state.2[w]?.isSome = true)
          (fun _ state next known step => ?_) known ran).1
        simp only [Panopticon.Dominator.runFrontier, Outcome.bind_eq_returns] at step
        obtain ⟨dom, -, step⟩ := step
        split at step
        · cases step
        · simp only [Outcome.bind_eq_returns, Outcome.pure_eq, Outcome.returns.injEq, Option.some.injEq] at step
          obtain ⟨up, -, rfl⟩ := step
          exact pushed _ _ _ known
      · cases step
        exact known) fresh folded
  simpa using kept

/-- Every vertex can be reached from the entry point. -/
def Connected (f : Function) : Prop :=
  ∀ v, (f.cflowGraph.vertexLabel v).isSome → Reachable f.cflowGraph.Adjacent f.entryPoint v

/-- Some phi function stands outside a `__phi` mnemonic. -/
def Stray (g : ControlFlowGraph) : Prop := ∃ v, Misplaced (kindsAt g v)

/-- A call that fails has left the graph as it was. -/
def Atomic {α : Type} (f : Function) (result : Outcome Failure α) : Prop :=
  ∀ failure, result = .fails failure → failure.cfg = f.cflowGraph

def Answered {α : Type} (result : Outcome Failure α) : Prop := result ≠ .panics ∧ result ≠ .exhausted

theorem size_iff {ε N E : Type} {g : AdjacencyList N E} {start fuel : Nat} {idom : DominatorTable} (valid : g.Consistent)
    (entry : (g.vertexLabel start).isSome)
    (finished : (Panopticon.Dominator.immediateDominator g fuel start : Outcome ε _) = .returns idom) :
    idom.size = g.numVertices ↔ ∀ v, (g.vertexLabel v).isSome → Reachable g.Adjacent start v := by
  have exact := DominatorTotal.exact_of_returns valid finished
  have inside : ∀ v, idom.contains v → (g.vertexLabel v).isSome :=
    fun v known => Dominator.labelled_of_reachable valid entry ((exact.keys v).mp known)
  constructor
  · intro size v labelled
    exact (exact.keys v).mp (Dominator.contains_of_size size inside labelled)
  · intro reachable
    have perm : idom.keys.Perm g.vertexLabels.keys := by
      rw [List.perm_ext_iff_of_nodup Std.ExtTreeMap.nodup_keys Std.ExtTreeMap.nodup_keys]
      intro v
      have labelled : v ∈ g.vertexLabels.keys ↔ (g.vertexLabel v).isSome := by simp [vertexLabel]
      rw [labelled, Std.ExtTreeMap.mem_keys, ← Std.ExtTreeMap.contains_iff_mem]
      exact ⟨inside v, fun present => (exact.keys v).mpr (reachable v present)⟩
    rw [numVertices, ← Std.ExtTreeMap.length_keys, ← Std.ExtTreeMap.length_keys, perm.length_eq]

private theorem kindsAt_start_init {orders : SsaOrders} {lens : Lengths} {globals : Names} {f : Function} {cfg : ControlFlowGraph}
    (inserted : insertInit orders lens globals f = .returns cfg) : cfg ≠ f.cflowGraph := by
  obtain ⟨bb, entry, rfl⟩ := insertInit_spec inserted
  intro same
  have label := congrArg (fun g : ControlFlowGraph => (kindsAt g f.entryPoint).length) same
  simp [kindsAt, vertexLabel_setVertexLabel, entry, kindsOf, insertMnemonic] at label

private theorem insertInit_unfailing {orders : SsaOrders} {lens : Lengths} {globals : Names} (f : Function)
    (known : ∀ x ∈ globals, lens.contains x) : Unfailing (insertInit orders lens globals f) := by
  have entry : Unfailing (entryBlock f : Outcome Failure _) := by
    unfold entryBlock
    split
    · exact .returns _
    · exact .panics
  refine entry.bind fun bb => ?_
  have mapped : ∀ names : List String, (∀ x ∈ names, lens.contains x) → ∃ instrs, names.mapM (initStatement lens) = .ok instrs := by
    intro names
    induction names with
    | nil => exact fun _ => ⟨[], rfl⟩
    | cons x names ih =>
      intro known
      obtain ⟨instrs, rest⟩ := ih fun y member => known y (List.mem_cons_of_mem _ member)
      have here := known x List.mem_cons_self
      rw [Std.ExtTreeMap.contains_eq_isSome_getElem?, Option.isSome_iff_exists] at here
      obtain ⟨len, found⟩ := here
      rw [List.mapM_cons]
      exact ⟨_, by simp [initStatement, lengthOf, found, rest, Except.map, bind, Except.bind, pure, Except.pure]; rfl⟩
  obtain ⟨instrs, found⟩ := mapped (orders.globals.list globals.toList) (fun x member => known x (by simpa using member))
  simp only [found]
  exact .returns _

/-- The first half of the conversion fails on operations without operands, before it changes anything, and on
unreachable vertices, after it has changed the entry block. -/
theorem phiFunctions_fails {orders : SsaOrders} {fuel : Nat} {f : Function} {failure : Failure} (valid : f.cflowGraph.Consistent)
    (failed : phiFunctions orders fuel f = .fails failure) :
    (Idle f.cflowGraph ∧ failure.cfg = f.cflowGraph) ∨
      (¬ Idle f.cflowGraph ∧ ¬ Connected f ∧ failure.cfg ≠ f.cflowGraph) := by
  cases checked : typeCheck orders f.cflowGraph with
  | error message =>
    simp only [phiFunctions, checked, Outcome.fails.injEq] at failed
    subst failure
    exact .inl ⟨typeCheck_error_iff.mp ⟨message, checked⟩, rfl⟩
  | ok lens =>
    have busy : ¬ Idle f.cflowGraph := by
      intro idle
      obtain ⟨message, error⟩ := typeCheck_error_iff.mpr idle
      rw [checked] at error
      cases error
    simp only [phiFunctions, checked] at failed
    rcases Outcome.bind_eq_fails.mp failed with early | ⟨⟨globals, usage⟩, named, failed⟩
    · exact absurd early (globalNames_unfailing f fuel failure)
    obtain ⟨order, collected, exposed, used⟩ := globalNames_exact named
    have known : ∀ x ∈ globals, lens.contains x := by
      intro x member
      obtain ⟨v, -, exposes⟩ := (exposed x).mp member
      exact typeCheck_read checked exposes
    rcases Outcome.bind_eq_fails.mp failed with early | ⟨cfg, initial, failed⟩
    · exact absurd early (insertInit_unfailing f known failure)
    obtain ⟨bb, entry, changed⟩ := insertInit_spec initial
    have labelled : (f.cflowGraph.vertexLabel f.entryPoint).isSome := by simp [entry]
    have only : OnlyLabels f.cflowGraph cfg := changed ▸ .setVertexLabel _ labelled
    rcases Outcome.bind_eq_fails.mp failed with early | ⟨idom, dominators, failed⟩
    · exact absurd early (immediateDominator_unfailing cfg fuel _ failure)
    have reached := size_iff (only.consistent valid) ((only.vertices _).mpr labelled) dominators
    split at failed
    · next size =>
      cases failed
      refine .inr ⟨busy, fun connected => size (reached.mpr fun v present => ?_), kindsAt_start_init initial⟩
      rw [only.adjacent]
      exact connected v ((only.vertices v).mp present)
    · rcases Outcome.bind_eq_fails.mp failed with early | ⟨df, frontiers, failed⟩
      · exact absurd early (dominanceFrontiers_unfailing cfg orders.vertices fuel idom failure)
      rcases Outcome.bind_eq_fails.mp failed with early | ⟨place, -, done⟩
      · refine absurd early (place_unfailing (fun x member => known x (by simpa using member))
          (fun w present => dominanceFrontiers_keys frontiers present) (fun x w assigns => ?_) failure)
        obtain ⟨member, -⟩ := (used x w).mp assigns
        exact (only.vertices w).mpr (Dominator.labelled_of_reachable valid labelled
          (Dominator.reachable_of_postorder valid collected member))
      · cases done

private theorem misplaced_append {first last : List (String × List Bool)} :
    Misplaced (first ++ last) ↔ Misplaced first ∨ Misplaced last := by
  simp only [Misplaced, List.mem_append, or_and_right, exists_or]

/-- The pass puts its own phi functions where renaming expects them, and lengthens the entry block. -/
theorem inserted_kinds {g g' : ControlFlowGraph} {start : Nat} {lens : Lengths} {names : List String} {usage : Usage}
    {df : Panopticon.Dominator.Frontiers} {phis : List (String × Nat)}
    (inserted : Inserted g g' start lens names usage df phis) :
    (∀ v, Misplaced (kindsAt g' v) ↔ Misplaced (kindsAt g v)) ∧ (kindsAt g start).length < (kindsAt g' start).length := by
  have clean : ∀ arity phis init bb, ¬ Misplaced ((pseudo lens arity phis init bb).map kinds) := by
    intro arity phis init bb holds
    obtain ⟨entry, member, plain, phi⟩ := holds
    obtain ⟨mne, listed, rfl⟩ := List.mem_map.mp member
    rcases List.mem_append.mp listed with inside | inside
    · obtain ⟨x, -, rfl⟩ := List.mem_map.mp inside
      exact plain rfl
    · obtain ⟨names, -, rfl⟩ := Option.map_eq_some_iff.mp (Option.mem_toList.mp inside)
      obtain ⟨stmt, member, kind⟩ := List.mem_map.mp phi
      obtain ⟨x, -, rfl⟩ := List.mem_map.mp member
      cases kind
  constructor
  · intro v
    rw [kindsAt, kindsAt, inserted.labels v]
    cases g.vertexLabel v with
    | none => rfl
    | some lb =>
      cases lb with
      | resolved bb =>
        simp only [Option.map_some, Option.getD_some, decorate, kindsOf, List.map_append, misplaced_append, clean, false_or]
      | unresolved => rfl
      | failed => rfl
  · obtain ⟨bb, entry⟩ := inserted.entry
    simp only [kindsAt, inserted.labels, entry, Option.map_some, Option.getD_some, decorate, kindsOf, pseudo, ↓reduceIte,
      List.length_map, List.length_append, Option.toList_some, List.length_singleton]
    omega

/-- The second half fails on phi functions outside `__phi` mnemonics. -/
theorem renameVariables_kinds (orders : SsaOrders) (fuel : Nat) {f : Function} (valid : f.cflowGraph.Consistent)
    (entry : (f.cflowGraph.vertexLabel f.entryPoint).isSome) (connected : Connected f) :
    (∀ failure, renameVariables orders fuel f = .fails failure →
      SameKinds f.cflowGraph failure.cfg ∧ Stray f.cflowGraph) ∧
    ∀ result, renameVariables orders fuel f = .returns result → ¬ Stray f.cflowGraph := by
  refine ⟨fun failure failed => ?_, fun result returned => ?_⟩
  · rcases Outcome.bind_eq_fails.mp failed with early | ⟨⟨globals, usage⟩, -, failed⟩
    · exact absurd early (globalNames_unfailing f fuel failure)
    rcases Outcome.bind_eq_fails.mp failed with early | ⟨idom, dominators, failed⟩
    · exact absurd early (immediateDominator_unfailing _ _ _ failure)
    split at failed
    · next size => exact absurd ((size_iff valid entry dominators).mpr connected) size
    · rcases Outcome.bind_eq_fails.mp failed with early | ⟨st, -, done⟩
      · exact rename_fails_kinds early
      · cases done
  · simp only [renameVariables, Outcome.bind_eq_returns] at returned
    obtain ⟨⟨globals, usage⟩, -, idom, dominators, returned⟩ := returned
    split at returned
    · cases returned
    · next size =>
      simp only [Outcome.bind_eq_returns] at returned
      obtain ⟨st, renamed, -⟩ := returned
      intro holds
      obtain ⟨v, bad⟩ := holds
      have labelled : (f.cflowGraph.vertexLabel v).isSome := by
        cases label : f.cflowGraph.vertexLabel v with
        | none => simp [kindsAt, label, Misplaced] at bad
        | some lb => rfl
      have tree := Dominator.immediateDominator_tree valid entry dominators (not_not.mp size)
      obtain ⟨ancestors, lineage⟩ := tree.lineage labelled
      refine (rename_returns_kinds renamed).2 v ?_ bad
      clear bad labelled
      induction lineage with
      | root => exact .refl
      | child inner parent lineage ih =>
        refine ih.tail ⟨parent, fun same => ?_⟩
        exact lineage.notMem_parent inner parent (same ▸ lineage.mem)

/-- A failed conversion has left the function as it was exactly where it fails on an operation without operands or
cannot fail at all. -/
theorem atomic_iff {f : Function} (valid : f.cflowGraph.Consistent) (orders : SsaOrders) (fuel : Nat) :
    (Atomic f (phiFunctions orders fuel f) ∧ Atomic f (ssaConvertion orders fuel f)) ↔
      (Answered (ssaConvertion orders fuel f) → Idle f.cflowGraph ∨ (Connected f ∧ ¬ Stray f.cflowGraph)) := by
  cases first : phiFunctions orders fuel f with
  | panics => simp [Atomic, Answered, ssaConvertion, first]
  | exhausted => simp [Atomic, Answered, ssaConvertion, first, bind, Outcome.bind]
  | fails failure =>
    have whole : ssaConvertion orders fuel f = .fails failure := by simp [ssaConvertion, first]
    rw [whole]
    rcases phiFunctions_fails valid first with ⟨idle, same⟩ | ⟨busy, stranded, changed⟩
    · simp [Atomic, Answered, idle, same]
    · simp [Atomic, Answered, busy, stranded, changed]
  | returns middle =>
    have whole : ssaConvertion orders fuel f = renameVariables orders fuel middle := by simp [ssaConvertion, first]
    obtain ⟨same, lens, globals, usage, idom, df, phis, g, named, only, dominators, size, frontiers, inserted⟩ :=
      phiFunctions_inserted first
    have entryPoint : middle.entryPoint = f.entryPoint := by rw [same]
    have labelled : (f.cflowGraph.vertexLabel f.entryPoint).isSome := by
      obtain ⟨bb, found⟩ := inserted.entry
      simp [found]
    have reached := (size_iff (only.consistent valid) ((only.vertices _).mpr labelled) dominators).mp size
    rw [only.adjacent] at reached
    have connected : Connected f := fun v present => reached v ((only.vertices v).mpr present)
    have connected' : Connected middle := by
      intro v present
      rw [inserted.only.adjacent, entryPoint]
      exact connected v ((inserted.only.vertices v).mp present)
    have busy : ¬ Idle f.cflowGraph := by
      intro idle
      obtain ⟨message, error⟩ : ∃ message, typeCheck orders f.cflowGraph = .error message := typeCheck_error_iff.mpr idle
      simp [phiFunctions, error] at first
    obtain ⟨kinds, longer⟩ := inserted_kinds inserted
    have stray : Stray middle.cflowGraph ↔ Stray f.cflowGraph := exists_congr kinds
    obtain ⟨failing, returning⟩ := renameVariables_kinds orders fuel (inserted.only.consistent valid)
      (entryPoint ▸ (inserted.only.vertices _).mpr labelled) connected'
    rw [whole]
    cases second : renameVariables orders fuel middle with
    | panics => simp [Atomic, Answered]
    | exhausted => simp [Atomic, Answered]
    | returns result =>
      have clean := returning result second
      rw [stray] at clean
      simp [Atomic, connected, clean]
    | fails failure =>
      obtain ⟨kept, bad⟩ := failing failure second
      have changed : failure.cfg ≠ f.cflowGraph := by
        intro equal
        have short := congrArg List.length (kept f.entryPoint)
        rw [equal] at short
        omega
      simp [Atomic, Answered, busy, connected, stray.mp bad, changed]

theorem not_atomic {α : Type} {f : Function} {result : Outcome Failure α}
    (changed : (match result with
      | .fails failure => decide (kindsAt f.cflowGraph f.entryPoint ≠ kindsAt failure.cfg f.entryPoint)
      | _ => false) = true) : ¬ Atomic f result := by
  intro atomic
  split at changed
  · next failure =>
    rw [atomic failure rfl] at changed
    simp at changed
  · cases changed

/-- A block nothing leads to, beside the entry block. -/
def stranded : Function where
  name := "f"
  aliases := []
  uuid := 0
  cflowGraph := .ofLists
    [.resolved (.fromVec [⟨⟨0, 1⟩, "nop", [], [], []⟩]), .resolved (.fromVec [⟨⟨8, 9⟩, "nop", [], [], []⟩])] []
  entryPoint := 0
  region := "ram"
  size := 0
  kind := .regular

theorem stranded_changed : ¬ Atomic stranded (phiFunctions .canonical 9 stranded) ∧
    ¬ Atomic stranded (ssaConvertion .canonical 9 stranded) :=
  ⟨not_atomic (by decide), not_atomic (by decide)⟩

/-- With a statement that type_check refuses nothing is changed. -/
def refused : Function := { stranded with
  cflowGraph := .ofLists [.resolved (.fromVec [⟨⟨0, 1⟩, "nop", [], [], []⟩]),
    .resolved (.fromVec [⟨⟨8, 9⟩, "rdtsc", [], [⟨.var "x" none 8, .initialized "x" 8⟩], []⟩])] [] }

theorem stranded_atomic_iff : ((Atomic stranded (phiFunctions .canonical 9 stranded) ∧
    Atomic stranded (ssaConvertion .canonical 9 stranded)) ↔
      (Answered (ssaConvertion .canonical 9 stranded) →
        Idle stranded.cflowGraph ∨ (Connected stranded ∧ ¬ Stray stranded.cflowGraph))) ∧
    Atomic refused (phiFunctions .canonical 9 refused) ∧ Atomic refused (ssaConvertion .canonical 9 refused) := by
  refine ⟨atomic_iff (.ofLists _ _) .canonical 9, (atomic_iff (.ofLists _ _) .canonical 9).mpr fun _ => .inl ?_⟩
  exact ⟨1, ⟨.var "x" none 8, .initialized "x" 8⟩, by decide, rfl⟩

end Panopticon.Proofs.SsaFailure
