import Panopticon.Pipeline
import Panopticon.Proofs.Insertion
import Panopticon.Proofs.SsaFailure

/-! What conversion into SSA form keeps, whether it succeeds or fails: the areas of the
blocks, and with them the start address of the function. -/

namespace Panopticon.Proofs.Conversion
open Library Ssa Proofs.Renaming Proofs.SsaFailure Proofs.Insertion AdjacencyList
open Outcome (Ensures Unfailing)

def areaOf : ControlFlowTarget → Option Bound
  | .resolved bb => some bb.area
  | _ => none

def areaAt (g : ControlFlowGraph) (v : Nat) : Option Bound := (g.vertexLabel v).bind areaOf

def SameAreas (g g' : ControlFlowGraph) : Prop := ∀ v, areaAt g' v = areaAt g v

theorem SameAreas.refl (g : ControlFlowGraph) : SameAreas g g := fun _ => rfl

theorem SameAreas.trans {g g' g'' : ControlFlowGraph} (first : SameAreas g g') (second : SameAreas g' g'') :
    SameAreas g g'' := fun v => (second v).trans (first v)

theorem SameAreas.setVertexLabel {g : ControlFlowGraph} {v : Nat} {lb lb' : ControlFlowTarget}
    (label : g.vertexLabel v = some lb) (same : areaOf lb' = areaOf lb) : SameAreas g (g.setVertexLabel v lb') := by
  intro w
  simp only [areaAt, vertexLabel_setVertexLabel]
  split
  · next here =>
    subst w
    simp [label, same]
  · rfl

/-- The code leaves a graph with the areas of `g` behind, in its result as in an error. -/
def Keeps {α : Type} (g : ControlFlowGraph) (graph : α → ControlFlowGraph) (x : Outcome Failure α) : Prop :=
  Ensures (fun value => SameAreas g (graph value)) (fun failure => SameAreas g failure.cfg) x

section
variable {g : ControlFlowGraph}

private theorem insertInit_keeps (orders : SsaOrders) (lens : Lengths) (globals : Liveness.Names) (f : Function) :
    Keeps f.cflowGraph id (insertInit orders lens globals f) := by
  unfold insertInit entryBlock
  split
  · next bb label =>
    simp only [Outcome.pure_eq, Outcome.returns_bind]
    split
    · exact SameAreas.refl _
    · exact SameAreas.setVertexLabel label rfl
  · trivial

private theorem placePhi_keeps (lens : Lengths) (usage : Usage) (v : String) {place : Placement} (d : Nat)
    (same : SameAreas g place.cfg) : Keeps g Placement.cfg (placePhi lens usage v place d) := by
  have counts : Unfailing (argNum place.cfg usage v d) := by
    refine (Unfailing.unwrap _).bind fun edges => ?_
    split
    · exact (Unfailing.each fun _ => .unwrap _).bind fun _ => .returns _
    · exact .returns _
  refine (Ensures.quiet counts).bind fun arity _ => ?_
  split
  · next bb label =>
    split
    · exact same
    · split
      · exact same
      · exact same.trans (.setVertexLabel label rfl)
  · exact same

private theorem placeName_keeps (orders : SsaOrders) (fuel : Nat) (lens : Lengths) (usage : Usage) (df : Dominator.Frontiers)
    {place : Placement} (v : String) (same : SameAreas g place.cfg) :
    Keeps g Placement.cfg (placeName orders fuel lens usage df place v) := by
  refine Ensures.repeated (fun place : Placement => SameAreas g place.cfg) (fun turn place same => ?_) (by exact same) _ _
  unfold placeTurn
  split
  · simp [Ensures]
  · split
    · exact same
    · refine (Ensures.fold (fun place : Placement => SameAreas g place.cfg)
        (fun place d same => placePhi_keeps lens usage v d same) (by exact same) _).bind fun place same => ?_
      simpa [Ensures] using same

private theorem phiFunctions_keeps (orders : SsaOrders) (fuel : Nat) (f : Function) :
    Keeps f.cflowGraph Function.cflowGraph (phiFunctions orders fuel f) := by
  unfold phiFunctions
  split
  · exact SameAreas.refl _
  · next lens checked =>
    refine (Ensures.quiet (globalNames_unfailing f fuel)).bind fun names _ => ?_
    refine (insertInit_keeps orders lens names.1 f).bind fun cfg same => ?_
    refine (Ensures.quiet (immediateDominator_unfailing cfg fuel _)).bind fun idom _ => ?_
    split
    · exact same
    · refine (Ensures.quiet (dominanceFrontiers_unfailing _ _ _ _)).bind fun df _ => ?_
      exact (Ensures.fold (fun place : Placement => SameAreas f.cflowGraph place.cfg)
        (fun place v same => placeName_keeps orders fuel lens names.2 df v same) same _).bind fun place same => same

private theorem renameBlock_keeps (b : Nat) {st : Renaming} (same : SameAreas g st.cfg) :
    Keeps g Renaming.cfg (renameBlock b st) := by
  unfold renameBlock
  split
  · next bb label =>
    refine (Ensures.quiet (rename_mnemonics_unfailing _ _)).bind fun result _ => ?_
    obtain ⟨vs, mnemonics, stop⟩ := result
    have kept : SameAreas g (st.cfg.setVertexLabel b (.resolved { bb with mnemonics })) :=
      same.trans (.setVertexLabel label rfl)
    cases stop with
    | none => exact kept
    | some message => exact kept
  · exact same

private theorem fillTarget_area (vs : Versions) (lb : ControlFlowTarget) :
    Ensures (fun lb' => areaOf lb' = areaOf lb) (fun _ => False) (fillTarget vs lb : Outcome Failure _) := by
  have quiet := fillTarget_unfailing (ε := Failure) vs lb
  cases result : (fillTarget vs lb : Outcome Failure _) with
  | fails failure => exact quiet failure result
  | panics => trivial
  | exhausted => trivial
  | returns lb' =>
    cases lb with
    | resolved bb =>
      simp only [fillTarget, Outcome.bind_eq_returns, Outcome.pure_eq, Outcome.returns.injEq] at result
      obtain ⟨mnemonics, -, rfl⟩ := result
      rfl
    | unresolved rv =>
      simp only [fillTarget, Outcome.bind_eq_returns, Outcome.pure_eq, Outcome.returns.injEq] at result
      obtain ⟨rv', -, rfl⟩ := result
      rfl
    | failed pos msg =>
      cases result
      rfl

private theorem renameEdge_keeps {st : Renaming} (s : Nat) (same : SameAreas g st.cfg) : Keeps g Renaming.cfg (renameEdge st s) := by
  have edge : Keeps g id (relabelEdge st.versions st.cfg s) := by
    unfold relabelEdge
    split
    · next gu label =>
      refine (Ensures.quiet ?_).bind fun gu' _ => same
      unfold renameGuard
      split
      · exact (renameRead_unfailing _ _).bind fun _ => .returns _
      · exact .returns _
    · exact same
  refine edge.bind fun cfg same => (Ensures.quiet (.unwrap _)).bind fun v _ => ?_
  refine Ensures.bind (?_ : Keeps g id _) fun cfg same => same
  unfold relabelTarget
  split
  · next lb label =>
    cases filled : (fillTarget st.versions lb : Outcome Failure _) with
    | returns lb' =>
      have area := (fillTarget_area st.versions lb).value filled
      exact SameAreas.trans same (.setVertexLabel label area)
    | fails failure => exact absurd filled (fillTarget_unfailing _ _ failure)
    | panics => trivial
    | exhausted => trivial
  · exact same

private theorem rename_keeps (orders : SsaOrders) (idom : DominatorTable) (fuel b : Nat) {st : Renaming}
    (same : SameAreas g st.cfg) : Keeps g Renaming.cfg (rename orders idom fuel b st) := by
  induction fuel generalizing b st with
  | zero => trivial
  | succ fuel ih =>
    have entered : Keeps g Renaming.cfg (enterBlock b st) := by
      refine (renameBlock_keeps b same).bind fun st same => (Ensures.quiet (Unfailing.unwrap _)).bind fun succ _ => ?_
      exact Ensures.fold (fun st : Renaming => SameAreas g st.cfg) (fun st s same => renameEdge_keeps s same) same _
    refine entered.bind fun st same => ?_
    have below := Ensures.fold (fun st : Renaming => SameAreas g st.cfg) (fun st k same => ih k same) same
    refine (below _).bind fun st same => ?_
    show SameAreas g (popBlock b st).cfg
    rw [popBlock_cfg]
    exact same

private theorem renameVariables_keeps (orders : SsaOrders) (fuel : Nat) (f : Function) :
    Keeps f.cflowGraph (fun result => result.1.cflowGraph) (renameVariables orders fuel f) := by
  refine (Ensures.quiet (globalNames_unfailing f fuel)).bind fun names _ => ?_
  refine (Ensures.quiet (immediateDominator_unfailing _ fuel _)).bind fun idom _ => ?_
  split
  · exact SameAreas.refl _
  · exact (rename_keeps orders idom fuel _ (.refl _)).bind fun st same => same

private theorem ssaConvertion_keeps (orders : SsaOrders) (fuel : Nat) (f : Function) :
    Keeps f.cflowGraph (fun result => result.1.cflowGraph) (ssaConvertion orders fuel f) := by
  refine (phiFunctions_keeps orders fuel f).bind fun placed same => ?_
  have later := renameVariables_keeps orders fuel placed
  cases result : renameVariables orders fuel placed with
  | returns value => exact same.trans (later.value result)
  | fails failure => exact same.trans (later.error result)
  | panics => trivial
  | exhausted => trivial

end

theorem startsAt_iff {f : Function} {a : UInt64} :
    StartsAt f a ↔ (areaAt f.cflowGraph f.entryPoint).map Bound.start = some a := by
  unfold StartsAt Function.start areaAt
  split
  · next bb label => simp [label, areaOf]
  · next other =>
    cases label : f.cflowGraph.vertexLabel f.entryPoint with
    | none => simp
    | some lb =>
      cases lb with
      | resolved bb => exact absurd label (other bb)
      | unresolved => simp [areaOf]
      | failed => simp [areaOf]

private theorem phiFunctions_entryPoint {orders : SsaOrders} {fuel : Nat} {f f' : Function}
    (returned : phiFunctions orders fuel f = .returns f') : f'.entryPoint = f.entryPoint := by
  unfold phiFunctions at returned
  split at returned
  · cases returned
  · simp only [Outcome.bind_eq_returns] at returned
    obtain ⟨names, -, cfg, -, idom, -, rest⟩ := returned
    split at rest
    · cases rest
    · simp only [Outcome.bind_eq_returns, Outcome.pure_eq, Outcome.returns.injEq] at rest
      obtain ⟨df, -, place, -, rfl⟩ := rest
      rfl

private theorem renameVariables_entryPoint {orders : SsaOrders} {fuel : Nat} {f : Function} {result : Function × List Nat}
    (returned : renameVariables orders fuel f = .returns result) : result.1.entryPoint = f.entryPoint := by
  simp only [renameVariables, Outcome.bind_eq_returns] at returned
  obtain ⟨names, -, idom, -, rest⟩ := returned
  split at rest
  · cases rest
  · simp only [Outcome.bind_eq_returns, Outcome.pure_eq, Outcome.returns.injEq] at rest
    obtain ⟨st, -, rfl⟩ := rest
    rfl

theorem convert_startsAt {draw : Draw} {f f' : Function} (converted : convert draw f = .returns f') (a : UInt64) :
    StartsAt f' a ↔ StartsAt f a := by
  have areas := ssaConvertion_keeps draw.conversion draw.fuel f
  have kept : f'.entryPoint = f.entryPoint ∧ SameAreas f.cflowGraph f'.cflowGraph := by
    unfold convert at converted
    split at converted
    · next result filled returned =>
      cases converted
      refine ⟨?_, areas.value returned⟩
      obtain ⟨placed, phis, renamed⟩ := Outcome.bind_eq_returns.mp returned
      exact (renameVariables_entryPoint renamed).trans (phiFunctions_entryPoint phis)
    · next failure failed =>
      cases converted
      exact ⟨rfl, areas.error failed⟩
    · cases converted
    · cases converted
  rw [startsAt_iff, startsAt_iff, kept.1, kept.2]

end Panopticon.Proofs.Conversion
