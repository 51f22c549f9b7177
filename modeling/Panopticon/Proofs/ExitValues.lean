import Panopticon.Interpreter
import Panopticon.Library.Joins
import Panopticon.Proofs.FrontierTotal
import Panopticon.Proofs.PhiPlacement
import Panopticon.Proofs.Precision

/-! The values reported for the end of a function. The loop up the dominators scans the
block of the exit again and again, and of the versions a block assigns the first one is
what stays in the table; so only the last exit that assigns a name has a say. -/

namespace Panopticon.Proofs.ExitValues
open Library Relation AdjacencyList Interpreter Proofs.Dominator Proofs.DominatorTotal Proofs.Renaming Proofs.PhiPlacement

variable {A ε : Type} {dom : Avalue A} {vals : Lvalue → Option A}

def Names (n : String) : Lvalue → Bool
  | .var name _ _ => name = n
  | .undefined => false

def Sized (n : String) (size : Nat) (x : Lvalue) : Bool := Names n x && x.size = some size

theorem record_other {lv : String} {i : Statement} (other : Names lv i.assignee = false) (state : Bool × Results A) :
    record dom vals lv state i = state := by
  unfold record
  split
  · next name subscript size assignee => simp [show name ≠ lv by simpa [assignee, Names] using other]
  · rfl

theorem record_named {lv : String} {i : Statement} {subscript : Option Nat} {size : Nat}
    (assignee : i.assignee = .var lv subscript size) (state : Bool × Results A) :
    record dom vals lv state i = (true, state.2.insert (lv, size) (valueOf dom vals i.assignee)) := by
  simp [record, assignee]

theorem names_iff {n : String} {x : Lvalue} : Names n x = true ↔ ∃ subscript size, x = .var n subscript size := by
  cases x <;> simp [Names]

private theorem foldr_record_fst (lv : String) (statements : List Statement) (ret : Results A) :
    (statements.foldr (fun i state => record dom vals lv state i) (false, ret)).1 =
      (statements.map Statement.assignee).any (Names lv) := by
  induction statements with
  | nil => rfl
  | cons i statements ih =>
    rw [List.foldr_cons, List.map_cons, List.any_cons]
    cases named : Names lv i.assignee with
    | false => rw [record_other named, ih, Bool.false_or]
    | true =>
      obtain ⟨subscript, size, assignee⟩ := names_iff.mp named
      rw [record_named assignee, Bool.true_or]

theorem foldr_record_snd (lv : String) (statements : List Statement) (ret : Results A) (n : String) (size : Nat) :
    (statements.foldr (fun i state => record dom vals lv state i) (false, ret)).2[(n, size)]? =
      if n = lv then
        (((statements.map Statement.assignee).find? (Sized n size)).map (valueOf dom vals)).or ret[(n, size)]?
      else ret[(n, size)]? := by
  induction statements with
  | nil => simp
  | cons i statements ih =>
    rw [List.foldr_cons, List.map_cons, List.find?_cons]
    cases named : Names lv i.assignee with
    | false =>
      rw [record_other named, ih]
      by_cases same : n = lv
      · simp [same, Sized, named]
      · simp [same]
    | true =>
      obtain ⟨subscript, bits, assignee⟩ := names_iff.mp named
      rw [record_named assignee, Std.ExtTreeMap.getElem?_insert]
      simp only [Std.LawfulEqCmp.compare_eq_iff_eq, Prod.mk.injEq]
      by_cases here : lv = n ∧ bits = size
      · obtain ⟨rfl, rfl⟩ := here
        simp [assignee, Sized, Names, Lvalue.size]
      · rw [if_neg here, ih]
        by_cases same : n = lv
        · subst n
          have different : ¬bits = size := fun equal => here ⟨rfl, equal⟩
          simp [assignee, Sized, Names, Lvalue.size, different]
        · simp [same]

/-- The versions of a size that come first in their blocks. -/
def firstAt (g : ControlFlowGraph) (n : String) (size v : Nat) : Option Lvalue :=
  ((statementsAt g v).map Statement.assignee).find? (Sized n size)

theorem scan_eq (lv : String) (bb : BasicBlock) (ret : Results A) :
    scan dom vals lv bb ret = bb.statements.foldr (fun i state => record dom vals lv state i) (false, ret) :=
  List.foldl_reverse

private theorem scan_unhit {lv : String} {bb : BasicBlock} {ret : Results A} (unhit : (scan dom vals lv bb ret).1 = false) :
    (scan dom vals lv bb ret).2 = ret := by
  rw [scan_eq] at unhit ⊢
  rw [foldr_record_fst] at unhit
  apply Std.ExtTreeMap.ext_getElem?
  intro key
  obtain ⟨n, size⟩ := key
  rw [foldr_record_snd]
  split
  · next same =>
    have absent : (bb.statements.map Statement.assignee).find? (Sized n size) = none := by
      apply List.find?_eq_none.mpr
      intro x member
      have other := List.any_eq_false.mp unhit x member
      simp [Sized, same, other]
    rw [absent]
    rfl
  · rfl

section Climbing
variable {cfg : ControlFlowGraph} {start : Nat} {idom : DominatorTable}

theorem climb_returns (root : idom[start]? = some start) {v : Nat} {line : List Nat}
    (lineage : Lineage start (idom[·]?) v line) {fuel : Nat} (enough : line.length ≤ fuel) (lv : String) (bb : BasicBlock)
    (ret : Results A) : (climb dom cfg idom vals lv bb fuel v ret : Outcome ε _) = .returns (scan dom vals lv bb ret).2 := by
  induction lineage generalizing fuel ret with
  | root =>
    obtain ⟨fuel, rfl⟩ := Nat.exists_eq_succ_of_ne_zero (show fuel ≠ 0 by rintro rfl; simp at enough)
    simp only [climb, root]
    split <;> simp
  | @child v d ancestors inner entry _ ih =>
    obtain ⟨fuel, rfl⟩ := Nat.exists_eq_succ_of_ne_zero (show fuel ≠ 0 by rintro rfl; simp at enough)
    have entry : idom[v]? = some d := entry
    rw [List.length_cons] at enough
    simp only [climb, entry]
    split
    · rfl
    · next unhit =>
      have same := scan_unhit (by simpa using unhit)
      rw [same]
      split
      · rfl
      · split
        · rw [ih (by omega), same]
        · rfl

private theorem climb_unreachable {v fuel : Nat} (missing : idom[v]? = none) (enough : 0 < fuel) (lv : String) (bb : BasicBlock)
    (ret : Results A) : (climb dom cfg idom vals lv bb fuel v ret : Outcome ε _) = .returns (scan dom vals lv bb ret).2 := by
  obtain ⟨fuel, rfl⟩ := Nat.exists_eq_succ_of_ne_zero enough.ne'
  simp only [climb, missing]
  split <;> rfl

end Climbing

/-- What a step keeps, and one of the elements establishes, holds after the fold. -/
theorem foldl_establishes {σ α : Type} {f : σ → α → σ} (property : σ → Prop) (kept : ∀ state a, property state → property (f state a))
    {as : List α} {state : σ} (cause : property state ∨ ∃ a ∈ as, ∀ state, property (f state a)) :
    property (as.foldl f state) := by
  induction as generalizing state with
  | nil => exact cause.resolve_right (by simp)
  | cons a as ih =>
    apply ih
    rcases cause with holds | ⟨b, member, establishes⟩
    · exact .inl (kept state a holds)
    · rcases List.mem_cons.mp member with rfl | member
      · exact .inl (establishes state)
      · exact .inr ⟨b, member, establishes⟩

private theorem mem_assignedNames {g : ControlFlowGraph} {list : List Nat} {v : Nat} {n : String} {x : Lvalue} (listed : v ∈ list)
    (member : x ∈ (statementsAt g v).map Statement.assignee) (named : Names n x = true) : n ∈ assignedNames g list := by
  have kept : ∀ (names : Std.ExtTreeSet String) (i : Statement), n ∈ names → n ∈ (match i.assignee with
      | .var name _ _ => names.insert name
      | .undefined => names) := by
    intro names i inside
    split
    · simp [inside]
    · exact inside
  refine foldl_establishes (n ∈ ·) ?_ (.inr ⟨v, listed, ?_⟩)
  · intro names w inside
    split
    · exact foldl_establishes (n ∈ ·) kept (.inl inside)
    · exact inside
  · intro names
    obtain ⟨i, statement, rfl⟩ := List.mem_map.mp member
    obtain ⟨subscript, size, assignee⟩ := names_iff.mp named
    cases label : g.vertexLabel v with
    | none => simp [statementsAt, label] at statement
    | some target =>
      cases target with
      | resolved bb =>
        simp only [statementsAt, label, Option.map_some, Option.getD_some, ControlFlowTarget.statements] at statement
        refine foldl_establishes (n ∈ ·) kept (.inr ⟨i, statement, ?_⟩)
        intro names
        simp [assignee]
      | unresolved target => simp [statementsAt, label, ControlFlowTarget.statements] at statement
      | failed pos msg => simp [statementsAt, label, ControlFlowTarget.statements] at statement

def Exit (g : ControlFlowGraph) (v : Nat) : Prop := outDegree g v = 0 ∧ Block g v

def exitVersion (g : ControlFlowGraph) (n : String) (size v : Nat) : Option Lvalue :=
  if outDegree g v = 0 then firstAt g n size v else none

/-- The first version of a size in the last exit that has one. -/
def lastExit (g : ControlFlowGraph) (vertices : List Nat) (n : String) (size : Nat) : Option Lvalue :=
  vertices.reverse.findSome? (exitVersion g n size)

private theorem fold_scan {bb : BasicBlock} {f : Results A → String → Outcome ε (Results A)}
    (step : ∀ ret lv, f ret lv = .returns (scan dom vals lv bb ret).2) (names : List String) (ret : Results A) :
    ∃ next, Outcome.fold f ret names = .returns next ∧ ∀ n size, next[(n, size)]? =
      if n ∈ names then
        (((bb.statements.map Statement.assignee).find? (Sized n size)).map (valueOf dom vals)).or ret[(n, size)]?
      else ret[(n, size)]? := by
  induction names generalizing ret with
  | nil => exact ⟨ret, rfl, by simp⟩
  | cons lv names ih =>
    obtain ⟨next, folded, entries⟩ := ih (scan dom vals lv bb ret).2
    refine ⟨next, by simp [Outcome.fold, step, folded], ?_⟩
    intro n size
    rw [entries, scan_eq, foldr_record_snd]
    by_cases same : n = lv
    · subst n
      rw [if_pos rfl, if_pos List.mem_cons_self]
      split
      · rw [← Option.or_assoc, Option.or_self]
      · rfl
    · simp [same]

section Exits
variable {g : ControlFlowGraph} {start : Nat} {idom : DominatorTable}

variable (dom vals) in
/-- An exit puts its first versions into the table, other vertices leave it alone. -/
theorem exitValues_returns (valid : g.Consistent) (entry : (g.vertexLabel start).isSome) (exactly : Exact g start idom)
    {names : List String} {v fuel : Nat} (enough : g.numVertices < fuel)
    (known : ∀ n size, (firstAt g n size v).isSome → n ∈ names) (ret : Results A) :
    ∃ next, (exitValues dom g idom vals names fuel ret v : Outcome ε _) = .returns next ∧
      ∀ n size, next[(n, size)]? = ((exitVersion g n size v).map (valueOf dom vals)).or ret[(n, size)]? := by
  unfold exitValues
  by_cases leaf : outDegree g v = 0
  · simp only [leaf, if_true, exitVersion]
    cases label : g.vertexLabel v with
    | none => exact ⟨ret, rfl, by simp [firstAt, statementsAt, label]⟩
    | some target =>
      cases target with
      | resolved bb =>
        have step : ∀ ret lv, (climb dom g idom vals lv bb fuel v ret : Outcome ε _) = .returns (scan dom vals lv bb ret).2 := by
          intro ret lv
          by_cases reachable : Reachable g.Adjacent start v
          · obtain ⟨line, lineage, members⟩ := exactly.lineage reachable
            have length := length_le_numVertices lineage.nodup fun a member => labelled_of_reachable valid entry (members a member)
            exact climb_returns exactly.root lineage (by omega) lv bb ret
          · have missing : idom[v]? = none := by
              by_contra present
              apply reachable
              rw [← exactly.keys v, Std.ExtTreeMap.contains_eq_isSome_getElem?]
              exact Option.isSome_iff_ne_none.mpr present
            exact climb_unreachable missing (by omega) lv bb ret
        obtain ⟨next, folded, entries⟩ := fold_scan step names ret
        refine ⟨next, folded, ?_⟩
        intro n size
        have first : firstAt g n size v = (bb.statements.map Statement.assignee).find? (Sized n size) := by
          simp [firstAt, statementsAt, label, ControlFlowTarget.statements]
        rw [entries, ← first]
        split
        · rfl
        · next absent =>
          have none : firstAt g n size v = none := by
            by_contra other
            exact absent (known n size (Option.isSome_iff_ne_none.mpr other))
          simp [none]
      | unresolved target => exact ⟨ret, rfl, by simp [firstAt, statementsAt, label, ControlFlowTarget.statements]⟩
      | failed pos msg => exact ⟨ret, rfl, by simp [firstAt, statementsAt, label, ControlFlowTarget.statements]⟩
  · exact ⟨ret, by simp [leaf], by simp [exitVersion, leaf]⟩

variable (dom vals) in
private theorem fold_exits (valid : g.Consistent) (entry : (g.vertexLabel start).isSome) (exactly : Exact g start idom)
    {names : List String} {fuel : Nat} (enough : g.numVertices < fuel) {vertices : List Nat}
    (known : ∀ v ∈ vertices, ∀ n size, (firstAt g n size v).isSome → n ∈ names) (ret : Results A) :
    ∃ final, (Outcome.fold (exitValues dom g idom vals names fuel) ret vertices : Outcome ε _) = .returns final ∧
      ∀ n size, final[(n, size)]? = ((lastExit g vertices n size).map (valueOf dom vals)).or ret[(n, size)]? := by
  induction vertices generalizing ret with
  | nil => exact ⟨ret, rfl, by simp [lastExit]⟩
  | cons v vertices ih =>
    obtain ⟨next, step, entries⟩ :=
      exitValues_returns (ε := ε) dom vals valid entry exactly enough (known v List.mem_cons_self) ret
    obtain ⟨final, folded, rest⟩ := ih (fun w member => known w (List.mem_cons_of_mem v member)) next
    refine ⟨final, by simp [Outcome.fold, step, folded], ?_⟩
    intro n size
    rw [rest, entries, lastExit, lastExit, List.reverse_cons, List.findSome?_append, List.findSome?_singleton, Option.map_or,
      Option.or_assoc]

end Exits

/-- The table holds, for every name and size, the value of the first version in the last exit that has one. -/
theorem results_returns (dom : Avalue A) {f : Function} (valid : f.cflowGraph.Consistent)
    (entry : (f.cflowGraph.vertexLabel f.entryPoint).isSome) (vertices : Enumeration Nat) (names : Enumeration String) :
    ∃ enough, ∀ fuel, enough ≤ fuel → ∀ vals, ∃ ret, (results dom vertices names fuel f vals : Outcome ε _) = .returns ret ∧
      ∀ n size, ret[(n, size)]? =
        (lastExit f.cflowGraph (f.cflowGraph.vertices vertices) n size).map (valueOf dom vals) := by
  obtain ⟨enough, computed⟩ := immediateDominator_exact (ε := ε) valid entry
  refine ⟨max enough (f.cflowGraph.numVertices + 1), ?_⟩
  intro fuel large vals
  obtain ⟨idom, finished, exactly⟩ := computed fuel (by omega)
  have known : ∀ v ∈ f.cflowGraph.vertices vertices, ∀ n size, (firstAt f.cflowGraph n size v).isSome →
      n ∈ names.list (assignedNames f.cflowGraph (f.cflowGraph.vertices vertices)).toList := by
    intro v listed n size some
    obtain ⟨x, found⟩ := Option.isSome_iff_exists.mp some
    have sized := List.find?_some found
    simp only [Sized, Bool.and_eq_true] at sized
    have member := mem_assignedNames listed (List.mem_of_find?_eq_some found) sized.1
    simpa using member
  have covered : f.cflowGraph.numVertices < fuel := by omega
  obtain ⟨ret, folded, entries⟩ := fold_exits (ε := ε) dom vals valid entry exactly covered known ∅
  refine ⟨ret, by simp [results, finished, folded], ?_⟩
  intro n size
  simp [entries]

/-- The versions of `n` that a block assigns, in order. -/
def versions (g : ControlFlowGraph) (n : String) (v : Nat) : List Lvalue :=
  ((statementsAt g v).map Statement.assignee).filter (Names n)

/-- Of the blocks that dominate `v`, and `v` itself, `d` is the nearest one that assigns `n`. -/
structure Provides (f : Function) (n : String) (v d : Nat) : Prop where
  dominates : Dominates f.cflowGraph.Adjacent f.entryPoint d v
  assigns : versions f.cflowGraph n d ≠ []
  nearest : ∀ a, Dominates f.cflowGraph.Adjacent f.entryPoint a v → versions f.cflowGraph n a ≠ [] →
    Dominates f.cflowGraph.Adjacent f.entryPoint a d

/-- The last version `x` of `n` on the way to an exit. -/
def Reaches (f : Function) (n : String) (x : Lvalue) : Prop :=
  ∃ v d, Exit f.cflowGraph v ∧ Reachable f.cflowGraph.Adjacent f.entryPoint v ∧ Provides f n v d ∧
    (versions f.cflowGraph n d).getLast? = some x

/-- For each size, the least upper bound of the values of the versions that reach an exit. -/
def Joined (valid : A → Prop) (le : A → A → Prop) (dom : Avalue A) (f : Function) (vals : Lvalue → Option A) (n : String)
    (ret : Results A) : Prop :=
  ∀ size, match ret[(n, size)]? with
    | some a => (∃ x, Reaches f n x ∧ x.size = some size) ∧
        Joins.Least valid le {b | ∃ x, Reaches f n x ∧ x.size = some size ∧ valueOf dom vals x = b} a
    | none => ∀ x, Reaches f n x → x.size ≠ some size

section Condition
variable {valid : A → Prop} {le : A → A → Prop} {f : Function} {n : String} {last : Nat → Option Lvalue}
  (laws : Joins.Laws valid le dom.combine dom.initial)

include laws in
private theorem valueOf_valid {vals : Lvalue → Option A} (valids : ∀ x a, vals x = some a → valid a) (x : Lvalue) :
    valid (valueOf dom vals x) := by
  rw [valueOf]
  cases found : vals x with
  | none => exact laws.bottom_valid
  | some a => exact valids x a found

include laws in
/-- One version of each size reaches the exits, and it is the one whose value is reported. -/
theorem joined_of_single (single : ∀ x size, x.size = some size → (Reaches f n x ↔ last size = some x))
    (sized : ∀ size x, last size = some x → x.size = some size) {vals : Lvalue → Option A}
    (valids : ∀ x a, vals x = some a → valid a) {ret : Results A}
    (entries : ∀ size, ret[(n, size)]? = (last size).map (valueOf dom vals)) : Joined valid le dom f vals n ret := by
  intro size
  rw [entries]
  cases found : last size with
  | none =>
    intro x reaches same
    have other := (single x size same).mp reaches
    rw [found] at other
    cases other
  | some x =>
    have size_x := sized size x found
    have reaches := (single x size size_x).mpr found
    have only : {b | ∃ y, Reaches f n y ∧ y.size = some size ∧ valueOf dom vals y = b} = {valueOf dom vals x} := by
      ext b
      simp only [Set.mem_ofPred_eq, Set.mem_singleton_iff]
      constructor
      · intro holds
        obtain ⟨y, reached, same, value⟩ := holds
        have equal := (single y size same).mp reached
        rw [found] at equal
        cases equal
        exact value.symm
      · intro value
        exact ⟨x, reaches, size_x, value.symm⟩
    refine ⟨⟨x, reaches, size_x⟩, ?_⟩
    rw [only]
    exact Joins.least_singleton laws (valueOf_valid laws valids x)

include laws in
private theorem single_of_joined (several : ∃ a b, valid a ∧ valid b ∧ a ≠ b)
    (joined : ∀ vals, (∀ x a, vals x = some a → valid a) → ∃ ret : Results A,
      (∀ size, ret[(n, size)]? = (last size).map (valueOf dom vals)) ∧ Joined valid le dom f vals n ret)
    (x : Lvalue) (size : Nat) (same : x.size = some size) : Reaches f n x ↔ last size = some x := by
  obtain ⟨low, high, validLow, validHigh, -, above⟩ := Joins.exists_lt laws several
  have forced : ∀ y z, Reaches f n y → y.size = some size → last size = some z → y = z := by
    intro y z reaches sized found
    by_contra other
    obtain ⟨ret, entries, values⟩ := joined (fun w => if w = z then some low else some high) (by
      intro w a value
      split at value
      · exact Option.some.inj value ▸ validLow
      · exact Option.some.inj value ▸ validHigh)
    have value := values size
    rw [entries, found] at value
    have below := value.2.upper _ ⟨y, reaches, sized, rfl⟩
    simp only [valueOf, if_neg other, if_true, Option.getD_some] at below
    exact above below
  obtain ⟨ret, entries, values⟩ := joined (fun _ => none) (by simp)
  have value := values size
  rw [entries] at value
  constructor
  · intro reaches
    cases found : last size with
    | none =>
      rw [found] at value
      exact absurd same (value x reaches)
    | some z => rw [forced x z reaches same found]
  · intro found
    rw [found] at value
    obtain ⟨⟨y, reaches, sized⟩, -⟩ := value
    exact forced y x reaches sized found ▸ reaches

end Condition

private theorem lastExit_size {g : ControlFlowGraph} {vertices : List Nat} {n : String} {size : Nat} {x : Lvalue}
    (found : lastExit g vertices n size = some x) : x.size = some size := by
  obtain ⟨v, -, first⟩ := List.exists_of_findSome?_eq_some found
  unfold exitVersion at first
  split at first
  · have sized := List.find?_some first
    simp only [Sized, Bool.and_eq_true, decide_eq_true_eq] at sized
    exact sized.2
  · cases first

/-- The values reported for `n` are the joins over the exits, whatever the environment, exactly when for each size only one
version reaches the exits, and is the first of its size in the last exit that assigns one. -/
theorem results_iff {valid : A → Prop} {le : A → A → Prop} (laws : Joins.Laws valid le dom.combine dom.initial)
    (several : ∃ a b, valid a ∧ valid b ∧ a ≠ b) {f : Function} (consistent : f.cflowGraph.Consistent)
    (entry : (f.cflowGraph.vertexLabel f.entryPoint).isSome) (vertices : Enumeration Nat) (names : Enumeration String)
    (n : String) :
    ∃ enough, ∀ fuel, enough ≤ fuel →
      (∀ vals, ∃ ret, (results dom vertices names fuel f vals : Outcome ε _) = .returns ret) ∧
      ((∀ vals, (∀ x a, vals x = some a → valid a) → ∃ ret,
          (results dom vertices names fuel f vals : Outcome ε _) = .returns ret ∧ Joined valid le dom f vals n ret) ↔
        ∀ x size, x.size = some size →
          (Reaches f n x ↔ lastExit f.cflowGraph (f.cflowGraph.vertices vertices) n size = some x)) := by
  obtain ⟨enough, computed⟩ := results_returns (ε := ε) dom consistent entry vertices names
  refine ⟨enough, fun fuel large => ⟨fun vals => ?_, ?_, ?_⟩⟩
  · obtain ⟨ret, returned, -⟩ := computed fuel large vals
    exact ⟨ret, returned⟩
  · intro joined
    apply single_of_joined laws several
    intro vals valids
    obtain ⟨ret, returned, entries⟩ := computed fuel large vals
    obtain ⟨ret', returned', values⟩ := joined vals valids
    rw [returned] at returned'
    cases returned'
    exact ⟨ret, entries n, values⟩
  · intro single vals valids
    obtain ⟨ret, returned, entries⟩ := computed fuel large vals
    exact ⟨ret, returned, joined_of_single laws single (fun size x => lastExit_size) valids (entries n)⟩

def oneBlock (statements : List Statement) : Function where
  name := "f"
  aliases := []
  uuid := 0
  cflowGraph := .ofLists [.resolved (.fromVec [⟨⟨0, 1⟩, "mov", [], statements, []⟩])] []
  entryPoint := 0
  region := "ram"
  size := 0
  kind := .regular

/-- A block that is left to one of two exits, the second of which assigns `x`. -/
def forked : Function := { oneBlock [] with
  cflowGraph := .ofLists
    [.resolved (.fromVec [⟨⟨0, 1⟩, "mov", [], [⟨.var "y" (some 0) 8, .move (.constant 1 8)⟩], []⟩]),
      .resolved (.fromVec [⟨⟨1, 2⟩, "ret", [], [], []⟩]),
      .resolved (.fromVec [⟨⟨8, 9⟩, "mov", [], [⟨.var "x" (some 0) 8, .move (.var "y" (some 0) 0 8)⟩], []⟩])]
    [(.always, 0, 1), (.always, 0, 2)] }

theorem results_forked : ∃ enough, ∀ fuel, enough ≤ fuel →
    let run := fun vals => (results (Kset.domain .canonical) .reversed .canonical fuel forked vals : Outcome Empty _)
    (∀ vals, ∃ ret, run vals = .returns ret) ∧
    ((∀ vals, (∀ x a, vals x = some a → Kset.WellFormed a) → ∃ ret, run vals = .returns ret ∧
        Joined Kset.WellFormed Kset.Le (Kset.domain .canonical) forked vals "x" ret) ↔
      ∀ x size, x.size = some size →
        (Reaches forked "x" x ↔ lastExit forked.cflowGraph (forked.cflowGraph.vertices .reversed) "x" size = some x)) :=
  results_iff (Kset.laws .canonical) ⟨.meet, .join, trivial, trivial, by simp⟩ (.ofLists _ _) (by decide)
    .reversed .canonical "x"

/-- Two assignments in a row, and what they assign. -/
def overwritten : Function := oneBlock [⟨.var "x" none 8, .move (.constant 1 8)⟩, ⟨.var "x" none 8, .move (.constant 2 8)⟩]

def overwrittenValues (x : Lvalue) : Option Kset :=
  if x = .var "x" (some 0) 8 then some (.set [(1, 8)])
  else if x = .var "x" (some 1) 8 then some (.set [(2, 8)])
  else none

/-- In SSA form, the value reported is that of the first assignment. -/
theorem overwritten_first : ∃ f' filled, Ssa.ssaConvertion .canonical 20 overwritten = .returns (f', filled) ∧
    ∃ ret, (results (Kset.domain .canonical) .canonical .canonical 20 f' overwrittenValues : Outcome Empty _) = .returns ret ∧
      ¬Joined Kset.WellFormed Kset.Le (Kset.domain .canonical) f' overwrittenValues "x" ret := by
  obtain ⟨⟨f', filled⟩, converted, facts⟩ := Outcome.exists_of_value?
    (show (Ssa.ssaConvertion .canonical 20 overwritten).value?.any (fun result =>
      result.1.entryPoint == 0 && outDegree result.1.cflowGraph 0 == 0 &&
      Liveness.resolved result.1.cflowGraph 0 &&
      versions result.1.cflowGraph "x" 0 == [.var "x" (some 0) 8, .var "x" (some 1) 8] &&
      (results (ε := Empty) (Kset.domain .canonical) .canonical .canonical 20 result.1 overwrittenValues).value?.any
        fun ret => ret[("x", 8)]? == some (.set [(1, 8)])) = true by decide)
  simp only [Bool.and_eq_true, beq_iff_eq] at facts
  obtain ⟨⟨⟨⟨entry, leaf⟩, resolved⟩, assigns⟩, reported⟩ := facts
  obtain ⟨ret, returned, value⟩ := Outcome.exists_of_value? reported
  refine ⟨f', filled, converted, ret, returned, fun joined => ?_⟩
  have label : Block f'.cflowGraph 0 := by
    unfold Block
    unfold Liveness.resolved at resolved
    split at resolved
    · next bb found => exact ⟨bb, found⟩
    · cases resolved
  have last : Reaches f' "x" (.var "x" (some 1) 8) := by
    refine ⟨0, 0, ⟨leaf, label⟩, entry ▸ ⟨_, .root⟩, ⟨.refl 0, by simp [assigns], fun a above _ => above⟩, by simp [assigns]⟩
  have upper := joined 8
  rw [beq_iff_eq.mp value] at upper
  have below := upper.2.upper _ ⟨_, last, rfl, rfl⟩
  simp [valueOf, overwrittenValues, Kset.Le] at below

end Panopticon.Proofs.ExitValues
