import Panopticon.Ssa

/-! What renaming does to one basic block: it changes subscripts only, gives every
assignment the next free version and every read the innermost version in scope. -/

namespace Panopticon
open Library

def Rvalue.strip : Rvalue → Rvalue
  | .var name _ offset size => .var name none offset size
  | rv => rv

def Lvalue.strip : Lvalue → Lvalue
  | .var name _ size => .var name none size
  | .undefined => .undefined

def Statement.strip (stmt : Statement) : Statement := ⟨stmt.assignee.strip, stmt.op.lift Rvalue.strip⟩

def Mnemonic.strip (mne : Mnemonic) : Mnemonic :=
  { mne with operands := mne.operands.map Rvalue.strip, instructions := mne.instructions.map Statement.strip }

def BasicBlock.strip (bb : BasicBlock) : BasicBlock := { bb with mnemonics := bb.mnemonics.map Mnemonic.strip }

def ControlFlowTarget.strip : ControlFlowTarget → ControlFlowTarget
  | .resolved bb => .resolved bb.strip
  | .unresolved target => .unresolved target.strip
  | .failed pos msg => .failed pos msg

def Guard.strip : Guard → Guard
  | .predicate flag expected => .predicate flag.strip expected
  | gu => gu

@[simp] theorem Statement.strip_isPhi (stmt : Statement) : stmt.strip.op.isPhi = stmt.op.isPhi :=
  Operation.isPhi_lift _ _

theorem BasicBlock.statements_strip (bb : BasicBlock) : bb.strip.statements = bb.statements.map Statement.strip := by
  simp [BasicBlock.statements, BasicBlock.strip, Mnemonic.strip, List.flatMap_map, List.map_flatMap]

/-- The statements of a block; other vertices have none. -/
def ControlFlowTarget.statements : ControlFlowTarget → List Statement
  | .resolved bb => bb.statements
  | _ => []

theorem ControlFlowTarget.statements_strip (lb : ControlFlowTarget) :
    lb.strip.statements = lb.statements.map Statement.strip := by
  cases lb with
  | resolved bb => exact bb.statements_strip
  | unresolved => rfl
  | failed => rfl

namespace Proofs.Versions
open Ssa

def scope (vs : Versions) (x : String) : List Nat := vs.stack[x]?.getD []

def next (vs : Versions) (x : String) : Nat := vs.counter[x]?.getD 0

def versionOf (x : String) : Lvalue → Option Nat
  | .var name (some i) _ => if name = x then some i else none
  | _ => none

/-- The versions of `x` that statements assign, the last one first. -/
def assigned (stmts : List Statement) (x : String) : List Nat :=
  (stmts.filterMap fun stmt => versionOf x stmt.assignee).reverse

@[simp] theorem assigned_nil (x : String) : assigned [] x = [] := rfl

@[simp] theorem assigned_append (first last : List Statement) (x : String) :
    assigned (first ++ last) x = assigned last x ++ assigned first x := by
  simp [assigned]

theorem assigned_cons (stmt : Statement) (stmts : List Statement) (x : String) :
    assigned (stmt :: stmts) x = assigned stmts x ++ assigned [stmt] x :=
  assigned_append [stmt] stmts x

theorem mem_assigned {stmts : List Statement} {x : String} {i : Nat} :
    i ∈ assigned stmts x ↔ ∃ stmt ∈ stmts, ∃ size, stmt.assignee = .var x (some i) size := by
  simp only [assigned, List.mem_reverse, List.mem_filterMap]
  refine exists_congr fun stmt => and_congr_right fun _ => ?_
  cases stmt.assignee with
  | undefined => simp [versionOf]
  | var name subscript size =>
    cases subscript with
    | none => simp [versionOf]
    | some j =>
      simp only [versionOf]
      split
      · next same => simp [same]
      · next other => simp [other]

/-- `stmts` are assigned the versions between two states of the counters. -/
structure Assigns (vs vs' : Versions) (stmts : List Statement) : Prop where
  scope : ∀ x, scope vs' x = assigned stmts x ++ scope vs x
  fresh : ∀ x, ∃ n, next vs' x = next vs x + n ∧ assigned stmts x = (List.range' (next vs x) n).reverse

theorem Assigns.nil (vs : Versions) : Assigns vs vs [] :=
  ⟨fun _ => rfl, fun _ => ⟨0, rfl, rfl⟩⟩

theorem Assigns.append {vs vs' vs'' : Versions} {first last : List Statement} (left : Assigns vs vs' first)
    (right : Assigns vs' vs'' last) : Assigns vs vs'' (first ++ last) := by
  constructor
  · intro x
    rw [right.scope, left.scope, assigned_append, List.append_assoc]
  · intro x
    obtain ⟨n, count, versions⟩ := left.fresh x
    obtain ⟨m, count', versions'⟩ := right.fresh x
    refine ⟨n + m, by omega, ?_⟩
    rw [assigned_append, versions, versions', count, ← List.reverse_append, List.range'_append_1]

theorem Assigns.versions {vs vs' : Versions} {stmts : List Statement} (assigns : Assigns vs vs' stmts) (x : String) :
    (assigned stmts x).Nodup ∧ next vs x ≤ next vs' x ∧ ∀ i ∈ assigned stmts x, next vs x ≤ i ∧ i < next vs' x := by
  obtain ⟨n, count, versions⟩ := assigns.fresh x
  refine ⟨?_, by omega, ?_⟩
  · rw [versions, List.nodup_reverse]
    exact List.nodup_range'
  · intro i member
    rw [versions, List.mem_reverse, List.mem_range'_1] at member
    omega

def Numbered (stmts : List Statement) : Prop :=
  ∀ stmt ∈ stmts, ∀ x subscript size, stmt.assignee = .var x subscript size → subscript.isSome

theorem renameAssignee_spec (vs : Versions) (lhs : Lvalue) (op : Operation Rvalue) :
    Assigns vs (renameAssignee vs lhs).1 [⟨(renameAssignee vs lhs).2, op⟩] ∧
      (renameAssignee vs lhs).2.strip = lhs.strip ∧ Numbered [⟨(renameAssignee vs lhs).2, op⟩] := by
  cases lhs with
  | undefined =>
    refine ⟨⟨fun _ => rfl, fun _ => ⟨0, rfl, rfl⟩⟩, rfl, ?_⟩
    intro stmt member x subscript size same
    cases List.mem_singleton.mp member
    cases same
  | var name subscript size =>
    refine ⟨⟨?_, ?_⟩, rfl, ?_⟩
    · intro x
      simp only [renameAssignee, newName, scope, Std.ExtTreeMap.getElem?_insert, assigned, versionOf,
        List.filterMap_cons, List.filterMap_nil, Std.LawfulEqCmp.compare_eq_iff_eq]
      by_cases same : name = x
      · subst x
        simp
      · simp [same]
    · intro x
      by_cases same : name = x
      · subst x
        exact ⟨1, by simp [renameAssignee, newName, next], by simp [renameAssignee, newName, assigned, versionOf, next]⟩
      · refine ⟨0, ?_, by simp [renameAssignee, assigned, versionOf, same]⟩
        simp [renameAssignee, newName, next, Std.ExtTreeMap.getElem?_insert, same]
    · intro stmt member x subscript size same
      cases List.mem_singleton.mp member
      cases same
      rfl

theorem assigned_of_strip {stmts others : List Statement} (numbered : Numbered stmts)
    (same : stmts.map Statement.strip = others.map Statement.strip) {stmt : Statement} (member : stmt ∈ others) {x : String}
    {subscript : Option Nat} {size : Nat} (target : stmt.assignee = .var x subscript size) : assigned stmts x ≠ [] := by
  have listed : stmt.strip ∈ stmts.map Statement.strip := same ▸ List.mem_map_of_mem member
  obtain ⟨now, present, equal⟩ := List.mem_map.mp listed
  have strip : now.assignee.strip = .var x none size := by
    rw [show now.assignee.strip = now.strip.assignee from rfl, equal]
    simp [Statement.strip, target, Lvalue.strip]
  cases kind : now.assignee with
  | undefined => simp [kind, Lvalue.strip] at strip
  | var name version width =>
    simp only [kind, Lvalue.strip, Lvalue.var.injEq, true_and] at strip
    obtain ⟨rfl, rfl⟩ := strip
    obtain ⟨i, rfl⟩ := Option.isSome_iff_exists.mp (numbered now present _ _ _ kind)
    exact List.ne_nil_of_mem (mem_assigned.mpr ⟨now, present, _, kind⟩)

/-- A value read has the innermost version in scope. -/
def ReadsFrom (inside : String → List Nat) : Rvalue → Prop
  | .var x subscript _ _ => subscript = (inside x).head?
  | _ => True

/-- Statements other than phi functions read what is in scope where they stand. -/
def Reads (outer : String → List Nat) : List Statement → Prop
  | [] => True
  | stmt :: rest => (stmt.op.isPhi = false → ∀ rv ∈ stmt.op.operands, ReadsFrom outer rv) ∧
      Reads (fun x => assigned [stmt] x ++ outer x) rest

theorem Reads.append {outer : String → List Nat} {first last : List Statement} :
    Reads outer (first ++ last) ↔ Reads outer first ∧ Reads (fun x => assigned first x ++ outer x) last := by
  induction first generalizing outer with
  | nil => simp [Reads]
  | cons stmt first ih =>
    simp only [List.cons_append, Reads, ih, and_assoc]
    simp only [assigned_cons stmt first, List.append_assoc]

theorem Reads.at {outer : String → List Nat} {pre post : List Statement} {stmt : Statement}
    (reads : Reads outer (pre ++ stmt :: post)) (plain : stmt.op.isPhi = false) {rv : Rvalue}
    (member : rv ∈ stmt.op.operands) : ReadsFrom (fun x => assigned pre x ++ outer x) rv :=
  (Reads.append.mp reads).2.1 plain rv member

private theorem reads_phis {outer : String → List Nat} {stmts : List Statement}
    (phis : ∀ stmt ∈ stmts, stmt.op.isPhi = true) : Reads outer stmts := by
  induction stmts generalizing outer with
  | nil => trivial
  | cons stmt stmts ih =>
    refine ⟨fun plain => ?_, ih fun other member => phis other (by simp [member])⟩
    rw [phis stmt (by simp)] at plain
    cases plain

theorem inScope_strip (vs : Versions) (rv : Rvalue) : (inScope vs rv).strip = rv.strip := by
  cases rv <;> rfl

theorem inScope_reads (vs : Versions) (rv : Rvalue) : ReadsFrom (scope vs) (inScope vs rv) := by
  cases rv with
  | undefined => trivial
  | constant => trivial
  | var name subscript offset size =>
    simp only [inScope, ReadsFrom, scope]
    cases vs.stack[name]? <;> rfl

theorem strip_comp_inScope (vs : Versions) : Rvalue.strip ∘ inScope vs = Rvalue.strip :=
  funext (inScope_strip vs)

private theorem accumulate_append {f : σ → α → σ × α} {state middle last : σ} {as bs as' bs' : List α}
    (first : accumulate f state as = (middle, as')) (second : accumulate f middle bs = (last, bs')) :
    accumulate f state (as ++ bs) = (last, as' ++ bs') := by
  induction as generalizing state as' with
  | nil =>
    cases first
    exact second
  | cons a as ih =>
    simp only [accumulate] at first
    cases rest : accumulate f (f state a).1 as with
    | mk reached items =>
      rw [rest] at first
      cases first
      simp [accumulate, ih rest]

/-- What a walk does to the statements it renames. -/
structure Renames (vs vs' : Versions) (before after : List Statement) : Prop where
  assigns : Assigns vs vs' after
  same : after.map Statement.strip = before.map Statement.strip
  numbered : Numbered after
  reads : Reads (scope vs) after

theorem Renames.nil (vs : Versions) : Renames vs vs [] [] :=
  ⟨.nil vs, rfl, fun _ member => (List.not_mem_nil member).elim, trivial⟩

theorem Renames.append {vs vs' vs'' : Versions} {before before' after after' : List Statement}
    (left : Renames vs vs' before after) (right : Renames vs' vs'' before' after') :
    Renames vs vs'' (before ++ before') (after ++ after') where
  assigns := left.assigns.append right.assigns
  same := by simp [left.same, right.same]
  numbered := by
    intro stmt member
    rcases List.mem_append.mp member with member | member
    · exact left.numbered stmt member
    · exact right.numbered stmt member
  reads := by
    refine Reads.append.mpr ⟨left.reads, ?_⟩
    rw [show (fun x => assigned after x ++ scope vs x) = scope vs' from funext fun x => (left.assigns.scope x).symm]
    exact right.reads

private theorem numberPhi_spec (vs : Versions) {stmt : Statement} (phi : stmt.op.isPhi = true) :
    Renames vs (numberPhi vs stmt).1 [stmt] [(numberPhi vs stmt).2] ∧ (numberPhi vs stmt).2.op = stmt.op := by
  obtain ⟨assigns, same, numbered⟩ := renameAssignee_spec vs stmt.assignee stmt.op
  rw [show numberPhi vs stmt =
    ((renameAssignee vs stmt.assignee).1, ⟨(renameAssignee vs stmt.assignee).2, stmt.op⟩) by simp [numberPhi, phi]]
  refine ⟨⟨assigns, ?_, numbered, reads_phis ?_⟩, rfl⟩
  · simp [Statement.strip, same]
  · intro other member
    cases List.mem_singleton.mp member
    exact phi

private theorem accumulate_numberPhi (vs : Versions) {stmts : List Statement} (phis : ∀ stmt ∈ stmts, stmt.op.isPhi = true) :
    ∃ vs' stmts', accumulate numberPhi vs stmts = (vs', stmts') ∧ Renames vs vs' stmts stmts' ∧
      stmts'.map Statement.op = stmts.map Statement.op := by
  induction stmts generalizing vs with
  | nil => exact ⟨vs, [], rfl, .nil vs, rfl⟩
  | cons stmt stmts ih =>
    obtain ⟨first, op⟩ := numberPhi_spec vs (phis stmt (by simp))
    obtain ⟨vs', rest, walked, renames, ops⟩ := ih (numberPhi vs stmt).1 fun other member => phis other (by simp [member])
    exact ⟨vs', (numberPhi vs stmt).2 :: rest, by simp [accumulate, walked], first.append renames, by simp [op, ops]⟩

private theorem accumulate_numberPhi_plain (vs : Versions) {stmts : List Statement}
    (plain : ∀ stmt ∈ stmts, stmt.op.isPhi = false) : accumulate numberPhi vs stmts = (vs, stmts) := by
  induction stmts with
  | nil => rfl
  | cons stmt stmts ih =>
    have rest := ih fun other member => plain other (by simp [member])
    simp [accumulate, numberPhi, plain stmt (by simp), rest]

/-- A mnemonic that holds phi functions only. -/
def PhiMnemonic (mne : Mnemonic) : Prop := mne.opcode = "__phi" ∧ ∀ stmt ∈ mne.instructions, stmt.op.isPhi = true

def PlainMnemonic (mne : Mnemonic) : Prop := mne.opcode ≠ "__phi" ∧ ∀ stmt ∈ mne.instructions, stmt.op.isPhi = false

private theorem accumulate_phis (vs : Versions) {mnes : List Mnemonic} (phis : ∀ mne ∈ mnes, PhiMnemonic mne) :
    ∃ vs' mnes', accumulate numberMnemonic vs mnes = (vs', mnes') ∧
      Renames vs vs' (mnes.flatMap Mnemonic.instructions) (mnes'.flatMap Mnemonic.instructions) ∧
      (mnes'.flatMap Mnemonic.instructions).map Statement.op = (mnes.flatMap Mnemonic.instructions).map Statement.op ∧
      mnes'.map Mnemonic.strip = mnes.map Mnemonic.strip ∧ ∀ mne ∈ mnes', PhiMnemonic mne := by
  induction mnes generalizing vs with
  | nil => exact ⟨vs, [], rfl, .nil vs, rfl, rfl, by simp⟩
  | cons mne mnes ih =>
    have here := phis mne (by simp)
    obtain ⟨middle, stmts, numbered, first, ops⟩ := accumulate_numberPhi vs here.2
    obtain ⟨vs', rest, walked, renames, ops', same, phis'⟩ := ih middle fun other member => phis other (by simp [member])
    refine ⟨vs', { mne with instructions := stmts } :: rest, by simp [accumulate, numberMnemonic, numbered, walked],
      first.append renames, by simp [ops, ops'], by simp [Mnemonic.strip, first.same, same], ?_⟩
    refine List.forall_mem_cons.mpr ⟨⟨here.1, ?_⟩, phis'⟩
    intro stmt member
    have listed : stmt.op ∈ mne.instructions.map Statement.op := ops ▸ List.mem_map_of_mem member
    obtain ⟨old, inside, op⟩ := List.mem_map.mp listed
    exact op ▸ here.2 old inside

private theorem accumulate_plain (vs : Versions) {mnes : List Mnemonic} (plain : ∀ mne ∈ mnes, PlainMnemonic mne) :
    accumulate numberMnemonic vs mnes = (vs, mnes) := by
  induction mnes with
  | nil => rfl
  | cons mne mnes ih =>
    have rest := ih fun other member => plain other (by simp [member])
    simp [accumulate, numberMnemonic, accumulate_numberPhi_plain vs (plain mne (by simp)).2, rest]

variable {ε : Type}

private theorem renameStatement_spec {vs vs' : Versions} {stmt stmt' : Statement} {stop : Option String}
    (plain : stmt.op.isPhi = false)
    (renamed : (renameStatement vs stmt : Outcome ε _) = .returns (vs', stmt', stop)) :
    stop = none ∧ Renames vs vs' [stmt] [stmt'] := by
  simp only [renameStatement, plain, Bool.false_eq_true, ite_false] at renamed
  split at renamed
  · obtain ⟨assigns, same, numbered⟩ := renameAssignee_spec vs stmt.assignee (stmt.op.lift (inScope vs))
    simp only [Outcome.pure_eq, Outcome.returns.injEq, Prod.mk.injEq] at renamed
    obtain ⟨rfl, rfl, rfl⟩ := renamed
    refine ⟨rfl, assigns, ?_, numbered, ?_, trivial⟩
    · simp [Statement.strip, same, Operation.lift_lift, strip_comp_inScope]
    · intro _ rv member
      simp only [Operation.operands_lift, List.mem_map] at member
      obtain ⟨old, -, rfl⟩ := member
      exact inScope_reads vs old
  · cases renamed

private theorem rewrite_statements {vs vs' : Versions} {stmts stmts' : List Statement} {stop : Option String}
    (plain : ∀ stmt ∈ stmts, stmt.op.isPhi = false)
    (renamed : Outcome.rewrite renameStatement vs stmts = (.returns (vs', stmts', stop) : Outcome ε _)) :
    stop = none ∧ Renames vs vs' stmts stmts' := by
  induction stmts generalizing vs stmts' with
  | nil =>
    cases renamed
    exact ⟨rfl, .nil _⟩
  | cons stmt stmts ih =>
    simp only [Outcome.rewrite, Outcome.bind_eq_returns] at renamed
    obtain ⟨⟨middle, first, stopped⟩, step, rest⟩ := renamed
    obtain ⟨rfl, renames⟩ := renameStatement_spec (plain stmt (by simp)) step
    simp only [Outcome.bind_eq_returns, Outcome.pure_eq, Outcome.returns.injEq, Prod.mk.injEq] at rest
    obtain ⟨⟨last, others, ending⟩, walked, rfl, rfl, rfl⟩ := rest
    obtain ⟨rfl, renames'⟩ := ih (fun other member => plain other (by simp [member])) walked
    exact ⟨rfl, renames.append renames'⟩

theorem isPhi_of_same {before after : List Statement} (same : after.map Statement.strip = before.map Statement.strip)
    {phi : Bool} (all : ∀ stmt ∈ before, stmt.op.isPhi = phi) : ∀ stmt ∈ after, stmt.op.isPhi = phi := by
  intro stmt member
  have listed : stmt.strip ∈ before.map Statement.strip := same ▸ List.mem_map_of_mem member
  obtain ⟨old, inside, equal⟩ := List.mem_map.mp listed
  rw [← Statement.strip_isPhi, ← equal, Statement.strip_isPhi]
  exact all old inside

private theorem rewrite_plain {vs vs' : Versions} {mnes mnes' : List Mnemonic} {stop : Option String}
    (plain : ∀ mne ∈ mnes, PlainMnemonic mne)
    (renamed : Outcome.rewrite renameMnemonic vs mnes = (.returns (vs', mnes', stop) : Outcome ε _)) :
    stop = none ∧ Renames vs vs' (mnes.flatMap Mnemonic.instructions) (mnes'.flatMap Mnemonic.instructions) ∧
      mnes'.map Mnemonic.strip = mnes.map Mnemonic.strip := by
  induction mnes generalizing vs mnes' with
  | nil =>
    cases renamed
    exact ⟨rfl, .nil _, rfl⟩
  | cons mne mnes ih =>
    have here := plain mne (by simp)
    simp only [Outcome.rewrite, renameMnemonic, here.1, ite_false, Outcome.bind_eq_returns, Outcome.pure_eq,
      Outcome.returns.injEq] at renamed
    obtain ⟨step, ⟨⟨middle, stmts, stopped⟩, walked, rfl⟩, rest⟩ := renamed
    obtain ⟨rfl, renames⟩ := rewrite_statements here.2 walked
    simp only [Outcome.bind_eq_returns, Outcome.returns.injEq, Prod.mk.injEq] at rest
    obtain ⟨⟨last, others, ending⟩, others', rfl, rfl, rfl⟩ := rest
    obtain ⟨rfl, renames', same⟩ := ih (fun other member => plain other (by simp [member])) others'
    refine ⟨rfl, renames.append renames', ?_⟩
    simp [Mnemonic.strip, renames.same, same, strip_comp_inScope]

/-- The second walk passes over `__phi` mnemonics. -/
theorem rewrite_phis {vs vs' : Versions} {phis rest mnes' : List Mnemonic} {stop : Option String}
    (opcodes : ∀ mne ∈ phis, PhiMnemonic mne)
    (renamed : Outcome.rewrite renameMnemonic vs (phis ++ rest) = (.returns (vs', mnes', stop) : Outcome ε _)) :
    ∃ rest', mnes' = phis ++ rest' ∧
      Outcome.rewrite renameMnemonic vs rest = (.returns (vs', rest', stop) : Outcome ε _) := by
  induction phis generalizing mnes' with
  | nil => exact ⟨mnes', rfl, renamed⟩
  | cons mne phis ih =>
    simp only [List.cons_append, Outcome.rewrite, renameMnemonic, (opcodes mne (by simp)).1, ite_true, Outcome.pure_eq,
      Outcome.returns_bind, Outcome.bind_eq_returns, Outcome.returns.injEq, Prod.mk.injEq] at renamed
    obtain ⟨⟨last, others, ending⟩, walked, rfl, rfl, rfl⟩ := renamed
    obtain ⟨rest', rfl, found⟩ := ih (fun other member => opcodes other (by simp [member])) walked
    exact ⟨rest', rfl, found⟩

/-- Phi functions come first and nothing but them stands in `__phi` mnemonics. -/
def PhisFirst (mnes : List Mnemonic) : Prop :=
  ∃ n, (∀ mne ∈ mnes.take n, PhiMnemonic mne) ∧ ∀ mne ∈ mnes.drop n, PlainMnemonic mne

private theorem phiMnemonic_strip {mne : Mnemonic} : PhiMnemonic mne.strip ↔ PhiMnemonic mne := by
  simp [PhiMnemonic, Mnemonic.strip]

private theorem plainMnemonic_strip {mne : Mnemonic} : PlainMnemonic mne.strip ↔ PlainMnemonic mne := by
  simp [PlainMnemonic, Mnemonic.strip]

theorem PhisFirst.congr {mnes mnes' : List Mnemonic} (shape : PhisFirst mnes)
    (same : mnes'.map Mnemonic.strip = mnes.map Mnemonic.strip) : PhisFirst mnes' := by
  have strip : ∀ {mnes : List Mnemonic}, PhisFirst (mnes.map Mnemonic.strip) ↔ PhisFirst mnes := by
    intro mnes
    simp only [PhisFirst, ← List.map_take, ← List.map_drop, List.forall_mem_map, phiMnemonic_strip, plainMnemonic_strip]
  exact strip.mp (same ▸ strip.mpr shape)

/-- The phi functions among some statements: the variable each assigns and its operation. -/
def phiHeads (stmts : List Statement) : List (Lvalue × Operation Rvalue) :=
  (stmts.filter fun stmt => stmt.op.isPhi).map fun stmt => (stmt.assignee.strip, stmt.op)

@[simp] theorem phiHeads_append (first last : List Statement) :
    phiHeads (first ++ last) = phiHeads first ++ phiHeads last := by
  simp [phiHeads]

theorem phiHeads_plain {stmts : List Statement} (plain : ∀ stmt ∈ stmts, stmt.op.isPhi = false) : phiHeads stmts = [] := by
  have none : stmts.filter (fun stmt => stmt.op.isPhi) = [] := by
    simpa [List.filter_eq_nil_iff] using plain
  rw [phiHeads, none]
  rfl

private theorem phiHeads_phis {stmts stmts' : List Statement} (phis : ∀ stmt ∈ stmts, stmt.op.isPhi = true)
    (same : stmts'.map Statement.strip = stmts.map Statement.strip)
    (ops : stmts'.map Statement.op = stmts.map Statement.op) : phiHeads stmts' = phiHeads stmts := by
  have all : ∀ {stmts : List Statement}, (∀ stmt ∈ stmts, stmt.op.isPhi = true) →
      phiHeads stmts = ((stmts.map Statement.strip).map Statement.assignee).zip (stmts.map Statement.op) := by
    intro stmts phis
    rw [phiHeads, List.filter_eq_self.mpr phis, List.map_map, List.zip_map']
    rfl
  rw [all phis, all (isPhi_of_same same phis), same, ops]

theorem block_spec {vs middle last : Versions} {mnes numbered mnes' : List Mnemonic} {stop : Option String}
    (shape : PhisFirst mnes) (first : accumulate numberMnemonic vs mnes = (middle, numbered))
    (second : Outcome.rewrite renameMnemonic middle numbered = (.returns (last, mnes', stop) : Outcome ε _)) :
    stop = none ∧ Renames vs last (mnes.flatMap Mnemonic.instructions) (mnes'.flatMap Mnemonic.instructions) ∧
      mnes'.map Mnemonic.strip = mnes.map Mnemonic.strip ∧
      phiHeads (mnes'.flatMap Mnemonic.instructions) = phiHeads (mnes.flatMap Mnemonic.instructions) := by
  obtain ⟨n, phis, plain⟩ := shape
  obtain ⟨reached, phis', walked, renames, ops, same, opcodes⟩ := accumulate_phis vs phis
  have all := accumulate_append walked (accumulate_plain reached plain)
  rw [List.take_append_drop, first] at all
  cases all
  obtain ⟨rest', rfl, renamed⟩ := rewrite_phis opcodes second
  obtain ⟨rfl, renames', same'⟩ := rewrite_plain plain renamed
  have rest : ∀ stmt ∈ (mnes.drop n).flatMap Mnemonic.instructions, stmt.op.isPhi = false := by
    intro stmt member
    obtain ⟨mne, listed, inside⟩ := List.mem_flatMap.mp member
    exact (plain mne listed).2 stmt inside
  have front : ∀ stmt ∈ (mnes.take n).flatMap Mnemonic.instructions, stmt.op.isPhi = true := by
    intro stmt member
    obtain ⟨mne, listed, inside⟩ := List.mem_flatMap.mp member
    exact (phis mne listed).2 stmt inside
  refine ⟨rfl, ?_, ?_, ?_⟩
  · have joined := renames.append renames'
    rwa [← List.flatMap_append, ← List.flatMap_append, List.take_append_drop] at joined
  · rw [List.map_append, same, same', ← List.map_append, List.take_append_drop]
  · conv => rhs; rw [← List.take_append_drop n mnes]
    rw [List.flatMap_append, List.flatMap_append, phiHeads_append, phiHeads_append,
      phiHeads_phis front renames.same ops, phiHeads_plain rest, phiHeads_plain (isPhi_of_same renames'.same rest)]

private theorem scope_popStatement (vs : Versions) (stmt : Statement) (x : String)
    (numbered : ∀ x subscript size, stmt.assignee = .var x subscript size → subscript.isSome) :
    scope (popStatement vs stmt) x = (scope vs x).drop (assigned [stmt] x).length := by
  cases target : stmt.assignee with
  | undefined => simp [popStatement, target, assigned, versionOf]
  | var name subscript size =>
    obtain ⟨i, rfl⟩ := Option.isSome_iff_exists.mp (numbered _ _ _ target)
    by_cases same : name = x
    · subst x
      cases found : vs.stack[name]? with
      | none => simp [popStatement, target, found, scope, assigned, versionOf]
      | some versions => simp [popStatement, target, found, scope, assigned, versionOf]
    · cases found : vs.stack[name]? with
      | none => simp [popStatement, target, found, scope, assigned, versionOf, same]
      | some versions =>
        simp [popStatement, target, found, scope, assigned, versionOf, same, Std.ExtTreeMap.getElem?_insert]

theorem scope_pops {stmts : List Statement} (numbered : Numbered stmts) (vs : Versions) (x : String) :
    scope (stmts.foldl popStatement vs) x = (scope vs x).drop (assigned stmts x).length := by
  induction stmts generalizing vs with
  | nil => rfl
  | cons stmt stmts ih =>
    rw [List.foldl_cons, ih (fun other member => numbered other (by simp [member])),
      scope_popStatement vs stmt x (numbered stmt (by simp)), List.drop_drop, assigned_cons stmt stmts,
      List.length_append, Nat.add_comm]

theorem next_pops (stmts : List Statement) (vs : Versions) (x : String) :
    next (stmts.foldl popStatement vs) x = next vs x := by
  induction stmts generalizing vs with
  | nil => rfl
  | cons stmt stmts ih =>
    rw [List.foldl_cons, ih]
    unfold popStatement
    split
    · split <;> rfl
    · rfl

theorem renameRead_spec {vs : Versions} {rv rv' : Rvalue} (renamed : (renameRead vs rv : Outcome ε _) = .returns rv') :
    rv' = inScope vs rv := by
  unfold renameRead at renamed
  split at renamed
  · simpa [eq_comm] using renamed
  · cases renamed

private theorem fillOperands_strip {vs : Versions} {ops ops' : List Rvalue}
    (filled : (fillOperands vs ops : Outcome ε _) = .returns ops') : ops'.map Rvalue.strip = ops.map Rvalue.strip := by
  induction ops generalizing ops' with
  | nil =>
    cases filled
    rfl
  | cons rv ops ih =>
    unfold fillOperands at filled
    split at filled
    · next same => cases same
    · next same =>
      cases same
      simp only [Outcome.bind_eq_returns, Outcome.pure_eq, Outcome.returns.injEq] at filled
      obtain ⟨rv', renamed, rfl⟩ := filled
      simp [renameRead_spec renamed, inScope_strip]
    · next same =>
      cases same
      simp only [Outcome.bind_eq_returns, Outcome.pure_eq, Outcome.returns.injEq] at filled
      obtain ⟨rest, found, rfl⟩ := filled
      simp [ih found]

theorem fillOperands_next {vs : Versions} {done rest ops' : List Rvalue} {x : String} {offset size : Nat}
    (versions : ∀ rv ∈ done, ∃ y i offset size, rv = .var y (some i) offset size)
    (filled : (fillOperands vs (done ++ .var x none offset size :: rest) : Outcome ε _) = .returns ops') :
    ops' = done ++ .var x (scope vs x).head? offset size :: rest := by
  induction done generalizing ops' with
  | nil =>
    simp only [List.nil_append, fillOperands, Outcome.bind_eq_returns, Outcome.pure_eq, Outcome.returns.injEq] at filled
    obtain ⟨rv, renamed, rfl⟩ := filled
    have reads := inScope_reads vs (.var x none offset size)
    simp only [renameRead_spec renamed, inScope, ReadsFrom] at reads ⊢
    rw [reads, List.nil_append]
  | cons rv done ih =>
    obtain ⟨y, i, o, s, rfl⟩ := versions rv (by simp)
    simp only [List.cons_append, fillOperands, Outcome.bind_eq_returns, Outcome.pure_eq, Outcome.returns.injEq] at filled
    obtain ⟨rest', found, rfl⟩ := filled
    rw [ih (fun other member => versions other (by simp [member])) found]
    rfl

theorem fillStatement_spec {vs : Versions} {stmt stmt' : Statement}
    (filled : (fillStatement vs stmt : Outcome ε _) = .returns stmt') :
    stmt'.assignee = stmt.assignee ∧ stmt'.strip = stmt.strip ∧
      ((stmt.op.isPhi = false ∧ stmt' = stmt) ∨ ∃ ops ops', stmt.op = .phi ops ∧ stmt'.op = .phi ops' ∧
        (fillOperands vs ops : Outcome ε _) = .returns ops') := by
  unfold fillStatement at filled
  split at filled
  · next ops same =>
    simp only [Outcome.bind_eq_returns, Outcome.pure_eq, Outcome.returns.injEq] at filled
    obtain ⟨ops', found, rfl⟩ := filled
    refine ⟨rfl, ?_, .inr ⟨ops, ops', same, rfl, found⟩⟩
    simp [Statement.strip, same, Operation.lift, fillOperands_strip found]
  · next other =>
    simp only [Outcome.pure_eq, Outcome.returns.injEq] at filled
    subst stmt'
    refine ⟨rfl, rfl, .inl ⟨?_, rfl⟩⟩
    cases kind : stmt.op <;> first | rfl | exact absurd kind (other _)

theorem Reads.filled {vs : Versions} {outer : String → List Nat} {stmts stmts' : List Statement}
    (filled : Outcome.each (fillStatement vs) stmts = (.returns stmts' : Outcome ε _)) (reads : Reads outer stmts) :
    Reads outer stmts' := by
  induction stmts generalizing outer stmts' with
  | nil =>
    cases filled
    trivial
  | cons stmt stmts ih =>
    simp only [Outcome.each, Outcome.bind_eq_returns, Outcome.pure_eq, Outcome.returns.injEq] at filled
    obtain ⟨stmt', step, rest, walked, rfl⟩ := filled
    obtain ⟨target, -, kind⟩ := fillStatement_spec step
    refine ⟨?_, ?_⟩
    · intro plain
      rcases kind with ⟨-, rfl⟩ | ⟨ops, ops', -, same, -⟩
      · exact reads.1 plain
      · rw [same] at plain
        cases plain
    · have here := ih walked reads.2
      simpa only [assigned, target, List.filterMap_cons, List.filterMap_nil] using here

theorem filled_assignees {vs : Versions} {stmts stmts' : List Statement}
    (filled : Outcome.each (fillStatement vs) stmts = (.returns stmts' : Outcome ε _)) :
    stmts'.map Statement.assignee = stmts.map Statement.assignee ∧
      stmts'.map Statement.strip = stmts.map Statement.strip := by
  induction stmts generalizing stmts' with
  | nil =>
    cases filled
    exact ⟨rfl, rfl⟩
  | cons stmt stmts ih =>
    simp only [Outcome.each, Outcome.bind_eq_returns, Outcome.pure_eq, Outcome.returns.injEq] at filled
    obtain ⟨stmt', step, rest, walked, rfl⟩ := filled
    obtain ⟨target, same, -⟩ := fillStatement_spec step
    obtain ⟨targets, sames⟩ := ih walked
    exact ⟨by simp [target, targets], by simp [same, sames]⟩

theorem assigned_congr {stmts stmts' : List Statement}
    (same : stmts'.map Statement.assignee = stmts.map Statement.assignee) (x : String) :
    assigned stmts' x = assigned stmts x := by
  have lists : ∀ stmts : List Statement, assigned stmts x = ((stmts.map Statement.assignee).filterMap (versionOf x)).reverse := by
    intro stmts
    rw [assigned, List.filterMap_map]
    rfl
  rw [lists, lists, same]

theorem each_fillMnemonic {vs : Versions} {mnes mnes' : List Mnemonic}
    (filled : Outcome.each (fillMnemonic vs) mnes = (.returns mnes' : Outcome ε _)) :
    Outcome.each (fillStatement vs) (mnes.flatMap Mnemonic.instructions) =
        (.returns (mnes'.flatMap Mnemonic.instructions) : Outcome ε _) ∧
      mnes'.map Mnemonic.strip = mnes.map Mnemonic.strip := by
  induction mnes generalizing mnes' with
  | nil =>
    cases filled
    exact ⟨rfl, rfl⟩
  | cons mne mnes ih =>
    simp only [Outcome.each, fillMnemonic, Outcome.bind_eq_returns, Outcome.pure_eq, Outcome.returns.injEq] at filled
    obtain ⟨mne', ⟨instructions, first, rfl⟩, rest, walked, rfl⟩ := filled
    obtain ⟨others, same⟩ := ih walked
    refine ⟨?_, by simp [Mnemonic.strip, (filled_assignees first).2, same]⟩
    rw [List.flatMap_cons, List.flatMap_cons]
    exact Outcome.each_append first others

end Proofs.Versions
end Panopticon
