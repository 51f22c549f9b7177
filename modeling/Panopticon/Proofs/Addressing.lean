import Panopticon.Amd64.Encoding
import Panopticon.Proofs.WriteRegister

/-! Memory operands of 64 bit code: what their statements load from, against the address
that is encoded. -/

namespace Panopticon.Proofs.Addressing
open Panopticon.Library Panopticon.Library.Word Amd64 WriteRegister
open Amd64.Encoding (held)

section Lowering

variable {ρ : Valuation} {seg : SegmentOverride} {base index : Register} {scale size : Nat} {disp : UInt64}

attribute [local simp] Statement.sanityCheck Statement.typecheck Statement.typecheckBinop Statement.typecheckUnop
  Operation.operands Operation.lift Operation.result Rvalue.size Lvalue.size Rvalue.bits Rvalue.denote run Statement.next
  Valuation.assign

def Long (reg : Register) : Prop := reg = .none ∨ reg.width = 64

private theorem name_not_scratch (reg : Register) : reg.name ∉ ["t", "t1", "d"] := by
  cases reg <;> decide

private theorem displayAddress_ne (seg : SegmentOverride) (base index : Register) (scale : Nat) (disp : UInt64 × Nat) :
    displayAddress seg base index scale disp ≠ "d" := by
  intro same
  have last := congrArg (fun s : String => s.toList.getLast?) same
  simp only [displayAddress, String.toList_append] at last
  revert last
  simp

/-- The first half of the code: the base and the scaled index. -/
def indexed (out : String) (base index : Register) (scale : Nat) : Except String (Rvalue × List Statement) :=
  let w := index.width
  let bw := base.width
  let i : Rvalue := .var index.name none 0 w
  let start : Rvalue := if base ≠ .none then .var base.name none 0 bw else .undefined
  if 0 < scale ∧ index ≠ .none then
    if base ≠ .none then do
      let stmts ← rreil
        [⟨.var "t" none w, .multiply (.constant scale.toUInt64 w) i⟩,
          ⟨.var "t1" none bw, .zeroExtend bw (.var "t" none 0 w)⟩,
          ⟨.var out none w, .add start (.var "t1" none 0 bw)⟩]
      pure (Rvalue.var out none 0 w, stmts)
    else do
      let stmts ← rreil [⟨.var out none w, .multiply i (.constant scale.toUInt64 w)⟩]
      pure (Rvalue.var out none 0 w, stmts)
  else pure (start, [])

def displaced (out : String) (disp : UInt64) (size : Nat) (ret : Rvalue) (stmts : List Statement) :
    Except String (Rvalue × List Statement) := do
  if disp = 0 then return (ret, stmts)
  else if ret = .undefined then return (.constant disp size, stmts)
  else
    let w := ret.size.getD size
    let more ← rreil
      [⟨.var "d" none w, .zeroExtend w (.constant disp size)⟩, ⟨.var out none w, .add ret (.var "d" none 0 w)⟩]
    return (.var out none 0 w, stmts ++ more)

theorem addressToRreil_eq : addressToRreil seg base index scale (disp, size) =
    indexed (displayAddress seg base index scale (disp, size)) base index scale >>= fun (ret, stmts) =>
      displaced (displayAddress seg base index scale (disp, size)) disp size ret stmts := by
  simp only [addressToRreil, indexed, displaced]
  split_ifs <;> simp only [bind_assoc, pure_bind]

/-- Nothing, or a variable of 64 bits that holds `value`, and is not overwritten by the displacement. -/
inductive Sums (absent : Prop) (value : Nat) (after : Valuation) : Rvalue → Prop where
  | nothing (absence : absent) (zero : value = 0) : Sums absent value after .undefined
  | named (name : String) (present : ¬absent) (other : name ≠ "d") (holds : after name none % 2 ^ 64 = value % 2 ^ 64) :
    Sums absent value after (.var name none 0 64)

private theorem indexed_run {out : String} (other : out ≠ "d") (longBase : Long base) (longIndex : Long index)
    (scaled : 0 < scale ∨ index = .none) :
    ∃ ret stmts, indexed out base index scale = .ok (ret, stmts) ∧ ∀ ρ, ∃ after, run stmts ρ = some after ∧
      Sums (base = .none ∧ index = .none) (held ρ base + held ρ index * scale) after ret := by
  have fresh : ∀ reg : Register, reg.name ≠ "t" ∧ reg.name ≠ "t1" ∧ reg.name ≠ "d" := by
    intro reg
    simpa using name_not_scratch reg
  by_cases noBase : base = .none <;> by_cases noIndex : index = .none
  · have code : indexed out base index scale = .ok (.undefined, []) := by
      rw [indexed, if_neg fun both => both.2 noIndex, if_neg fun some => some noBase]
      rfl
    exact ⟨_, _, code, fun ρ => ⟨ρ, rfl, .nothing ⟨noBase, noIndex⟩ (by simp [held, noBase, noIndex])⟩⟩
  · have wide := longIndex.resolve_left noIndex
    have code : indexed out base index scale = .ok (.var out none 0 64,
        [⟨.var out none 64, .multiply (.var index.name none 0 64) (.constant scale.toUInt64 64)⟩]) := by
      rw [indexed, if_pos ⟨scaled.resolve_right noIndex, noIndex⟩, if_neg fun some => some noBase, wide,
        rreil_ok (by simp [pure, Except.pure, bind, Except.bind])]
      rfl
    refine ⟨_, _, code, fun ρ => ⟨_, by simp; rfl, .named out (fun none => noIndex none.2) other ?_⟩⟩
    simp [held, noBase, noIndex, Nat.mul_mod]
  · have wide := longBase.resolve_left noBase
    have code : indexed out base index scale = .ok (.var base.name none 0 64, []) := by
      rw [indexed, if_neg fun both => both.2 noIndex, if_pos noBase, wide]
      rfl
    refine ⟨_, _, code, fun ρ => ⟨ρ, rfl, .named base.name (fun none => noBase none.1) (fresh base).2.2 ?_⟩⟩
    simp [held, noBase, noIndex]
  · have wideBase := longBase.resolve_left noBase
    have wide := longIndex.resolve_left noIndex
    have code : indexed out base index scale = .ok (.var out none 0 64, [
        ⟨.var "t" none 64, .multiply (.constant scale.toUInt64 64) (.var index.name none 0 64)⟩,
        ⟨.var "t1" none 64, .zeroExtend 64 (.var "t" none 0 64)⟩,
        ⟨.var out none 64, .add (.var base.name none 0 64) (.var "t1" none 0 64)⟩]) := by
      rw [indexed, if_pos ⟨scaled.resolve_right noIndex, noIndex⟩, if_pos noBase, if_pos noBase, wide, wideBase,
        rreil_ok (by simp [pure, Except.pure, bind, Except.bind])]
      rfl
    refine ⟨_, _, code, fun ρ => ⟨_, by simp; rfl, .named out (fun none => noIndex none.2) other ?_⟩⟩
    simp [held, noBase, noIndex, fresh, Nat.add_mod, Nat.mul_mod, Nat.mul_comm scale]

/-- The address that is computed is undefined without registers and displacement. -/
theorem addressToRreil_run (seg : SegmentOverride) (disp : UInt64) (longBase : Long base) (longIndex : Long index) (width : size ≤ 64) (positive : size ≠ 0)
    (scaled : 0 < scale ∨ index = .none) :
    ∃ target stmts, addressToRreil seg base index scale (disp, size) = .ok (target, stmts) ∧
      target.size ≠ some 0 ∧ ∀ ρ, ∃ after,
      run stmts ρ = some after ∧ (target.denote after).map Bits.value =
        if base = .none ∧ index = .none ∧ disp = 0 then none
        else some ((held ρ base + held ρ index * scale + disp.toNat % 2 ^ size) % 2 ^ 64) := by
  have other := displayAddress_ne seg base index scale (disp, size)
  have fits : disp.toNat % 2 ^ size < 2 ^ 64 :=
    (Nat.mod_lt _ (by positivity)).trans_le (Nat.pow_le_pow_right (show 0 < 2 by decide) width)
  rw [addressToRreil_eq]
  generalize displayAddress seg base index scale (disp, size) = out at other
  obtain ⟨ret, stmts, code, runs⟩ := indexed_run other longBase longIndex scaled
  simp only [code, Except.bind, bind]
  by_cases noDisp : disp = 0
  · have sized : ret.size ≠ some 0 := by
      obtain ⟨_, _, sums⟩ := runs fun _ _ => 0
      cases sums <;> simp
    refine ⟨ret, stmts, if_pos noDisp, sized, fun ρ => ?_⟩
    obtain ⟨after, ran, sums⟩ := runs ρ
    refine ⟨after, ran, ?_⟩
    cases sums with
    | nothing absence => rw [if_pos ⟨absence.1, absence.2, noDisp⟩]; rfl
    | named name present other holds =>
      rw [if_neg fun none => present ⟨none.1, none.2.1⟩]
      simpa [noDisp] using holds
  · obtain ⟨_, _, some⟩ := runs fun _ _ => 0
    cases some with
    | nothing absence _ =>
      refine ⟨.constant disp size, stmts, by rw [displaced, if_neg noDisp, if_pos rfl]; rfl, by simpa using positive, fun ρ => ?_⟩
      obtain ⟨after, ran, sums⟩ := runs ρ
      cases sums with
      | nothing _ zero =>
        refine ⟨after, ran, ?_⟩
        rw [if_neg fun none => noDisp none.2.2, zero, zero_add, Nat.mod_eq_of_lt fits]
        rfl
    | named name present fresh _ =>
      have target : displaced out disp size (.var name none 0 64) stmts = .ok (.var out none 0 64, stmts ++
          [⟨.var "d" none 64, .zeroExtend 64 (.constant disp size)⟩,
            ⟨.var out none 64, .add (.var name none 0 64) (.var "d" none 0 64)⟩]) := by
        rw [displaced, if_neg noDisp, if_neg (by simp)]
        exact congrArg (· >>= _) (rreil_ok (by simp [pure, Except.pure, bind, Except.bind, positive]))
      refine ⟨.var out none 0 64, _, target, by simp, fun ρ => ?_⟩
      obtain ⟨middle, ran, sums⟩ := runs ρ
      cases sums with
      | named _ _ _ holds =>
        refine ⟨_, by rw [run_append, ran]; simp [fresh]; rfl, ?_⟩
        have absent : ¬(base = .none ∧ index = .none ∧ disp = 0) := fun none => noDisp none.2.2
        rw [if_neg absent, Nat.add_mod (held ρ base + held ρ index * scale), ← holds]
        simp

/-- The statements that read an operand end in a load from `target`, whatever the variables hold before. -/
def Loads (op : Operand) (target : Valuation → Nat) : Prop :=
  ∃ value compute dest width address writes,
    toRreil op = .returns (value, compute ++ [⟨dest, .load "RAM" .little width address⟩], writes) ∧
    ∀ ρ, Leads Statement.Steps compute ρ fun after => (address.denote after).map Bits.value = some (target ρ)

private theorem loads_iff {bits : Nat} {target : Valuation → Nat} (longBase : Long base) (longIndex : Long index)
    (width : size ≤ 64) (positive : size ≠ 0) (scaled : 0 < scale ∨ index = .none)
    (sized : bits ∈ [8, 16, 32, 64, 128, 256]) :
    Loads (.indirect seg base index scale (disp, size) bits) target ↔
      ¬(base = .none ∧ index = .none ∧ disp = 0) ∧
      ∀ ρ, target ρ = (held ρ base + held ρ index * scale + disp.toNat % 2 ^ size) % 2 ^ 64 := by
  obtain ⟨address, compute, code, nonzero, runs⟩ :=
    addressToRreil_run seg disp longBase longIndex width positive scaled
  have whole : bits ≠ 0 ∧ bits % 8 = 0 := by
    simp only [List.mem_cons, List.not_mem_nil, or_false] at sized
    omega
  let name := displayIndirect seg base index scale (disp, size) bits
  have lowered : toRreil (.indirect seg base index scale (disp, size) bits) = .returns (.var name none 0 bits,
      compute ++ [⟨.var name none bits, .load "RAM" .little bits address⟩],
      [⟨.undefined, .store "RAM" .little bits address (.var name none 0 bits)⟩]) := by
    rw [toRreil, code]
    simp only [Outcome.ofExcept, Outcome.returns_bind, if_pos sized]
    rw [rreil_ok (by simp [pure, Except.pure, bind, Except.bind, whole]; exact nonzero),
      rreil_ok (by simp [pure, Except.pure, bind, Except.bind, whole, Lvalue.toRvalue]; exact nonzero)]
    rfl
  constructor
  · intro holds
    obtain ⟨value, compute', dest, width, address', writes, same, loads⟩ := holds
    rw [lowered, Outcome.returns.injEq, Prod.mk.injEq, Prod.mk.injEq] at same
    obtain ⟨rfl, last⟩ := List.append_inj' same.2.1 rfl
    obtain ⟨_, _, rfl⟩ : _ = dest ∧ bits = width ∧ address = address' := by simpa using last
    have value : ∀ ρ, (if base = .none ∧ index = .none ∧ disp = 0 then none
        else some ((held ρ base + held ρ index * scale + disp.toNat % 2 ^ size) % 2 ^ 64)) = some (target ρ) := by
      intro ρ
      obtain ⟨after, ran, computed⟩ := runs ρ
      rw [← computed]
      exact (leads_iff ran).mp (loads ρ)
    constructor
    · intro absent
      have := value fun _ _ => 0
      rw [if_pos absent] at this
      cases this
    · intro ρ
      have := value ρ
      split at this
      · cases this
      · exact (Option.some.inj this).symm
  · intro holds
    obtain ⟨present, same⟩ := holds
    refine ⟨_, _, _, _, _, _, lowered, fun ρ => ?_⟩
    obtain ⟨after, ran, computed⟩ := runs ρ
    rw [leads_iff ran, computed, if_neg present, same]

end Lowering
section Reading

variable {c : Context} {input : List UInt8} {here : Cursor Tail} {e : Encoding} {p : Nat} {notes : Tail}

/-- The reader is in front of a memory operand, or has read its ModRM byte for another operand; `p` is behind
that byte. -/
structure At (c : Context) (input : List UInt8) (here : Cursor Tail) (e : Encoding) (p : Nat) : Prop where
  rex : e.rex = c.rex
  noSib : here.notes.sib = none
  modrm : here.notes.modrm = none ∧ input[here.position]? = some e.modrm ∧ p = here.position + 1 ∨
    here.notes.modrm = some (modrmFields e.rex e.modrm) ∧ p = here.position
  rest : e.rest = input.drop p
  present : p + e.extent ≤ input.length

theorem readUnsigned_returns {count : Nat} (inside : p + count ≤ input.length) :
    readUnsigned count input ⟨p, notes⟩ = .returns (littleEndian ((input.drop p).take count), ⟨p + count, notes⟩) := by
  simp only [readUnsigned, Reader.bind_apply, Reader.take, if_pos inside, Outcome.returns_bind]
  rfl

theorem readByte_returns {byte : UInt8} (found : input[p]? = some byte) :
    readUnsigned 1 input ⟨p, notes⟩ = .returns (byte.toUInt64, ⟨p + 1, notes⟩) := by
  obtain ⟨inside, same⟩ := List.getElem?_eq_some_iff.mp found
  have first : (input.drop p).take 1 = [byte] := by
    rw [List.drop_eq_getElem_cons inside, same]
    rfl
  rw [readUnsigned_returns inside, first]
  simp [littleEndian]

private theorem fetchModrm_returns (stands : At c input here e p) : Tail.fetchModrm c.rex input here =
    .returns (modrmFields e.rex e.modrm, ⟨p, ⟨some (modrmFields e.rex e.modrm), none⟩⟩) := by
  obtain ⟨position, ⟨noted, sib⟩⟩ := here
  obtain ⟨rex, noSib, ⟨noModrm, found, rfl⟩ | ⟨known, rfl⟩, _, _⟩ := stands
  · obtain rfl : sib = none := noSib
    obtain rfl : noted = none := noModrm
    simp [Tail.fetchModrm, readModrm, Reader.notes, Reader.note, readByte_returns found, rex]
  · obtain rfl : sib = none := noSib
    obtain rfl : noted = some _ := known
    simp [Tail.fetchModrm, Reader.notes]

theorem toNat_high (byte : UInt8) : (byte >>> 6).toNat = byte.toNat / 64 := by
  rw [UInt8.toNat_shiftRight, Nat.shiftRight_eq_div_pow]
  rfl

theorem toNat_low (byte : UInt8) : (byte &&& 0b111).toNat = byte.toNat % 8 := by
  rw [UInt8.toNat_and]
  exact Nat.and_two_pow_sub_one_eq_mod byte.toNat 3

theorem toNat_middle (byte : UInt8) : ((byte >>> 3) &&& 0b111).toNat = byte.toNat / 8 % 8 := by
  rw [toNat_low, UInt8.toNat_shiftRight, Nat.shiftRight_eq_div_pow]
  rfl

/-- A field of three bits with the bit of the prefix in front, and the register of this number. -/
theorem extended_field {bits : UInt8} (short : bits.toNat < 8) (b present : Bool) :
    let extended := if b then bits ||| 0b1000 else bits
    (extended &&& 0b111).toNat = bits.toNat ∧
      readRegister extended present 64 = .ok (.register (Encoding.register bits.toNat b)) := by
  have table : ∀ field < 8, let bits := UInt8.ofNat field
      ∀ b present, let extended := if b then bits ||| 0b1000 else bits
      (extended &&& 0b111).toNat = field ∧ readRegister extended present 64 = .ok (.register (Encoding.register field b)) := by
    decide
  simpa using table bits.toNat short b present

theorem modrmFields_eq_extended (rex : Option Rex) (modrm : UInt8) :
    let b := (rex.map Rex.b).getD false
    let sibPresent := modrm >>> 6 ≠ 0b11 ∧ modrm &&& 0b111 = 0b100
    (modrmFields rex modrm).mod = modrm >>> 6 ∧
      (modrmFields rex modrm).rm = if b ∧ ¬sibPresent then (modrm &&& 0b111) ||| 0b1000 else modrm &&& 0b111 := by
  cases rex with
  | none => simp [modrmFields]
  | some rex => simp [modrmFields]

private theorem modrmFields_eq (e : Encoding) :
    (modrmFields e.rex e.modrm).mod.toNat = e.mod ∧ ((modrmFields e.rex e.modrm).rm &&& 0b111).toNat = e.rm ∧
      (¬e.hasSib → readRegister (modrmFields e.rex e.modrm).rm e.rex.isSome 64 =
        .ok (.register (Encoding.register e.rm e.b))) := by
  obtain ⟨mod, rm⟩ := modrmFields_eq_extended e.rex e.modrm
  have low : (e.modrm &&& 0b111).toNat = e.rm := toNat_low e.modrm
  have high : (e.modrm >>> 6).toNat = e.mod := toNat_high e.modrm
  have short : (e.modrm &&& 0b111).toNat < 8 := low ▸ Nat.mod_lt _ (by decide)
  have sib : (e.modrm >>> 6 ≠ 0b11 ∧ e.modrm &&& 0b111 = 0b100) ↔ e.hasSib := by
    rw [Encoding.hasSib, decide_eq_true_eq, ← high, ← low, ne_eq, ← UInt8.toNat_inj, ← UInt8.toNat_inj]
    rfl
  refine ⟨by rw [mod, high], ?_, fun noSib => ?_⟩
  · rw [rm]
    split
    next => rw [← low]; exact (extended_field short true false).1
    next => rw [← low]; exact (extended_field short false false).1
  · rw [rm, ← low]
    simp only [sib, noSib, Bool.false_eq_true, not_false_eq_true, and_true]
    exact (extended_field short _ _).2

theorem sibFields_eq (sib : UInt8) (b present : Bool) :
    (sib >>> 6).toNat = sib.toNat / 64 ∧
    (∀ bits ∈ [(sib &&& 0b111, sib.toNat % 8), ((sib >>> 3) &&& 0b111, sib.toNat / 8 % 8)],
      let extended := if b then bits.1 ||| 0b1000 else bits.1
      (extended &&& 0b111).toNat = bits.2 ∧
      readRegister extended present 64 = .ok (.register (Encoding.register bits.2 b))) := by
  refine ⟨toNat_high sib, ?_⟩
  simp only [List.forall_mem_cons, List.not_mem_nil, false_implies, implies_true, and_true]
  refine ⟨?_, ?_⟩
  · rw [← toNat_low]
    exact extended_field (toNat_low sib ▸ Nat.mod_lt _ (by decide)) b present
  · rw [← toNat_middle]
    exact extended_field (toNat_middle sib ▸ Nat.mod_lt _ (by decide)) b present

private theorem signExtU8_eq (byte : UInt8) : signExtU8 byte 64 = word 64 (twos 8 byte.toNat) := by
  have value : byte.toInt8.toInt64.toInt = twos 8 byte.toNat := by
    rw [Int8.toInt_toInt64, ← Int8.toInt_toBitVec, UInt8.toBitVec_toInt8, BitVec.toInt_eq_toNat_bmod,
      UInt8.toNat_toBitVec, twos]
  change byte.toInt8.toInt64.toUInt64 = _
  rw [eq_word (le_refl 64), ← value, ← toNat_toUInt64_emod, Int.emod_eq_of_lt (by omega)]
  exact_mod_cast UInt64.toNat_lt _

private theorem signExtU32_eq (v : UInt32) : signExtU32 v 64 = word 64 (twos 32 v.toNat) := by
  have value : v.toInt32.toInt64.toInt = twos 32 v.toNat := by
    rw [Int32.toInt_toInt64, ← Int32.toInt_toBitVec, UInt32.toBitVec_toInt32, BitVec.toInt_eq_toNat_bmod,
      UInt32.toNat_toBitVec, twos]
  change v.toInt32.toInt64.toUInt64 = _
  rw [eq_word (le_refl 64), ← value, ← toNat_toUInt64_emod, Int.emod_eq_of_lt (by omega)]
  exact_mod_cast UInt64.toNat_lt _

private theorem toNat_littleEndian {bytes : List UInt8} (short : bytes.length ≤ 8) :
    (littleEndian bytes).toNat = Nat.ofDigits 256 (bytes.map UInt8.toNat) ∧
      (littleEndian bytes).toNat < 256 ^ bytes.length := by
  have congruent : (littleEndian bytes).toNat = Nat.ofDigits 256 (bytes.map UInt8.toNat) % 2 ^ 64 := by
    induction bytes with
    | nil => rfl
    | cons byte bytes ih =>
      have ih := ih (by simp at short; omega)
      have step : littleEndian (byte :: bytes) = byte.toUInt64 + 256 * littleEndian bytes := rfl
      rw [step, UInt64.toNat_add, UInt64.toNat_mul, ih, List.map_cons, Nat.ofDigits_cons, UInt8.toNat_toUInt64]
      simp [Nat.add_mod, Nat.mul_mod]
  have below : ∀ digit ∈ bytes.map UInt8.toNat, digit < 256 := by
    intro digit member
    obtain ⟨byte, _, rfl⟩ := List.mem_map.mp member
    exact byte.toNat_lt
  have bound := Nat.ofDigits_lt_base_pow_length (by decide) below
  rw [List.length_map] at bound
  have word : 256 ^ bytes.length ≤ 2 ^ 64 := (Nat.pow_le_pow_right (by decide) short).trans (by decide)
  rw [congruent, Nat.mod_eq_of_lt (bound.trans_le word)]
  exact ⟨rfl, bound⟩

theorem disp_eq (stands : At c input here e p) (long : e.dispLength ≤ 8) :
    p + e.sibLength + e.dispLength ≤ input.length ∧
      let v := littleEndian ((input.drop (p + e.sibLength)).take e.dispLength)
      e.disp = twos (8 * e.dispLength) v.toNat ∧ v.toNat < 2 ^ (8 * e.dispLength) := by
  have inside : p + e.sibLength + e.dispLength ≤ input.length := by
    have present := stands.present
    rwa [Encoding.extent, ← add_assoc] at present
  have length : ((input.drop (p + e.sibLength)).take e.dispLength).length = e.dispLength := by
    rw [List.length_take, List.length_drop]
    omega
  obtain ⟨value, below⟩ := toNat_littleEndian (length.trans_le long)
  rw [length] at below
  refine ⟨inside, ?_, by rwa [pow_mul]⟩
  rw [Encoding.disp, stands.rest, List.drop_drop, value]

theorem disp8_returns (notes : Tail) (stands : At c input here e p) (length : e.dispLength = 1) :
    Context.disp8 64 input ⟨p + e.sibLength, notes⟩ = .returns (word 64 e.disp, ⟨p + e.extent, notes⟩) := by
  obtain ⟨inside, value, below⟩ := disp_eq stands (by omega)
  rw [Encoding.extent]
  rw [length] at inside value below ⊢
  simp only [Context.disp8, Reader.bind_apply, readUnsigned_returns inside, Outcome.returns_bind, signExtU8_eq]
  rw [UInt64.toNat_toUInt8, Nat.mod_eq_of_lt (show _ < 2 ^ 8 from below), value]
  rfl

theorem readDisp32_returns (notes : Tail) (stands : At c input here e p) (length : e.dispLength = 4) :
    ∃ v, readUnsigned 4 input ⟨p + e.sibLength, notes⟩ = .returns (v, ⟨p + e.extent, notes⟩) ∧
      signExtU32 v.toUInt32 64 = word 64 e.disp := by
  obtain ⟨inside, value, below⟩ := disp_eq stands (by omega)
  rw [Encoding.extent]
  rw [length] at inside value below ⊢
  refine ⟨_, by rw [readUnsigned_returns inside, add_assoc], ?_⟩
  rw [signExtU32_eq, UInt64.toNat_toUInt32, Nat.mod_eq_of_lt (show _ < 2 ^ 32 from below), value]

theorem disp32_returns (notes : Tail) (stands : At c input here e p) (length : e.dispLength = 4) :
    Context.disp32 64 input ⟨p + e.sibLength, notes⟩ = .returns (word 64 e.disp, ⟨p + e.extent, notes⟩) := by
  obtain ⟨v, read, value⟩ := readDisp32_returns notes stands length
  simp [Context.disp32, read, value]

/-- The base register that is read: R13 is taken for RBP behind a SIB byte. -/
def codedBase (e : Encoding) : Register :=
  if e.relative then .none
  else if e.hasSib then if e.base = 5 then if e.mod = 0 then .none else .RBP else Encoding.register e.base e.b
  else Encoding.register e.rm e.b

/-- The index register that is read: R12 is taken for none. -/
def codedIndex (e : Encoding) : Register := if e.hasSib ∧ e.index ≠ 4 then Encoding.register e.index e.x else .none

private theorem byte_at (stands : At c input here e p) (sib : e.hasSib) : input[p]? = some (e.rest.headD 0) := by
  have present := stands.present
  have length : e.sibLength = 1 := if_pos sib
  rw [Encoding.extent, length] at present
  have inside : p < input.length := by omega
  rw [stands.rest, List.drop_eq_getElem_cons inside, List.headD_cons, List.getElem?_eq_getElem inside]

theorem mod_cases (e : Encoding) : e.mod = 0 ∨ e.mod = 1 ∨ e.mod = 2 ∨ e.mod = 3 := by
  have below := e.modrm.toNat_lt
  rw [Encoding.mod]
  omega

private theorem sibBase_returns (notes : Tail) (stands : At c input here e p) (sib : e.hasSib) {mod base : UInt8} {present : Bool}
    (modEq : mod.toNat = e.mod) (baseEq : (base &&& 0b111).toNat = e.base)
    (reg : readRegister base present 64 = .ok (.register (Encoding.register e.base e.b))) :
    sibBase mod base present 64 input ⟨p + 1, notes⟩ = .returns
      ((codedBase e, if e.baseless then (word 64 e.disp, 32) else (0, 64)),
        ⟨if e.baseless then p + e.extent else p + 1, notes⟩) := by
  have memory : e.mod ≠ 3 ∧ e.rm = 4 := by simpa [Encoding.hasSib] using sib
  have notRelative : e.relative = false := by simp [Encoding.relative, memory.2]
  have outside : mod ≠ 0b11 := by
    intro same
    rw [same] at modEq
    exact memory.1 modEq.symm
  unfold sibBase
  by_cases five : e.base = 5
  · rw [if_pos ⟨outside, UInt8.toNat_inj.mp (baseEq.trans five)⟩]
    obtain zero | one | two | three := mod_cases e
    · have baseless : e.baseless = true := by simp [Encoding.baseless, sib, zero, five]
      obtain ⟨v, read, value⟩ := readDisp32_returns notes stands (by simp [Encoding.dispLength, zero, baseless])
      rw [show e.sibLength = 1 from if_pos sib] at read
      obtain rfl : mod = 0 := UInt8.toNat_inj.mp (modEq.trans zero)
      simp [codedBase, notRelative, sib, five, zero, baseless, read, value]
    · obtain rfl : mod = 1 := UInt8.toNat_inj.mp (modEq.trans one)
      simp [codedBase, notRelative, sib, five, one, Encoding.baseless]
    · obtain rfl : mod = 2 := UInt8.toNat_inj.mp (modEq.trans two)
      simp [codedBase, notRelative, sib, five, two, Encoding.baseless]
    · exact absurd three memory.1
  · have notFive : base &&& 0b111 ≠ 0b101 := by
      intro same
      rw [same] at baseEq
      exact five baseEq.symm
    rw [if_neg fun both => notFive both.2, reg]
    simp [codedBase, notRelative, sib, five, Encoding.baseless]

private theorem sibIndex_eq (sib : e.hasSib) {index : UInt8} {present : Bool} (indexEq : (index &&& 0b111).toNat = e.index)
    (reg : readRegister index present 64 = .ok (.register (Encoding.register e.index e.x))) :
    sibIndex index present 64 = .ok (codedIndex e) := by
  unfold sibIndex
  by_cases four : e.index = 4
  · rw [if_pos (UInt8.toNat_inj.mp (indexEq.trans four) : index &&& 0b111 = 0b100)]
    simp [codedIndex, four]
  · have notFour : index &&& 0b111 ≠ 0b100 := by
      intro same
      rw [same] at indexEq
      exact four indexEq.symm
    rw [if_neg notFour, reg]
    simp [codedIndex, sib, four]

private theorem readSib_returns (stands : At c input here e p) (sib : e.hasSib) (seg : SegmentOverride) {mod : UInt8}
    (modEq : mod.toNat = e.mod) : readSib mod seg e.rex 64 input ⟨p, notes⟩ = .returns
      (.address seg (codedBase e) (codedIndex e) (2 ^ e.scale) (if e.baseless then (word 64 e.disp, 32) else (0, 64)),
        ⟨if e.baseless then p + e.extent else p + 1, notes⟩) := by
  have outside : mod ≠ 0b11 := by
    intro same
    rw [same] at modEq
    have memory : e.mod ≠ 3 ∧ e.rm = 4 := by simpa [Encoding.hasSib] using sib
    exact memory.1 modEq.symm
  generalize byte : e.rest.headD 0 = sibByte
  have sibEq : e.sib = sibByte.toNat := by rw [Encoding.sib, byte]
  obtain ⟨scale, fieldsB⟩ := sibFields_eq sibByte e.b e.rex.isSome
  obtain ⟨_, fieldsX⟩ := sibFields_eq sibByte e.x e.rex.isSome
  obtain ⟨baseEq, baseReg⟩ := fieldsB _ (List.mem_cons_self ..)
  obtain ⟨indexEq, indexReg⟩ := fieldsX _ (List.mem_cons_of_mem _ (List.mem_cons_self ..))
  rw [← sibEq] at scale baseEq baseReg indexEq indexReg
  have base := sibBase_returns notes stands sib modEq baseEq baseReg
  have index := sibIndex_eq sib indexEq indexReg
  unfold readSib
  simp only [Reader.bind_apply, readByte_returns (byte_at stands sib), byte, Outcome.returns_bind]
  have whole : sibByte.toUInt64.toUInt8 = sibByte := by simp
  have outside' : ∀ q : Prop, (mod ≠ 3 ∧ q) = q := fun q => by simp [outside]
  simp only [whole, outside']
  rw [show (Option.map Rex.b e.rex).getD false = e.b from rfl, show (Option.map Rex.x e.rex).getD false = e.x from rfl]
  dsimp only at base index
  rw [base]
  simp [index, Reader.ofExcept, scale, Encoding.scale]

/-- The displacement that is read, with the size it gets. -/
def codedDisp (e : Encoding) (addr : UInt64) (p : Nat) : UInt64 × Nat :=
  if e.relative then (addr + (p + 4).toUInt64 + word 64 e.disp, 32)
  else if e.baseless ∨ e.hasSib ∧ e.mod = 2 then (word 64 e.disp, 32)
  else (word 64 e.disp, 64)

/-- What is read is a register or an address. -/
def Plain (e : Encoding) : Prop := e.mod = 3 ∨ e.mod = 0 ∧ e.rm ≠ 4 ∧ e.rm ≠ 5

inductive Coded (c : Context) (e : Encoding) (p : Nat) : Operand → Prop where
  | register (plain : Plain e) (reg : Register) : Coded c e p (.register reg)
  | memory (memory : ¬Plain e) : Coded c e p (.address c.seg (codedBase e) (codedIndex e)
      (if e.hasSib then 2 ^ e.scale else 0) (codedDisp e c.addr p))

def isRegister : Except String Operand → Bool
  | .ok (.register _) => true
  | _ => false

private theorem register_of_width (modrm : UInt8) (rex : Option Rex) {size : Nat} (sized : size ∈ [8, 16, 32, 64]) :
    ∃ reg, readRegister (modrmFields rex modrm).rm rex.isSome size = .ok (.register reg) := by
  have table : ∀ field < 8, let bits := UInt8.ofNat field
      ∀ present : Bool, ∀ size ∈ [8, 16, 32, 64], isRegister (readRegister (bits ||| 0b1000) present size) = true ∧
        isRegister (readRegister bits present size) = true := by
    decide
  have short : (modrm &&& 0b111).toNat < 8 := toNat_low modrm ▸ Nat.mod_lt _ (by decide)
  have known := table (modrm &&& 0b111).toNat short rex.isSome size sized
  rw [UInt8.ofNat_toNat] at known
  have register : ∀ r, isRegister r = true → ∃ reg, r = .ok (.register reg) := by
    intro r holds
    unfold isRegister at holds
    split at holds
    next reg => exact ⟨reg, rfl⟩
    next => cases holds
  rw [(modrmFields_eq_extended rex modrm).2]
  split
  next => exact register _ known.1
  next => exact register _ known.2

theorem disp_zero (none : e.dispLength = 0) : e.disp = 0 := by
  rw [Encoding.disp, none, List.take_zero]
  rfl

theorem fetchSib_returns (stands : At c input here e p) (sib : e.hasSib) (seg : SegmentOverride) {mod : UInt8}
    (modEq : mod.toNat = e.mod) (modrm : ModRM) : ∃ notes, Tail.fetchSib mod seg e.rex 64 input ⟨p, ⟨some modrm, none⟩⟩ = .returns
      (.address seg (codedBase e) (codedIndex e) (2 ^ e.scale) (if e.baseless then (word 64 e.disp, 32) else (0, 64)),
        ⟨if e.baseless then p + e.extent else p + 1, notes⟩) := by
  refine ⟨⟨some modrm, some (.address seg (codedBase e) (codedIndex e) (2 ^ e.scale)
    (if e.baseless then (word 64 e.disp, 32) else (0, 64)))⟩, ?_⟩
  simp only [Tail.fetchSib, Reader.notes, Reader.bind_apply, Outcome.returns_bind, readSib_returns stands sib seg modEq]
  rfl

private theorem readEffectiveAddress_branches (c : Context) (size : Nat) : ∃ rest : ModRM → TailReader Operand,
    c.readEffectiveAddress size = Tail.fetchModrm c.rex >>= rest ∧ ∀ f : ModRM,
      (f.mod = 0 → f.rm &&& 7 = 4 → rest f = Tail.fetchSib f.mod c.seg c.rex c.addrsz) ∧
      (f.mod = 0 → f.rm &&& 7 = 5 → rest f = do
        let imm ← Context.disp32 c.addrsz
        let len ← Reader.position
        return .address c.seg .none .none 0 (if c.mode = .longMode then c.addr + len.toUInt64 + imm else imm, 32)) ∧
      (f.mod = 0 → f.rm &&& 7 ≠ 4 → f.rm &&& 7 ≠ 5 →
        rest f = Reader.ofExcept (readRegister f.rm c.rex.isSome c.addrsz)) ∧
      (f.mod = 1 → f.rm &&& 7 = 4 → rest f = do
        match ← Reader.mapError "Failed to decode SIB byte" (Tail.fetchSib f.mod c.seg c.rex c.addrsz) with
        | .address seg base index scale _ => return .address seg base index scale (← Context.disp8 c.addrsz, c.addrsz)
        | _ => Reader.fail "Failed to decode SIB byte: No Address") ∧
      (f.mod = 1 → f.rm &&& 7 ≠ 4 →
        rest f = c.displaced f.rm "Failed to decode r/m byte" (Context.disp8 c.addrsz)) ∧
      (f.mod = 2 → f.rm &&& 7 = 4 → rest f =
        c.scaledBy f.mod "Internal error: read_sib did not return indirect operand" (Context.disp32 c.addrsz) 32) ∧
      (f.mod = 2 → f.rm &&& 7 ≠ 4 →
        rest f = c.displaced f.rm "Failed to decode SIB byte" (Context.disp32 c.addrsz)) ∧
      (f.mod = 3 → rest f = Reader.ofExcept (readRegister f.rm c.rex.isSome size)) := by
  refine ⟨_, rfl, fun f => ?_⟩
  generalize f.mod = mod
  generalize f.rm &&& 7 = field
  refine ⟨?_, ?_, ?_, ?_, ?_, ?_, ?_, ?_⟩
  · rintro rfl rfl
    rfl
  · rintro rfl rfl
    rfl
  · rintro rfl notFour notFive
    obtain ⟨⟨⟨n, _⟩⟩⟩ := field
    rcases n with - | - | - | - | - | - | n
    · rfl
    · rfl
    · rfl
    · rfl
    · exact absurd rfl notFour
    · exact absurd rfl notFive
    · rfl
  · rintro rfl rfl
    rfl
  · rintro rfl notFour
    obtain ⟨⟨⟨n, _⟩⟩⟩ := field
    rcases n with - | - | - | - | - | n
    · rfl
    · rfl
    · rfl
    · rfl
    · exact absurd rfl notFour
    · rfl
  · rintro rfl rfl
    rfl
  · rintro rfl notFour
    obtain ⟨⟨⟨n, _⟩⟩⟩ := field
    rcases n with - | - | - | - | - | n
    · rfl
    · rfl
    · rfl
    · rfl
    · exact absurd rfl notFour
    · rfl
  · rintro rfl
    rfl

theorem displaced_returns {rm : UInt8} {failure : String} {disp : TailReader UInt64} {reg : Register} {v : UInt64}
    {next : Cursor Tail} (known : readRegister rm c.rex.isSome 64 = .ok (.register reg)) (wide : c.addrsz = 64)
    (read : disp input here = .returns (v, next)) :
    c.displaced rm failure disp input here = .returns (.address c.seg reg .none 0 (v, 64), next) := by
  rw [Context.displaced, wide, known]
  simp [read]

private theorem readEffectiveAddress_coded (stands : At c input here e p) (long : c.mode = .longMode) (wide : c.addrsz = 64)
    {size : Nat} (sized : size ∈ [8, 16, 32, 64]) :
    ∃ op next, c.readEffectiveAddress size input here = .returns (op, next) ∧ Coded c e p op := by
  obtain ⟨rest, split, branches⟩ := readEffectiveAddress_branches c size
  obtain ⟨modEq, rmEq, reg⟩ := modrmFields_eq e
  have fetched := fetchModrm_returns stands
  obtain ⟨someReg, picked⟩ := register_of_width e.modrm e.rex sized
  generalize modrmFields e.rex e.modrm = f at *
  obtain ⟨b04, b05, b0, b14, b1, b24, b2, b3⟩ := branches f
  rw [split]
  simp only [Reader.bind_apply, fetched, Outcome.returns_bind]
  rw [wide, ← stands.rex] at b04 b0 b14
  rw [wide] at b05 b1 b24 b2
  rw [← stands.rex] at b3
  have notFour (other : e.rm ≠ 4) : f.rm &&& 0b111 ≠ 4 := fun same => other (by rw [← rmEq, same]; rfl)
  have notFive (other : e.rm ≠ 5) : f.rm &&& 0b111 ≠ 5 := fun same => other (by rw [← rmEq, same]; rfl)
  have isFour (four : e.rm = 4) : f.rm &&& 0b111 = 4 := UInt8.toNat_inj.mp (rmEq.trans four)
  have noSib (other : e.rm ≠ 4) : ¬e.hasSib := by simp [Encoding.hasSib, other]
  have behind (other : e.rm ≠ 4) : e.sibLength = 0 := if_neg (noSib other)
  have base (other : e.rm ≠ 4) (based : e.mod ≠ 0) : codedBase e = Encoding.register e.rm e.b := by
    simp [codedBase, noSib other, Encoding.relative, based]
  have index (other : e.rm ≠ 4) : codedIndex e = .none := by simp [codedIndex, noSib other]
  obtain zero | one | two | three := mod_cases e
  · have mod : f.mod = 0 := UInt8.toNat_inj.mp (modEq.trans zero)
    by_cases four : e.rm = 4
    · have sib : e.hasSib := by simp [Encoding.hasSib, zero, four]
      obtain ⟨notes, read⟩ := fetchSib_returns stands sib c.seg modEq f
      have disp : (if e.baseless then (word 64 e.disp, 32) else (0, 64)) = codedDisp e c.addr p := by
        by_cases baseless : e.baseless
        · simp [codedDisp, Encoding.relative, four, baseless]
        · have none : e.disp = 0 := disp_zero (by simp [Encoding.dispLength, zero, Encoding.relative, four, baseless])
          simp [codedDisp, Encoding.relative, four, baseless, zero, none, word]
      rw [b04 mod (isFour four)]
      refine ⟨_, _, read, ?_⟩
      have coded := Coded.memory (c := c) (p := p) (show ¬Plain e by simp [Plain, zero, four])
      rwa [if_pos sib, ← disp] at coded
    · by_cases five : e.rm = 5
      · have relative : e.relative := by simp [Encoding.relative, zero, five]
        have length : e.dispLength = 4 := by simp [Encoding.dispLength, zero, relative]
        have read := disp32_returns ⟨some f, none⟩ stands length
        rw [behind four, add_zero, Encoding.extent, behind four, zero_add, length] at read
        rw [b05 mod (UInt8.toNat_inj.mp (rmEq.trans five))]
        simp only [Reader.bind_apply, read, Outcome.returns_bind, Reader.position, if_pos long]
        refine ⟨_, _, rfl, ?_⟩
        have coded := Coded.memory (c := c) (p := p) (show ¬Plain e by simp [Plain, zero, five])
        rwa [if_neg (noSib four), index four, codedDisp, if_pos relative, codedBase, if_pos relative] at coded
      · rw [b0 mod (notFour four) (notFive five), reg (noSib four)]
        exact ⟨_, _, rfl, .register (.inr ⟨zero, four, five⟩) _⟩
  · have mod : f.mod = 1 := UInt8.toNat_inj.mp (modEq.trans one)
    have length : e.dispLength = 1 := by simp [Encoding.dispLength, one]
    have baseless : e.baseless = false := by simp [Encoding.baseless, one]
    have disp : codedDisp e c.addr p = (word 64 e.disp, 64) := by simp [codedDisp, Encoding.relative, baseless, one]
    have coded := Coded.memory (c := c) (p := p) (show ¬Plain e by simp [Plain, one])
    by_cases four : e.rm = 4
    · have sib : e.hasSib := by simp [Encoding.hasSib, one, four]
      obtain ⟨notes, read⟩ := fetchSib_returns stands sib c.seg modEq f
      have after := disp8_returns notes stands length
      rw [show e.sibLength = 1 from if_pos sib] at after
      rw [baseless] at read
      simp only [Bool.false_eq_true, if_false] at read
      rw [b14 mod (isFour four)]
      simp only [Reader.bind_apply, Reader.mapError, read, Outcome.returns_bind, after]
      refine ⟨_, _, rfl, ?_⟩
      rwa [if_pos sib, disp] at coded
    · have read := disp8_returns ⟨some f, none⟩ stands length
      rw [behind four, add_zero] at read
      rw [stands.rex] at reg
      rw [b1 mod (notFour four), displaced_returns (reg (noSib four)) wide read]
      rw [if_neg (noSib four), disp, index four, base four (by simp [one])] at coded
      exact ⟨_, _, rfl, coded⟩
  · have mod : f.mod = 2 := UInt8.toNat_inj.mp (modEq.trans two)
    have length : e.dispLength = 4 := by simp [Encoding.dispLength, two]
    have baseless : e.baseless = false := by simp [Encoding.baseless, two]
    have coded := Coded.memory (c := c) (p := p) (show ¬Plain e by simp [Plain, two])
    by_cases four : e.rm = 4
    · have sib : e.hasSib := by simp [Encoding.hasSib, two, four]
      have disp : codedDisp e c.addr p = (word 64 e.disp, 32) := by simp [codedDisp, Encoding.relative, sib, two]
      obtain ⟨notes, read⟩ := fetchSib_returns stands sib c.seg modEq f
      have after := disp32_returns notes stands length
      rw [show e.sibLength = 1 from if_pos sib] at after
      rw [baseless, stands.rex] at read
      simp only [Bool.false_eq_true, if_false] at read
      rw [b24 mod (isFour four), Context.scaledBy, wide]
      simp only [Reader.bind_apply, read, Outcome.returns_bind, after]
      refine ⟨_, _, rfl, ?_⟩
      rwa [if_pos sib, disp] at coded
    · have disp : codedDisp e c.addr p = (word 64 e.disp, 64) := by
        simp [codedDisp, Encoding.relative, baseless, noSib four, two]
      have read := disp32_returns ⟨some f, none⟩ stands length
      rw [behind four, add_zero] at read
      rw [stands.rex] at reg
      rw [b2 mod (notFour four), displaced_returns (reg (noSib four)) wide read]
      rw [if_neg (noSib four), disp, index four, base four (by simp [two])] at coded
      exact ⟨_, _, rfl, coded⟩
  · have mod : f.mod = 3 := UInt8.toNat_inj.mp (modEq.trans three)
    rw [b3 mod, picked]
    exact ⟨_, _, rfl, .register (.inl three) _⟩

end Reading

section Comparison

variable {e : Encoding} {addr : UInt64} {p stop : Nat}

/-- The code and the encoding agree on the address, when the instruction ends at `stop` behind `addr`. -/
def Faithful (e : Encoding) (addr : UInt64) (p stop : Nat) : Prop :=
  if e.mod = 3 then True
  else if e.relative then
    stop = p + 4 ∧ 0 < (addr.toNat + stop + e.disp) % 2 ^ 64 ∧ (addr.toNat + stop + e.disp) % 2 ^ 64 < 2 ^ 32
  else if e.hasSib then
    ¬(e.index = 4 ∧ e.x) ∧ ¬(e.base = 5 ∧ e.b ∧ e.mod ≠ 0) ∧ ¬(e.dispLength = 4 ∧ e.disp < 0) ∧
      ¬(e.baseless ∧ e.index = 4 ∧ e.disp = 0)
  else e.mod ≠ 0

/-- The address that is computed is there, and is the encoded one. -/
def Agrees (e : Encoding) (addr : UInt64) (p stop : Nat) : Prop :=
  ¬(codedBase e = .none ∧ codedIndex e = .none ∧ (codedDisp e addr p).1 = 0) ∧
    ∀ ρ, e.address (addr + stop.toUInt64) ρ =
      (held ρ (codedBase e) + held ρ (codedIndex e) * (if e.hasSib then 2 ^ e.scale else 0) +
        (codedDisp e addr p).1.toNat % 2 ^ (codedDisp e addr p).2) % 2 ^ 64

theorem disp_bounds (e : Encoding) : -2 ^ 31 ≤ e.disp ∧ e.disp < 2 ^ 31 := by
  by_cases none : e.dispLength = 0
  · simp [disp_zero none]
  · have length : e.dispLength = 1 ∨ e.dispLength = 4 := by
      unfold Encoding.dispLength at none ⊢
      split_ifs at none ⊢ <;> simp_all
    rcases length with one | four
    · have bounds := twos_bounds (s := 8 * e.dispLength) (by omega)
        (Nat.ofDigits 256 (((e.rest.drop e.sibLength).take e.dispLength).map UInt8.toNat))
      rw [← Encoding.disp, one] at bounds
      omega
    · have bounds := twos_bounds (s := 8 * e.dispLength) (by omega)
        (Nat.ofDigits 256 (((e.rest.drop e.sibLength).take e.dispLength).map UInt8.toNat))
      rw [← Encoding.disp, four] at bounds
      omega

theorem toNat_word_disp (e : Encoding) : ((word 64 e.disp).toNat : Int) = e.disp % 2 ^ 64 := toNat_word (le_refl 64) _

private theorem agrees_relative (relative : e.relative) (behind : p + 4 ≤ stop) (short : stop ≤ 15) :
    Agrees e addr p stop ↔ Faithful e addr p stop := by
  have fields : e.mod = 0 ∧ e.rm = 5 := by simpa [Encoding.relative] using relative
  have noSib : e.hasSib = false := by simp [Encoding.hasSib, fields.2]
  have value := toNat_word_disp e
  have faithful : Faithful e addr p stop ↔ stop = p + 4 ∧ 0 < (addr.toNat + stop + e.disp) % 2 ^ 64 ∧
      (addr.toNat + stop + e.disp) % 2 ^ 64 < 2 ^ 32 := by
    rw [Faithful, if_neg (by rw [fields.1]; decide), if_pos relative]
  have next : ∀ n ≤ 15, (addr + n.toUInt64).toNat = (addr.toNat + n) % 2 ^ 64 := by
    intro n small
    rw [UInt64.toNat_add, toNat_toUInt64 (by omega)]
  have coded : (addr + (p + 4).toUInt64 + word 64 e.disp).toNat =
      (((addr.toNat + (p + 4) + e.disp) % 2 ^ 64 : Int)).toNat := by
    rw [UInt64.toNat_add, next _ (by omega)]
    omega
  have zero : addr + (p + 4).toUInt64 + word 64 e.disp = 0 ↔
      (addr + (p + 4).toUInt64 + word 64 e.disp).toNat = 0 := by
    rw [← UInt64.toNat_inj]
    rfl
  rw [faithful, Agrees]
  simp only [codedBase, codedIndex, codedDisp, Encoding.address, Encoding.baseRegister, Encoding.indexRegister, relative, noSib,
    Bool.false_eq_true, if_true, if_false, held, true_or, false_and, true_and, zero, next stop short, coded]
  simp only [Nat.cast_zero, zero_mul, zero_add, forall_const]
  push_cast
  generalize e.disp = disp
  omega

theorem register_ne_none : ∀ field < 8, ∀ b : Bool, Encoding.register field b ≠ .none := by decide

private theorem agrees_based (near : e.mod ≠ 0) (noSib : e.hasSib = false) : Agrees e addr p stop := by
  have relative : e.relative = false := by simp [Encoding.relative, near]
  have baseless : e.baseless = false := by simp [Encoding.baseless, noSib]
  have value := toNat_word_disp e
  have present := register_ne_none e.rm (Nat.mod_lt _ (by decide)) e.b
  rw [Agrees]
  simp only [codedBase, codedIndex, codedDisp, Encoding.address, Encoding.baseRegister, Encoding.indexRegister, relative,
    noSib, baseless, Bool.false_eq_true, if_false, false_and, or_self, present]
  refine ⟨fun none => none, fun ρ => ?_⟩
  simp only [held, if_true, Nat.cast_zero, zero_mul, mul_zero, add_zero]
  omega

def unit (name : String) : Valuation := fun n _ => if n = name then 1 else 0

private theorem codedDisp_sib (sib : e.hasSib = true) :
    codedDisp e addr p = (word 64 e.disp, if e.dispLength = 4 then 32 else 64) := by
  have fields : e.mod ≠ 3 ∧ e.rm = 4 := by simpa [Encoding.hasSib] using sib
  have relative : e.relative = false := by simp [Encoding.relative, fields.2]
  obtain zero | one | two | three := mod_cases e
  · cases baseless : e.baseless <;> simp [codedDisp, Encoding.dispLength, relative, baseless, zero]
  · simp [codedDisp, Encoding.dispLength, relative, Encoding.baseless, one]
  · simp [codedDisp, Encoding.dispLength, relative, sib, two]
  · exact absurd three fields.1

private theorem codedBase_eq_none (sib : e.hasSib = true) : codedBase e = .none ↔ e.baseless = true := by
  have fields : e.mod ≠ 3 ∧ e.rm = 4 := by simpa [Encoding.hasSib] using sib
  have relative : e.relative = false := by simp [Encoding.relative, fields.2]
  have present := register_ne_none e.base (Nat.mod_lt _ (by decide)) e.b
  by_cases five : e.base = 5
  · by_cases zero : e.mod = 0 <;> simp [codedBase, relative, sib, five, zero, Encoding.baseless]
  · simp [codedBase, relative, sib, five, Encoding.baseless, present]

private theorem codedIndex_eq_none (sib : e.hasSib = true) : codedIndex e = .none ↔ e.index = 4 := by
  have present := register_ne_none e.index (Nat.mod_lt _ (by decide)) e.x
  by_cases four : e.index = 4 <;> simp [codedIndex, sib, four, present]

private theorem agrees_sib_iff (sib : e.hasSib = true) : Agrees e addr p stop ↔
    ¬(e.baseless ∧ e.index = 4 ∧ e.disp = 0) ∧ ∀ ρ,
      ((held ρ e.baseRegister + held ρ e.indexRegister * 2 ^ e.scale + e.disp : Int) % 2 ^ 64 =
        (held ρ (codedBase e) + held ρ (codedIndex e) * 2 ^ e.scale +
          if e.dispLength = 4 ∧ e.disp < 0 then e.disp + 2 ^ 32 else e.disp) % 2 ^ 64) := by
  have fields : e.mod ≠ 3 ∧ e.rm = 4 := by simpa [Encoding.hasSib] using sib
  have relative : e.relative = false := by simp [Encoding.relative, fields.2]
  have bounds := disp_bounds e
  have value := toNat_word_disp e
  have zero : word 64 e.disp = 0 ↔ e.disp = 0 := by
    rw [← UInt64.toNat_inj, UInt64.toNat_zero]
    omega
  rw [Agrees, codedDisp_sib sib, codedBase_eq_none sib, codedIndex_eq_none sib, if_pos sib]
  simp only [zero, Encoding.address, relative, Bool.false_eq_true, if_false]
  refine and_congr_right fun _ => forall_congr' fun ρ => ?_
  have castIndex : ∀ h : Nat, (h : Int) * 2 ^ e.scale = ((h * 2 ^ e.scale : Nat) : Int) := by
    intro h
    push_cast
    rfl
  rw [castIndex, castIndex]
  generalize held ρ e.baseRegister = b, held ρ e.indexRegister * 2 ^ e.scale = i, held ρ (codedBase e) = b',
    held ρ (codedIndex e) * 2 ^ e.scale = i'
  by_cases long : e.dispLength = 4
  · by_cases negative : e.disp < 0
    · simp only [long, negative, if_true, and_self]
      omega
    · simp only [long, negative, if_true, and_false, if_false]
      omega
  · simp only [long, if_false, false_and]
    omega

private theorem codedBase_cases (sib : e.hasSib = true) : codedBase e = e.baseRegister ∨
    (e.base = 5 ∧ e.b ∧ e.mod ≠ 0) ∧ e.baseRegister = .R13 ∧ codedBase e = .RBP := by
  have fields : e.mod ≠ 3 ∧ e.rm = 4 := by simpa [Encoding.hasSib] using sib
  have relative : e.relative = false := by simp [Encoding.relative, fields.2]
  by_cases five : e.base = 5
  · by_cases zero : e.mod = 0
    · simp [codedBase, Encoding.baseRegister, Encoding.baseless, relative, sib, five, zero]
    · cases b : e.b <;>
        simp [codedBase, Encoding.baseRegister, Encoding.baseless, relative, sib, five, zero, b, Encoding.register]
  · simp [codedBase, Encoding.baseRegister, Encoding.baseless, relative, sib, five]

private theorem codedIndex_cases (sib : e.hasSib = true) : codedIndex e = e.indexRegister ∨
    (e.index = 4 ∧ e.x) ∧ e.indexRegister = .R12 ∧ codedIndex e = .none := by
  by_cases four : e.index = 4
  · cases x : e.x <;> simp [codedIndex, Encoding.indexRegister, sib, four, x, Encoding.register]
  · simp [codedIndex, Encoding.indexRegister, sib, four]

private theorem agrees_sib (sib : e.hasSib = true) : Agrees e addr p stop ↔
    ¬(e.index = 4 ∧ e.x) ∧ ¬(e.base = 5 ∧ e.b ∧ e.mod ≠ 0) ∧ ¬(e.dispLength = 4 ∧ e.disp < 0) ∧
      ¬(e.baseless ∧ e.index = 4 ∧ e.disp = 0) := by
  have bounds := disp_bounds e
  have scale : e.scale < 4 := by
    have byte : e.sib < 256 := (e.rest.headD 0).toNat_lt
    rw [Encoding.scale]
    omega
  have base := codedBase_cases sib
  have index := codedIndex_cases sib
  rw [agrees_sib_iff sib]
  constructor
  · intro holds
    obtain ⟨present, same⟩ := holds
    -- without registers, only the displacements can differ
    have disps : ¬(e.dispLength = 4 ∧ e.disp < 0) := by
      intro wrong
      have zero := same fun _ _ => 0
      have nothing : ∀ reg, held (fun _ _ => 0) reg = 0 := by
        intro reg
        simp [held]
      simp only [nothing, if_pos wrong] at zero
      omega
    simp only [if_neg disps] at same
    have indexes : ¬(e.index = 4 ∧ e.x) := by
      intro wrong
      have encoded : e.indexRegister = .R12 := by simp [Encoding.indexRegister, sib, wrong, Encoding.register]
      have coded : codedIndex e = .none := by simp [codedIndex, wrong]
      have bases : held (unit "R12") (codedBase e) = held (unit "R12") e.baseRegister := by
        rcases base with same | ⟨_, other, rbp⟩
        · rw [same]
        · rw [other, rbp]
          decide
      have one := same (unit "R12")
      rw [encoded, coded, bases, show held (unit "R12") .R12 = 1 by decide, show held (unit "R12") .none = 0 by decide] at one
      generalize e.scale = k at *
      interval_cases k <;> omega
    refine ⟨indexes, fun wrong => ?_, disps, present⟩
    have encoded : e.baseRegister = .R13 := by
      simp [Encoding.baseRegister, Encoding.relative, Encoding.baseless, sib, wrong, Encoding.register]
    have coded : codedBase e = .RBP := by simp [codedBase, Encoding.relative, sib, wrong]
    have one := same (unit "R13")
    rw [encoded, coded, index.resolve_right fun wrong => indexes wrong.1, show held (unit "R13") .R13 = 1 by decide,
      show held (unit "R13") .RBP = 0 by decide] at one
    generalize (held (unit "R13") e.indexRegister : Int) * 2 ^ e.scale = i at one
    omega
  · intro holds
    obtain ⟨indexes, bases, disps, present⟩ := holds
    refine ⟨present, fun ρ => ?_⟩
    rw [base.resolve_right fun wrong => bases wrong.1, index.resolve_right fun wrong => indexes wrong.1, if_neg disps]

private theorem agrees_iff (memory : ¬Plain e) (behind : e.relative → p + 4 ≤ stop) (short : stop ≤ 15) :
    Agrees e addr p stop ↔ Faithful e addr p stop := by
  have far : e.mod ≠ 3 := fun three => memory (.inl three)
  cases relative : e.relative with
  | true => exact agrees_relative relative (behind relative) short
  | false =>
    rw [Faithful, if_neg far, if_neg (by simp [relative])]
    cases sib : e.hasSib with
    | true =>
      rw [if_pos rfl]
      exact agrees_sib sib
    | false =>
      have near : e.mod ≠ 0 := by
        intro zero
        refine memory (.inr ⟨zero, fun four => ?_, fun five => ?_⟩)
        · simp [Encoding.hasSib, zero, four] at sib
        · simp [Encoding.relative, zero, five] at relative
      rw [if_neg (by simp)]
      exact ⟨fun _ => near, fun _ => agrees_based near sib⟩

end Comparison

section Operands

variable {c : Context} {input : List UInt8} {here : Cursor Tail} {e : Encoding} {p stop : Nat}

/-- The types of operand an E operand can have. -/
def memoryTypes : List OperandType := [.v, .z, .y, .b, .w, .d, .dq]

private theorem form_effective {spec : OperandSpec} (method : spec.method = .E) (type : spec.type ∈ memoryTypes)
    (sized : c.opsz ∈ [16, 32, 64]) : ∃ size ∈ [8, 16, 32, 64], c.form spec = .effective size := by
  obtain ⟨method_, type_⟩ := spec
  obtain rfl : method_ = .E := method
  simp only [memoryTypes, List.mem_cons, List.not_mem_nil, or_false] at type sized
  rcases type with rfl | rfl | rfl | rfl | rfl | rfl | rfl <;> rcases sized with sized | sized | sized <;>
    simp [Context.form, sized]

/-- An operand is a register exactly when it is encoded as one, and loads from the encoded address otherwise. -/
def ReadsAddress (c : Context) (spec : OperandSpec) (input : List UInt8) (here : Cursor Tail) (e : Encoding)
    (next : UInt64) : Prop :=
  ∃ op after, c.readOperand spec input here = .returns (op, after) ∧ ((∃ reg, op = .register reg) ↔ e.mod = 3) ∧
    (e.mod ≠ 3 → (∃ seg base index scale disp width, op = .indirect seg base index scale disp width) ∧
      Loads op (e.address next))

theorem long_register : ∀ field < 8, ∀ b : Bool, (Encoding.register field b).width = 64 := by decide

private theorem long_codedBase (e : Encoding) : Long (codedBase e) := by
  unfold codedBase
  split_ifs
  · exact .inl rfl
  · exact .inl rfl
  · exact .inr rfl
  · exact .inr (long_register _ (Nat.mod_lt _ (by decide)) _)
  · exact .inr (long_register _ (Nat.mod_lt _ (by decide)) _)

private theorem long_codedIndex (e : Encoding) : Long (codedIndex e) := by
  unfold codedIndex
  split_ifs
  · exact .inr (long_register _ (Nat.mod_lt _ (by decide)) _)
  · exact .inl rfl

private theorem loads_iff_agrees {seg : SegmentOverride} {addr : UInt64} {bits : Nat} (sized : bits ∈ [8, 16, 32, 64]) :
    Loads (.indirect seg (codedBase e) (codedIndex e) (if e.hasSib then 2 ^ e.scale else 0) (codedDisp e addr p) bits)
      (e.address (addr + stop.toUInt64)) ↔ Agrees e addr p stop := by
  have size : (codedDisp e addr p).2 = 32 ∨ (codedDisp e addr p).2 = 64 := by
    unfold codedDisp
    split_ifs <;> simp
  have scaled : 0 < (if e.hasSib then 2 ^ e.scale else 0) ∨ codedIndex e = .none := by
    cases sib : e.hasSib with
    | true => exact .inl (by simp)
    | false => exact .inr (by simp [codedIndex, sib])
  have listed : bits ∈ [8, 16, 32, 64, 128, 256] := (by decide : [8, 16, 32, 64] ⊆ [8, 16, 32, 64, 128, 256]) sized
  rw [Agrees]
  generalize codedDisp e addr p = disp at size
  obtain ⟨disp, bits⟩ := disp
  exact loads_iff (long_codedBase e) (long_codedIndex e) (by dsimp only at size; omega) (by dsimp only at size; omega)
    scaled listed

theorem readsAddress_iff {spec : OperandSpec} (stands : At c input here e p) (long : c.mode = .longMode)
    (wide : c.addrsz = 64) (sized : c.opsz ∈ [16, 32, 64]) (method : spec.method = .E) (type : spec.type ∈ memoryTypes)
    (behind : p + e.extent ≤ stop) (inside : stop ≤ input.length) (short : input.length ≤ 15) :
    ReadsAddress c spec input here e (c.addr + stop.toUInt64) ↔ Faithful e c.addr p stop := by
  obtain ⟨size, listed, form⟩ := form_effective method type sized
  obtain ⟨op, after, read, coded⟩ := readEffectiveAddress_coded stands long wide listed
  have operand : c.readOperand spec input here = Reader.ofExcept (indirect op c.seg size) input after := by
    rw [Context.readOperand, form, Context.readForm, Reader.bind_apply, read]
    rfl
  cases coded with
  | register plain reg =>
    have register : c.readOperand spec input here = .returns (.register reg, after) := operand
    have faithful : Faithful e c.addr p stop ↔ e.mod = 3 := by
      unfold Faithful
      rcases plain with three | ⟨zero, four, five⟩
      · simp [three]
      · simp [zero, four, five, Encoding.relative, Encoding.hasSib]
    rw [faithful]
    constructor
    · intro holds
      obtain ⟨op, after', same, isRegister, _⟩ := holds
      obtain ⟨rfl, _⟩ : Operand.register reg = op ∧ after = after' := by simpa [register] using same
      exact isRegister.mp ⟨reg, rfl⟩
    · intro three
      exact ⟨_, after, register, ⟨fun _ => three, fun _ => ⟨reg, rfl⟩⟩, fun far => absurd three far⟩
  | memory memory =>
    have far : e.mod ≠ 3 := fun three => memory (.inl three)
    have indirect : c.readOperand spec input here = .returns (.indirect c.seg (codedBase e) (codedIndex e)
        (if e.hasSib then 2 ^ e.scale else 0) (codedDisp e c.addr p) size, after) := operand
    have relative : e.relative → p + 4 ≤ stop := by
      intro relative
      have length : e.dispLength = 4 := by
        have fields : e.mod = 0 ∧ e.rm = 5 := by simpa [Encoding.relative] using relative
        simp [Encoding.dispLength, relative, fields.1]
      rw [Encoding.extent, length] at behind
      omega
    rw [← agrees_iff memory relative (inside.trans short), ← loads_iff_agrees listed]
    constructor
    · intro holds
      obtain ⟨op, after', same, _, loads⟩ := holds
      obtain ⟨rfl, _⟩ : Operand.indirect .. = op ∧ after = after' := by simpa [indirect] using same
      exact (loads far).2
    · intro loads
      refine ⟨_, after, indirect, ⟨fun holds => ?_, fun three => absurd three far⟩, fun _ => ⟨?_, loads⟩⟩
      · obtain ⟨_, register⟩ := holds
        cases register
      · exact ⟨_, _, _, _, _, _, rfl⟩

/-- Operands of 32 bit instructions without prefixes. -/
def plainContext : Context := ⟨.longMode, .none, none, none, 32, 64, 128, 0x1000⟩

/-- A register and a negative displacement of one byte. -/
theorem readsAddress_iff_disp8 :
    ReadsAddress plainContext ⟨.E, .v⟩ [0x43, 0xf8] ⟨0, none, none⟩ ⟨none, 0x43, [0xf8]⟩ (0x1000 + (2 : Nat).toUInt64) ↔
      Faithful ⟨none, 0x43, [0xf8]⟩ 0x1000 1 2 :=
  readsAddress_iff ⟨rfl, rfl, .inl ⟨rfl, rfl, rfl⟩, rfl, by decide⟩ rfl rfl (by decide) rfl (by decide) (by decide)
    (by decide) (by decide)

/-- The address in RAX is read as RAX itself. -/
theorem not_readsAddress : ¬ReadsAddress plainContext ⟨.E, .v⟩ [0x00] ⟨0, none, none⟩ ⟨none, 0x00, []⟩ 0x1001 := by
  intro holds
  obtain ⟨op, after, result, register, _⟩ := holds
  have known : plainContext.readOperand ⟨.E, .v⟩ [0x00] ⟨0, none, none⟩ =
      .returns (.register .RAX, ⟨1, some ⟨0, 0, 0⟩, none⟩) := by
    decide
  rw [known] at result
  obtain ⟨rfl, _⟩ : Operand.register .RAX = op ∧ _ = after := by simpa using result
  exact absurd (register.mp ⟨.RAX, rfl⟩) (by decide)

end Operands
end Panopticon.Proofs.Addressing
