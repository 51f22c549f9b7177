import Panopticon.Proofs.WriteRegister

/-! Bringing two amd64 operands to one size. Whichever operand is shorter, the value that is
extended is the first one's, and constants are only ever filled up with zeros. -/

namespace Panopticon.Proofs.Extension
open Panopticon.Library Panopticon.Library.Word WriteRegister
open Amd64.Semantic (extend extended signExtend zeroExtend)

def widen (signExt : Bool) (s : Nat) (x : Bits) : Bits := if signExt then .ofInt s x.signed else .ofNat s x.value

@[simp] theorem size_widen (signExt : Bool) (s : Nat) (x : Bits) : (widen signExt s x).size = s := by
  cases signExt <;> rfl

/-- The statement that brings `source` to the size of an operand that is too short. -/
def widening (signExt : Bool) (s : Nat) (source : Rvalue) : Rvalue → List Statement
  | .var name _ _ size =>
    if size ≠ s then
      [⟨.var (name ++ "_ext") none s, if signExt then .signExtend s source else .zeroExtend s source⟩]
    else []
  | _ => []

/-- A variable without offset, or a constant that its size can hold. -/
def Plain : Rvalue → Prop
  | .var _ _ offset _ => offset = 0
  | .constant value size => value.toNat < 2 ^ size
  | .undefined => False

/-- A variable without offset, or any constant. -/
def Aligned : Rvalue → Prop
  | .var _ _ offset _ => offset = 0
  | .constant _ _ => True
  | .undefined => False

theorem Plain.aligned {x : Rvalue} (plain : Plain x) : Aligned x := by
  cases x with
  | constant value size => trivial
  | _ => exact plain

section Extend

variable {a b : Rvalue} {n m : Nat} {signExt : Bool}

theorem extended_of_size {x : Rvalue} (sized : x.size = some n) : extended x n = x := by
  cases x <;> simp_all [extended, Rvalue.size]

theorem size_extended {x : Rvalue} {s : Nat} (aligned : Aligned x) : (extended x s).size = some s := by
  cases x with
  | undefined => exact aligned.elim
  | var name subscript offset size =>
    obtain rfl : offset = 0 := aligned
    by_cases same : size = s <;> simp [extended, Rvalue.size, same]
  | constant value size => by_cases same : size = s <;> simp [extended, Rvalue.size, same]

/-- The code that converts an operand, as `extend` builds it. -/
theorem convert_eq (signExt : Bool) {x : Rvalue} {s : Nat} (aligned : Aligned x) (sizeX : x.size = some m) (source : a.size = some n)
    (positive : n ≠ 0) (wide : s ≠ 0) :
    (match if x.size ≠ (extended x s).size then Lvalue.fromRvalue (extended x s) else none with
      | some lv => rreil [⟨lv, if signExt then Operation.signExtend s a else .zeroExtend s a⟩]
      | none => .ok []) = Except.ok (widening signExt s a x) := by
  rw [size_extended aligned, sizeX]
  by_cases same : m = s
  · cases x with
    | undefined => exact aligned.elim
    | var name subscript offset size =>
      obtain rfl : size = m := Option.some.inj sizeX
      simp [widening, same]
    | constant value size => simp [widening, same]
  · cases x with
    | undefined => exact aligned.elim
    | var name subscript offset size =>
      obtain rfl : size = m := Option.some.inj sizeX
      obtain rfl : offset = 0 := aligned
      have checked : rreil [⟨.var (name ++ "_ext") none s, if signExt then Operation.signExtend s a else .zeroExtend s a⟩] =
          .ok [⟨.var (name ++ "_ext") none s, if signExt then Operation.signExtend s a else .zeroExtend s a⟩] := by
        apply rreil_ok
        simp only [List.forall_mem_singleton]
        cases signExt <;>
          simp [Statement.sanityCheck, Statement.typecheck, Statement.typecheckUnop, Operation.operands, Lvalue.size, source,
            positive, wide, pure, Except.pure, bind, Except.bind]
      simp [widening, extended, Lvalue.fromRvalue, same, checked]
    | constant value size =>
      obtain rfl : size = m := Option.some.inj sizeX
      simp [widening, extended, Lvalue.fromRvalue, same]

theorem extend_returns (alignedA : Aligned a) (alignedB : Aligned b) (sizeA : a.size = some n) (sizeB : b.size = some m)
    (positive : n ≠ 0) : extend a b signExt = .returns (extended a (max n m), extended b (max n m), max n m,
      widening signExt (max n m) a a ++ widening signExt (max n m) a b) := by
  have wide : max n m ≠ 0 := by omega
  have first := convert_eq signExt alignedA sizeA sizeA positive wide
  have second := convert_eq signExt alignedB sizeB sizeA positive wide
  simp only [extend, sizeA, sizeB, Option.getD_some, size_extended alignedA, size_extended alignedB] at first second ⊢
  rw [if_neg wide, if_neg (by simp)]
  exact Outcome.bind_eq_returns.mpr ⟨_, congrArg Outcome.ofExcept first,
    Outcome.bind_eq_returns.mpr ⟨_, congrArg Outcome.ofExcept second, rfl⟩⟩

/-- The variable an operand is extended into. -/
def scratch : Rvalue → List String
  | .var name _ _ _ => [name ++ "_ext"]
  | _ => []

/-- Both operands come out extended to the larger size, and the other variables are as they were. -/
def Extended (signExt : Bool) (a b a' b' : Rvalue) (s : Nat) (before after : Valuation) : Prop :=
  a'.denote after = some (widen signExt s (a.bits before)) ∧ b'.denote after = some (widen signExt s (b.bits before)) ∧
    ∀ name subscript, name ∉ scratch a ++ scratch b → after name subscript = before name subscript

/-- Code is generated that extends both operands, from whatever state it is run. -/
def Extends (signExt : Bool) (a b : Rvalue) : Prop :=
  ∃ a' b' s stmts, (if signExt then signExtend a b else zeroExtend a b) = .returns (a', b', s, stmts) ∧
    s = max (a.size.getD 0) (b.size.getD 0) ∧ a'.size = some s ∧ b'.size = some s ∧
    ∀ ρ, Leads Statement.Steps stmts ρ (Extended signExt a b a' b' s ρ)

/-- The operands are extended by the code that `extend` gives. -/
theorem extends_iff_run (plainA : Plain a) (plainB : Plain b) (sizeA : a.size = some n) (sizeB : b.size = some m)
    (positive : n ≠ 0) {next : Valuation → Valuation}
    (runs : ∀ ρ, run (widening signExt (max n m) a a ++ widening signExt (max n m) a b) ρ = some (next ρ)) :
    Extends signExt a b ↔
      ∀ ρ, Extended signExt a b (extended a (max n m)) (extended b (max n m)) (max n m) ρ (next ρ) := by
  have returns : (if signExt then signExtend a b else zeroExtend a b) = _ :=
    (by cases signExt <;> rfl : _ = extend a b signExt).trans (extend_returns plainA.aligned plainB.aligned sizeA sizeB positive)
  constructor
  · intro holds ρ
    obtain ⟨a', b', s, stmts, code, _, _, _, leads⟩ := holds
    obtain ⟨rfl, rfl, rfl, rfl⟩ : a' = extended a (max n m) ∧ b' = extended b (max n m) ∧ s = max n m ∧
        stmts = widening signExt (max n m) a a ++ widening signExt (max n m) a b := by
      simpa using code.symm.trans returns
    exact (leads_iff (runs ρ)).mp (leads ρ)
  · intro extended
    refine ⟨_, _, _, _, returns, by rw [sizeA, sizeB]; rfl, size_extended plainA.aligned, size_extended plainB.aligned, fun ρ => ?_⟩
    exact (leads_iff (runs ρ)).mpr (extended ρ)

end Extend

theorem widen_same {signExt : Bool} {s : Nat} {x : Bits} (same : x.size = s) : widen signExt s x = x := by
  subst same
  cases signExt
  · exact Bits.ofNat_value x
  · exact Bits.ofInt_signed x

theorem widen_eq_zero_iff {signExt : Bool} {n : Nat} {x : Bits} (inside : x.size ≤ n) :
    widen signExt n x = .ofNat n 0 ↔ x.value = 0 := by
  cases signExt with
  | false =>
    have small : x.value < 2 ^ n := x.small.trans_le (Nat.pow_le_pow_right (by decide) inside)
    simp [widen, Bits.ofNat_eq_iff, Nat.mod_eq_of_lt small]
  | true =>
    have divides : (2 : Int) ^ x.size ∣ 2 ^ n := pow_dvd_pow 2 inside
    have form : widen true n x = .ofNat n 0 ↔ x.signed % 2 ^ n = 0 := by
      rw [widen, if_pos rfl, ← Bits.ofInt_natCast, Bits.ofInt_eq_iff, Nat.cast_zero, Int.zero_emod]
    rw [form]
    constructor
    · intro zero
      have low : x.signed % 2 ^ x.size = 0 := Int.emod_eq_zero_of_dvd (divides.trans (Int.dvd_of_emod_eq_zero zero))
      rw [Bits.signed, twos_emod] at low
      norm_cast at low
      rwa [Nat.mod_eq_of_lt x.small] at low
    · intro zero
      simp [Bits.signed, zero, twos]

def Fills (signExt : Bool) : Rvalue → Prop
  | .constant value size => signExt = true → value.toNat < 2 ^ (size - 1)
  | _ => True

theorem widen_constant_iff (signExt : Bool) {n s v : Nat} (positive : n ≠ 0) (longer : n < s) (small : v < 2 ^ n) :
    Bits.ofNat s v = widen signExt s (.ofNat n v) ↔ (signExt = true → v < 2 ^ (n - 1)) := by
  cases signExt with
  | false => simp [widen, Nat.mod_eq_of_lt small]
  | true =>
    have wide : 2 ^ n < 2 ^ s := Nat.pow_lt_pow_right (by decide) longer
    have power : ((2 ^ s : Nat) : Int) = 2 ^ s := by norm_cast
    have powerN : ((2 ^ n : Nat) : Int) = 2 ^ n := by norm_cast
    simp only [widen, if_true, true_implies, Bits.signed, Bits.size_ofNat, Bits.value_ofNat, Nat.mod_eq_of_lt small]
    rw [← Bits.ofInt_natCast, Bits.ofInt_eq_iff]
    rcases Nat.lt_or_ge v (2 ^ (n - 1)) with clear | set
    · simp [twos_of_lt (by omega) clear, clear]
    · have negative := twos_of_le (by omega) set small
      rw [negative, ← power, Int.emod_eq_of_lt (by omega) (by omega), ← Int.add_emod_right,
        Int.emod_eq_of_lt (by omega) (by omega)]
      omega

/-- The operands come out right: constants that are filled up have no sign to copy, and no variable is in the way. -/
def Carries (signExt : Bool) (a b : Rvalue) (n m : Nat) : Prop :=
  n = m ∨
  (n < m ∧ Fills signExt a ∧ ∀ name subscript, a = .var name subscript 0 n → b ≠ .var (name ++ "_ext") none 0 m) ∨
  (m < n ∧ (∃ w, b = .constant w m) ∧ Fills signExt b)

section Cases

variable {signExt : Bool} {a b : Rvalue} {n m : Nat} (plainA : Plain a) (plainB : Plain b)

theorem denote_eq {x : Rvalue} (sized : x.size = some n) (ρ : Valuation) :
    x.denote ρ = some (x.bits ρ) ∧ (x.bits ρ).size = n := by
  cases x <;> simp_all [Rvalue.size, Rvalue.bits, Rvalue.denote]

theorem widening_of_size {x source : Rvalue} (sized : x.size = some n) : widening signExt n source x = [] := by
  cases x <;> simp_all [widening, Rvalue.size]

theorem run_widening (source : Rvalue) {name : String} {subscript : Option Nat} {s : Nat} (sized : source.size = some n)
    (other : m ≠ s) (ρ : Valuation) : run (widening signExt s source (.var name subscript 0 m)) ρ =
      some (ρ.assign (.var (name ++ "_ext") none s) (widen signExt s (source.bits ρ))) := by
  have defined : Rvalue.undefined ≠ source := by
    rintro rfl
    cases sized
  cases signExt <;>
    simp [widening, other, run, Statement.next, Operation.operands, Operation.lift, Operation.result, widen, defined]

theorem denote_assigned {name : String} {s : Nat} {x : Bits} (sized : x.size = s) (ρ : Valuation) :
    (Rvalue.var name none 0 s).denote (ρ.assign (.var name none s) x) = some x := by
  subst sized
  have value : x.value % 2 ^ x.size = x.value := Nat.mod_eq_of_lt x.small
  simp [Rvalue.denote, Valuation.assign, value, Bits.ofNat_value]

private theorem denote_other {x : Rvalue} {name : String} {s : Nat} {r : Bits}
    (other : ∀ offset size, x ≠ .var name none offset size) (ρ : Valuation) :
    x.denote (ρ.assign (.var name none s) r) = x.denote ρ := by
  cases x with
  | var own subscript offset size =>
    have apart : ¬(own = name ∧ subscript = none) := by
      rintro ⟨rfl, rfl⟩
      exact other offset size rfl
    simp [Rvalue.denote, Valuation.assign, apart]
  | _ => rfl

private theorem append_ne (name : String) : name ++ "_ext" ≠ name := by
  intro same
  have length := congrArg String.length same
  simp at length

include plainA plainB

private theorem extends_same (sizeA : a.size = some n) (sizeB : b.size = some n) (positive : n ≠ 0) : Extends signExt a b := by
  refine (extends_iff_run plainA plainB sizeA sizeB positive (fun ρ => ?_ : ∀ ρ, _ = some (id ρ))).mpr fun ρ => ?_
  · simp [widening_of_size sizeA, widening_of_size sizeB, run]
  · obtain ⟨denoteA, bitsA⟩ := denote_eq sizeA ρ
    obtain ⟨denoteB, bitsB⟩ := denote_eq sizeB ρ
    rw [Nat.max_self, extended_of_size sizeA, extended_of_size sizeB]
    exact ⟨by rw [widen_same bitsA, id, denoteA], by rw [widen_same bitsB, id, denoteB], fun _ _ _ => rfl⟩

private theorem extends_iff_longer (sizeA : a.size = some n) (sizeB : b.size = some m) (positive : n ≠ 0) (longer : n < m) :
    Extends signExt a b ↔
      Fills signExt a ∧ ∀ name subscript, a = .var name subscript 0 n → b ≠ .var (name ++ "_ext") none 0 m := by
  have largest : max n m = m := by omega
  cases a with
  | undefined => exact plainA.elim
  | constant v size =>
    obtain rfl : size = n := Option.some.inj sizeA
    have runs : ∀ ρ, run (widening signExt (max size m) (.constant v size) (.constant v size) ++
        widening signExt (max size m) (.constant v size) b) ρ = some (id ρ) := by
      intro ρ
      rw [largest, widening_of_size sizeB]
      rfl
    have filled := widen_constant_iff signExt positive longer plainA
    have form : extended (.constant v size) m = .constant v m := if_pos (Nat.ne_of_lt longer)
    rw [extends_iff_run plainA plainB sizeA sizeB positive runs, largest, extended_of_size sizeB, form, Fills, ← filled]
    constructor
    · intro extended
      exact ⟨Option.some.inj (extended fun _ _ => 0).1, by simp⟩
    · intro holds ρ
      obtain ⟨filled, _⟩ := holds
      obtain ⟨denoteB, bitsB⟩ := denote_eq sizeB ρ
      exact ⟨congrArg some filled, by rw [widen_same bitsB, id, denoteB], fun _ _ _ => rfl⟩
  | var name subscript offset size =>
    obtain rfl : size = n := Option.some.inj sizeA
    have start : offset = 0 := plainA
    subst start
    let source : Rvalue := .var name subscript 0 size
    let next : Valuation → Valuation := fun ρ => ρ.assign (.var (name ++ "_ext") none m) (widen signExt m (source.bits ρ))
    have runs : ∀ ρ, run (widening signExt (max size m) source source ++ widening signExt (max size m) source b) ρ =
        some (next ρ) := by
      intro ρ
      rw [largest, widening_of_size sizeB, List.append_nil]
      exact run_widening source rfl (Nat.ne_of_lt longer) ρ
    have form : extended source m = .var (name ++ "_ext") none 0 m := by
      simp [source, extended, Nat.ne_of_lt longer]
    rw [extends_iff_run plainA plainB sizeA sizeB positive runs, largest, extended_of_size sizeB, form]
    constructor
    · intro extended
      refine ⟨trivial, ?_⟩
      rintro _ _ ⟨rfl, rfl⟩ rfl
      -- the second operand is overwritten with the first one
      have second := (extended fun x _ => if x = name ++ "_ext" then 1 else 0).2.1
      rw [denote_assigned (size_widen _ _ _), Option.some.injEq,
        (widen_eq_zero_iff (Nat.le_of_lt longer)).mpr (by simp [source, Rvalue.bits, Rvalue.denote, (append_ne name).symm])] at second
      have values := (widen_eq_zero_iff (Nat.le_refl m)).mp second.symm
      have wide : m ≠ 0 := by omega
      simp [Rvalue.bits, Rvalue.denote, wide] at values
    · intro holds ρ
      obtain ⟨_, apart⟩ := holds
      obtain ⟨denoteB, bitsB⟩ := denote_eq sizeB ρ
      have other : ∀ offset s, b ≠ .var (name ++ "_ext") none offset s := by
        rintro offset s rfl
        obtain rfl : offset = 0 := plainB
        obtain rfl : s = m := Option.some.inj sizeB
        exact apart name subscript rfl rfl
      refine ⟨denote_assigned (size_widen _ _ _) ρ, ?_, ?_⟩
      · rw [denote_other other, denoteB, widen_same bitsB]
      · intro own sub fresh
        have apart : own ≠ name ++ "_ext" := by
          rintro rfl
          exact fresh (by simp [scratch])
        simp [next, Valuation.assign, apart]

theorem extends_iff_shorter (sizeA : a.size = some n) (sizeB : b.size = some m) (positive : m ≠ 0) (shorter : m < n) :
    Extends signExt a b ↔ (∃ w, b = .constant w m) ∧ Fills signExt b := by
  have largest : max n m = n := by omega
  cases b with
  | undefined => exact plainB.elim
  | constant w size =>
    obtain rfl : size = m := Option.some.inj sizeB
    have runs : ∀ ρ, run (widening signExt (max n size) a a ++ widening signExt (max n size) a (.constant w size)) ρ =
        some (id ρ) := by
      intro ρ
      rw [largest, widening_of_size sizeA]
      rfl
    have filled := widen_constant_iff signExt positive shorter plainB
    have form : extended (.constant w size) n = .constant w n := if_pos (Nat.ne_of_lt shorter)
    rw [extends_iff_run plainA plainB sizeA sizeB (by omega) runs, largest, extended_of_size sizeA, form, Fills, ← filled]
    constructor
    · intro extended
      exact ⟨⟨w, rfl⟩, Option.some.inj (extended fun _ _ => 0).2.1⟩
    · intro holds ρ
      obtain ⟨_, filled⟩ := holds
      obtain ⟨denoteA, bitsA⟩ := denote_eq sizeA ρ
      exact ⟨by rw [widen_same bitsA, id, denoteA], congrArg some filled, fun _ _ _ => rfl⟩
  | var name subscript offset size =>
    obtain rfl : size = m := Option.some.inj sizeB
    have start : offset = 0 := plainB
    subst start
    let next : Valuation → Valuation := fun ρ => ρ.assign (.var (name ++ "_ext") none n) (widen signExt n (a.bits ρ))
    have runs : ∀ ρ, run (widening signExt (max n size) a a ++ widening signExt (max n size) a (.var name subscript 0 size)) ρ =
        some (next ρ) := by
      intro ρ
      rw [largest, widening_of_size sizeA, List.nil_append]
      exact run_widening a sizeA (Nat.ne_of_lt shorter) ρ
    have form : extended (.var name subscript 0 size) n = .var (name ++ "_ext") none 0 n := by
      simp [extended, Nat.ne_of_lt shorter]
    rw [extends_iff_run plainA plainB sizeA sizeB (by omega) runs, largest, extended_of_size sizeA, form]
    simp only [reduceCtorEq, exists_false, false_and, iff_false]
    intro extended
    -- what comes out for the second operand is the first one
    have second : ∀ ρ, a.bits ρ = widen signExt n ((Rvalue.var name subscript 0 size).bits ρ) := by
      intro ρ
      have same := (extended ρ).2.1
      rw [denote_assigned (size_widen _ _ _), widen_same (denote_eq sizeA ρ).2] at same
      exact Option.some.inj same
    have narrow : ∀ ρ, ((Rvalue.var name subscript 0 size).bits ρ).size ≤ n := fun _ => Nat.le_of_lt shorter
    cases a with
    | undefined => exact plainA.elim
    | constant v wide =>
      obtain rfl : wide = n := Option.some.inj sizeA
      have zero := second fun _ _ => 0
      rw [(widen_eq_zero_iff (narrow _)).mpr (by simp [Rvalue.bits, Rvalue.denote])] at zero
      have one := zero.symm.trans (second fun _ _ => 1)
      have values := (widen_eq_zero_iff (narrow _)).mp one.symm
      simp [Rvalue.bits, Rvalue.denote, positive] at values
    | var own sub offset wide =>
      obtain rfl : wide = n := Option.some.inj sizeA
      have start : offset = 0 := plainA
      subst start
      have same := second fun x s => if x = own ∧ s = sub then 2 ^ size else 0
      rw [(widen_eq_zero_iff (narrow _)).mpr (by
        simp only [Rvalue.bits, Rvalue.denote, pow_zero, Nat.div_one, Option.getD_some, Bits.value_ofNat]
        split <;> simp)] at same
      have values := congrArg Bits.value same
      have inside : 2 ^ size < 2 ^ wide := Nat.pow_lt_pow_right (by decide) shorter
      simp [Rvalue.bits, Rvalue.denote, Nat.mod_eq_of_lt inside] at values

end Cases

/-- Bringing two operands to one size is right exactly where `Carries` says. -/
theorem extends_iff {a b : Rvalue} {n m : Nat} (plainA : Plain a) (plainB : Plain b) (sizeA : a.size = some n)
    (sizeB : b.size = some m) (widthA : 1 ≤ n ∧ n ≤ 64) (widthB : 1 ≤ m ∧ m ≤ 64) (signExt : Bool) :
    Extends signExt a b ↔ Carries signExt a b n m := by
  rcases Nat.lt_trichotomy n m with longer | same | shorter
  · rw [extends_iff_longer plainA plainB sizeA sizeB (by omega) longer]
    simp [Carries, longer, Nat.ne_of_lt longer, Nat.lt_asymm longer]
  · subst same
    simp [Carries, extends_same plainA plainB sizeA sizeB (by omega)]
  · rw [extends_iff_shorter plainA plainB sizeA sizeB (by omega) shorter]
    simp [Carries, shorter, Nat.ne_of_gt shorter, Nat.lt_asymm shorter]

/-- A byte is extended to the size of another register, and a positive constant likewise. -/
theorem extends_iff_byte :
    Extends true (.var "AL" none 0 8) (.var "BX" none 0 16) ↔ Carries true (.var "AL" none 0 8) (.var "BX" none 0 16) 8 16 :=
  extends_iff (a := .var "AL" none 0 8) (b := .var "BX" none 0 16) rfl rfl rfl rfl (by decide) (by decide) true

/-- A second operand that is shorter comes out as the first one. -/
theorem not_extends : ¬∀ (signExt : Bool) (a b : Rvalue) (n m : Nat), Plain a → Plain b → a.size = some n →
    b.size = some m → 1 ≤ n ∧ n ≤ 64 → 1 ≤ m ∧ m ≤ 64 → Extends signExt a b := by
  intro claim
  have both := claim true (.var "AX" none 0 16) (.var "BL" none 0 8) 16 8 rfl rfl rfl rfl (by decide) (by decide)
  obtain ⟨⟨_, constant⟩, _⟩ := (extends_iff_shorter (a := .var "AX" none 0 16) (b := .var "BL" none 0 8) rfl rfl rfl rfl (by decide)
    (by decide)).mp both
  cases constant

end Panopticon.Proofs.Extension
