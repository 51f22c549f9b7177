import Panopticon.Disassembler

/-! What a bit pattern says: the bits of a token from the most significant one down, and the group
each of them belongs to. -/

namespace Panopticon.Disassembly
open Library

def isBit (c : Char) : Bool := c = '0' || c = '1' || c = '.'

/-- The bits of a word. Those behind the `@` belong to the group whose name is in front of it. -/
def wordBits (word : List Char) : List (Char × Option String) :=
  let front := word.takeWhile (· ≠ '@')
  let back := word.dropWhile (· ≠ '@')
  (front.filter isBit).map (·, none) ++ (back.filter isBit).map (·, some (String.ofList (front.filter Char.isAlpha)))

def patternBits (self : String) : List (Char × Option String) := (self.toList.splitOn ' ').flatMap wordBits

/-- The characters of a pattern that stand for bits. -/
def bitChars (self : String) : List Char := self.toList.filter isBit

/-- The bits of a token, the most significant one first. -/
def tokenBits {n : Nat} (tok : BitVec (8 * n)) : List Bool := (List.range (8 * n)).map tok.getMsbD

def Agrees (c : Char) (bit : Bool) : Prop := (c = '0' → bit = false) ∧ (c = '1' → bit = true)

/-- The bits of a token that a pattern puts into a group. -/
def groupBits {n : Nat} (self : String) (tok : BitVec (8 * n)) (g : String) : List Bool :=
  ((patternBits self).zip (tokenBits tok)).filterMap fun bit => if bit.1.2 = some g then some bit.2 else none

/-- The number with these bits, behind the bits of another one. -/
def number (v : Nat) (bits : List Bool) : Nat := bits.foldl (fun v bit => 2 * v + bit.toNat) v

section Read

variable {n : Nat} {ε : Type} {r : Reader n} {bits : List (Char × Option String)}

private theorem wordBits_chars (word : List Char) : (wordBits word).map Prod.fst = word.filter isBit := by
  rw [wordBits, List.map_append, List.map_map, List.map_map]
  simp only [Function.comp_def, List.map_id']
  rw [← List.filter_append, List.takeWhile_append_dropWhile]

/-- The bits of the rest of a word whose first characters were read. -/
def restBits (cur : String) (read : Bool) (word : List Char) : List (Char × Option String) :=
  if read then (word.filter isBit).map (·, some cur)
  else
    let front := word.takeWhile (· ≠ '@')
    let back := word.dropWhile (· ≠ '@')
    (front.filter isBit).map (·, none) ++
      (back.filter isBit).map (·, some (String.ofList (cur.toList ++ front.filter Char.isAlpha)))

theorem restBits_start (word : List Char) : restBits "" false word = wordBits word := rfl

def tailBits (cur : String) (read : Bool) (rest : List Char) : List (Char × Option String) :=
  restBits cur read ((rest.splitOn ' ').headD []) ++ (rest.splitOn ' ').tail.flatMap wordBits

theorem splitOn_cons (c : Char) (rest : List Char) : (c :: rest).splitOn ' ' =
    if c = ' ' then [] :: rest.splitOn ' ' else (c :: (rest.splitOn ' ').headD []) :: (rest.splitOn ' ').tail := by
  rw [List.splitOn, List.splitOnP_cons_eq_if_modifyHead]
  cases words : rest.splitOn ' ' with
  | nil => exact absurd words (List.splitOnP_ne_nil _ rest)
  | cons word words =>
    rw [List.splitOn] at words
    rw [words]
    by_cases blank : c = ' ' <;> simp [blank]

private theorem patternBits_chars (self : String) : (patternBits self).map Prod.fst = bitChars self := by
  rw [patternBits, bitChars, List.map_flatMap]
  simp only [wordBits_chars]
  generalize self.toList = rest
  induction rest with
  | nil => rfl
  | cons c rest ih =>
    rw [splitOn_cons]
    by_cases blank : c = ' '
    · rw [if_pos blank, List.flatMap_cons, ih, blank]
      rfl
    · rw [if_neg blank, List.flatMap_cons, List.filter_cons, List.filter_cons, ← ih]
      cases words : rest.splitOn ' ' with
      | nil => exact absurd words (List.splitOnP_ne_nil _ rest)
      | cons word words =>
        rw [List.headD_cons, List.tail_cons, List.flatMap_cons]
        split <;> rfl

private theorem tailBits_start (self : String) : tailBits "" false self.toList = patternBits self := by
  rw [tailBits, restBits_start, patternBits]
  cases words : self.toList.splitOn ' ' with
  | nil => exact absurd words (List.splitOnP_ne_nil _ _)
  | cons word words => rfl

private theorem tailBits_nil (cur : String) (read : Bool) : tailBits cur read [] = [] := by
  cases read <;> rfl

private theorem tailBits_at (cur : String) (rest : List Char) : tailBits cur false ('@' :: rest) = tailBits cur true rest := by
  simp [tailBits, splitOn_cons, restBits, isBit]

private theorem tailBits_blank (cur : String) (read : Bool) (rest : List Char) :
    tailBits cur read (' ' :: rest) = tailBits "" false rest := by
  have none : restBits cur read [] = [] := by cases read <;> rfl
  rw [tailBits, tailBits, splitOn_cons, if_pos rfl, List.headD_cons, none, restBits_start]
  cases words : rest.splitOn ' ' with
  | nil => exact absurd words (List.splitOnP_ne_nil _ rest)
  | cons word words => rfl

theorem tailBits_bit {c : Char} (bit : isBit c = true) (cur : String) (read : Bool) (rest : List Char) :
    tailBits cur read (c :: rest) = (c, if read then some cur else none) :: tailBits cur read rest := by
  have other : c ≠ ' ' ∧ c ≠ '@' ∧ c.isAlpha = false := by
    simp only [isBit, Bool.or_eq_true, decide_eq_true_eq] at bit
    rcases bit with (rfl | rfl) | rfl <;> decide
  rw [tailBits, tailBits, splitOn_cons, if_neg other.1, List.headD_cons, List.tail_cons]
  cases read <;> simp [restBits, bit, other]

private theorem tailBits_letter {c : Char} (letter : c.isAlpha = true) (cur : String) (rest : List Char) :
    tailBits cur false (c :: rest) = tailBits (cur.push c) false rest := by
  have other : c ≠ ' ' ∧ c ≠ '@' ∧ isBit c = false := by
    refine ⟨?_, ?_, ?_⟩
    · rintro rfl
      exact absurd letter (by decide)
    · rintro rfl
      exact absurd letter (by decide)
    · simp only [isBit, Bool.or_eq_false_iff, decide_eq_false_iff_not]
      refine ⟨⟨?_, ?_⟩, ?_⟩ <;> rintro rfl <;> exact absurd letter (by decide)
  rw [tailBits, tailBits, splitOn_cons, if_neg other.1, List.headD_cons, List.tail_cons]
  simp [restBits, other, letter]

/-- What was read so far, most significant bit first. -/
structure Reads (r : Reader n) (bits : List (Char × Option String)) : Prop where
  length : r.bit + bits.length = 8 * n
  mask : ∀ i < 8 * n, r.mask.getMsbD i = (bits[i]?).any fun bit => bit.1 ≠ '.'
  pat : ∀ i < 8 * n, r.pat.getMsbD i = (bits[i]?).any fun bit => bit.1 = '1'
  groups : ∀ g : String, ∀ i < 8 * n, (r.groups[g]?.getD 0#(8 * n)).getMsbD i = (bits[i]?).any fun bit => bit.2 = some g
  opened : r.readPat = true → r.curGroup ≠ "" ∧ r.groups.contains r.curGroup = true
  known : ∀ bit ∈ bits, isBit bit.1 = true

theorem getMsbD_bit {w i l : Nat} (inside : i < w) (inside' : l < w) : (1#w <<< (w - l - 1)).getMsbD i = decide (i = l) := by
  rw [BitVec.getMsbD_eq_getLsbD, BitVec.getLsbD_shiftLeft]
  simp only [inside, decide_true, Bool.true_and, BitVec.getLsbD_one]
  rw [← Bool.decide_and]
  grind

theorem any_append (bits : List (Char × Option String)) (bit : Char × Option String) (p : Char × Option String → Bool) (i : Nat) :
    ((bits ++ [bit])[i]?).any p = ((bits[i]?).any p || decide (i = bits.length) && p bit) := by
  rcases lt_trichotomy i bits.length with less | rfl | more
  · simp [List.getElem?_append_left less, less.ne]
  · simp
  · have beyond : (bits ++ [bit]).length ≤ i := by simpa using more
    simp [List.getElem?_eq_none beyond, List.getElem?_eq_none more.le, more.ne']

theorem Reads.start : Reads (⟨∅, "", false, 8 * n, 0, 0⟩ : Reader n) [] := by
  constructor <;> simp

theorem Reads.inside (reads : Reads r bits) (more : r.bit ≠ 0) : bits.length < 8 * n := by
  have length := reads.length
  omega

theorem Reads.next (reads : Reads r bits) : r.bit - 1 = 8 * n - bits.length - 1 := by
  have length := reads.length
  omega

theorem Reads.capture (reads : Reads r bits) (more : r.bit ≠ 0) {groups : Std.ExtTreeMap String (BitVec (8 * n))}
    (captured : r.capture (ε := ε) = .returns groups) (c : Char) :
    (∀ g : String, ∀ i < 8 * n, (groups[g]?.getD 0#(8 * n)).getMsbD i =
      ((bits ++ [(c, if r.readPat then some r.curGroup else none)])[i]?).any fun bit => bit.2 = some g) ∧
    ∀ g, r.groups.contains g = true → groups.contains g = true := by
  rw [Reader.capture] at captured
  by_cases opened : r.readPat = true
  · have named := (reads.opened opened).1
    rw [if_pos ⟨opened, named⟩, Outcome.bind_eq_returns] at captured
    obtain ⟨mask, found, stored⟩ := captured
    rw [Outcome.unwrap_eq_returns] at found
    obtain rfl := Outcome.returns.inj stored
    refine ⟨fun g i inside => ?_, fun g known => by simp [known]⟩
    rw [any_append, ← reads.groups g i inside, Std.ExtTreeMap.getElem?_insert]
    by_cases same : r.curGroup = g
    · subst same
      simp [found, opened, reads.next, getMsbD_bit inside (reads.inside more)]
    · have apart : compare r.curGroup g ≠ .eq := by simpa using same
      simp [apart, opened, same]
  · rw [if_neg (fun both => opened both.1)] at captured
    obtain rfl := Outcome.returns.inj captured
    refine ⟨fun g i inside => ?_, fun g known => known⟩
    rw [any_append, ← reads.groups g i inside]
    simp [opened]

theorem Reads.bit (reads : Reads r bits) (more : r.bit ≠ 0) {groups : Std.ExtTreeMap String (BitVec (8 * n))} {mask pat : BitVec (8 * n)}
    (captured : r.capture (ε := ε) = .returns groups) {c : Char} (known : isBit c = true)
    (masked : mask = if c = '.' then r.mask else r.mask ||| 1#(8 * n) <<< (r.bit - 1))
    (set : pat = if c = '1' then r.pat ||| 1#(8 * n) <<< (r.bit - 1) else r.pat) :
    Reads { r with groups, mask, pat, bit := r.bit - 1 } (bits ++ [(c, if r.readPat then some r.curGroup else none)]) := by
  obtain ⟨grouped, kept⟩ := reads.capture more captured c
  have length := reads.length
  constructor
  · simp only [List.length_append, List.length_singleton]
    omega
  · intro i inside
    rw [any_append, ← reads.mask i inside, masked]
    by_cases dot : c = '.' <;> simp [dot, reads.next, getMsbD_bit inside (reads.inside more)]
  · intro i inside
    rw [any_append, ← reads.pat i inside, set]
    by_cases one : c = '1' <;> simp [one, reads.next, getMsbD_bit inside (reads.inside more)]
  · exact grouped
  · intro opened
    exact ⟨(reads.opened opened).1, kept _ (reads.opened opened).2⟩
  · intro bit member
    rcases List.mem_append.mp member with member | member
    · exact reads.known bit member
    · rw [List.mem_singleton.mp member]
      exact known

theorem Reads.named (reads : Reads r bits) (named : r.curGroup ≠ "") {groups : Std.ExtTreeMap String (BitVec (8 * n))}
    (stored : groups = if r.groups.contains r.curGroup then r.groups else r.groups.insert r.curGroup 0) :
    Reads { r with readPat := true, groups } bits := by
  have same : ∀ g : String, groups[g]?.getD 0#(8 * n) = r.groups[g]?.getD 0#(8 * n) := by
    intro g
    rw [stored]
    split
    · rfl
    · next absent =>
      rw [Std.ExtTreeMap.getElem?_insert]
      split
      next equal =>
        have missing : r.groups[g]? = none := by
          rw [Std.LawfulEqOrd.eq_of_compare equal] at absent
          simpa using absent
        rw [missing]
        rfl
      next => rfl
  constructor
  · exact reads.length
  · exact reads.mask
  · exact reads.pat
  · intro g i inside
    rw [← reads.groups g i inside, ← same g]
  · intro _
    refine ⟨named, ?_⟩
    dsimp only
    rw [stored]
    split
    next present => exact present
    next => simp
  · exact reads.known

theorem Reads.step (reads : Reads r bits) {c : Char} {next : Reader n} (stepped : r.step (ε := ε) c = .returns next) :
    ∃ more, Reads next (bits ++ more) ∧
      ∀ rest, tailBits r.curGroup r.readPat (c :: rest) = more ++ tailBits next.curGroup next.readPat rest := by
  rw [Reader.step] at stepped
  by_cases sign : c = '@'
  · rw [if_pos sign] at stepped
    by_cases opened : r.readPat = true
    · simp [opened] at stepped
    by_cases named : r.curGroup = ""
    · simp [opened, named] at stepped
    rw [if_neg opened, if_neg named] at stepped
    have closed : r.readPat = false := by simpa using opened
    have known : next = { r with
        readPat := true
        groups := if r.groups.contains r.curGroup then r.groups else r.groups.insert r.curGroup 0 } := by
      split at stepped
      next present =>
        rw [if_pos present]
        exact (Outcome.returns.inj stepped).symm
      next absent =>
        rw [if_neg absent]
        exact (Outcome.returns.inj stepped).symm
    refine ⟨[], ?_, fun rest => ?_⟩
    · rw [List.append_nil, known]
      exact reads.named named rfl
    · rw [sign, closed, tailBits_at, known, List.nil_append]
  rw [if_neg sign] at stepped
  by_cases blank : c = ' '
  · rw [if_pos blank] at stepped
    obtain rfl := Outcome.returns.inj stepped
    refine ⟨[], ?_, fun rest => ?_⟩
    · rw [List.append_nil]
      exact ⟨reads.length, reads.mask, reads.pat, reads.groups, fun opened => by simp at opened, reads.known⟩
    · rw [blank, tailBits_blank, List.nil_append]
  rw [if_neg blank] at stepped
  by_cases dot : c = '.'
  · rw [if_pos dot] at stepped
    split at stepped
    next => simp at stepped
    next more =>
      rw [Outcome.bind_eq_returns] at stepped
      obtain ⟨groups, captured, stored⟩ := stepped
      obtain rfl := Outcome.returns.inj stored
      have bit : isBit c = true := by simp [isBit, dot]
      refine ⟨_, reads.bit more captured bit (by simp [dot]) (by simp [dot]), fun rest => ?_⟩
      rw [tailBits_bit bit, List.singleton_append]
  rw [if_neg dot] at stepped
  by_cases fixed : c = '0' ∨ c = '1'
  · rw [if_pos fixed] at stepped
    split at stepped
    next => simp at stepped
    next more =>
      rw [Outcome.bind_eq_returns] at stepped
      obtain ⟨groups, captured, stored⟩ := stepped
      obtain rfl := Outcome.returns.inj stored
      have bit : isBit c = true := by rcases fixed with rfl | rfl <;> rfl
      refine ⟨_, reads.bit more captured bit (by simp [dot]) rfl, fun rest => ?_⟩
      rw [tailBits_bit bit, List.singleton_append]
  rw [if_neg fixed] at stepped
  by_cases letter : c.isAlpha = true
  · rw [if_pos letter] at stepped
    by_cases opened : r.readPat = true
    · simp [opened] at stepped
    rw [if_neg opened] at stepped
    obtain rfl := Outcome.returns.inj stepped
    have closed : r.readPat = false := by simpa using opened
    refine ⟨[], ?_, fun rest => ?_⟩
    · rw [List.append_nil]
      exact ⟨reads.length, reads.mask, reads.pat, reads.groups, fun opened' => absurd opened' opened, reads.known⟩
    · rw [closed, tailBits_letter letter, List.nil_append]
  · rw [if_neg letter] at stepped
    cases stepped

theorem Reads.fold {cs : List Char} {last : Reader n} (reads : Reads r bits)
    (finished : Outcome.fold (ε := ε) Reader.step r cs = .returns last) :
    Reads last (bits ++ tailBits r.curGroup r.readPat cs) := by
  induction cs generalizing r bits with
  | nil =>
    obtain rfl := Outcome.returns.inj finished
    rw [tailBits_nil, List.append_nil]
    exact reads
  | cons c cs ih =>
    rw [Outcome.fold, Outcome.bind_eq_returns] at finished
    obtain ⟨next, stepped, finished⟩ := finished
    obtain ⟨more, kept, split⟩ := reads.step stepped
    rw [split, ← List.append_assoc]
    exact ih kept finished

end Read

section Capture

variable {n : Nat} {Configuration : Type}

private theorem number_append (v : Nat) (first last : List Bool) : number v (first ++ last) = number (number v first) last :=
  List.foldl_append

theorem number_mod (v : Nat) (bits : List Bool) : number (v % 2 ^ 64) bits % 2 ^ 64 = number v bits % 2 ^ 64 := by
  induction bits generalizing v with
  | nil => exact Nat.mod_mod _ _
  | cons bit bits ih =>
    change number (2 * (v % 2 ^ 64) + bit.toNat) bits % 2 ^ 64 = number (2 * v + bit.toNat) bits % 2 ^ 64
    rw [← ih (2 * (v % 2 ^ 64) + bit.toNat), ← ih (2 * v + bit.toNat)]
    congr 2
    omega

private theorem number_lt (bits : List Bool) (v k : Nat) (small : v < 2 ^ k) : number v bits < 2 ^ (k + bits.length) := by
  induction bits generalizing v k with
  | nil => exact small
  | cons bit bits ih =>
    have next : 2 * v + bit.toNat < 2 ^ (k + 1) := by
      have bound := Bool.toNat_le bit
      rw [pow_succ]
      omega
    have shape : k + (bit :: bits).length = k + 1 + bits.length := by
      rw [List.length_cons]
      omega
    rw [shape]
    exact ih _ _ next

theorem toNat_shift (res : UInt64) : (res <<< 1).toNat = 2 ^ 1 * (res.toNat % 2 ^ 63) := by
  rw [UInt64.toNat_shiftLeft]
  simp [Nat.shiftLeft_eq]
  omega

private theorem toNat_push (res : UInt64) (bit : Bool) :
    (if bit = true then res <<< 1 ||| 1 else res <<< 1).toNat = (2 * res.toNat + bit.toNat) % 2 ^ 64 := by
  cases bit with
  | false =>
    simp only [Bool.false_eq_true, if_false, toNat_shift, Bool.toNat_false]
    omega
  | true =>
    have one : (1 : UInt64).toNat < 2 ^ 1 := by decide
    have value : (1 : UInt64).toNat = 1 := rfl
    rw [if_pos rfl, UInt64.toNat_or, toNat_shift, ← Nat.two_pow_add_eq_or_of_lt one, Bool.toNat_true]
    omega

theorem bit_and_ne_zero {w i : Nat} (inside : i < w) (m : BitVec w) : 1#w <<< (w - i - 1) &&& m ≠ 0 ↔ m.getMsbD i = true := by
  constructor
  · intro some
    by_contra clear
    refine some (BitVec.eq_of_getMsbD_eq fun j inside' => ?_)
    rw [BitVec.getMsbD_and, getMsbD_bit inside' inside]
    by_cases same : j = i
    · subst same
      simpa using clear
    · simp [same]
  · intro set zero
    have bit := congrArg (fun x => x.getMsbD i) zero
    simp [getMsbD_bit inside inside, set] at bit

/-- The bits of a token under a mask, the most significant one first. -/
def selected (tok mask : BitVec (8 * n)) : List Bool :=
  (List.range (8 * n)).filterMap fun i => if mask.getMsbD i then some (tok.getMsbD i) else none

private theorem captureBit_set {tok mask : BitVec (8 * n)} {i : Nat} (inside : i < 8 * n) (set : mask.getMsbD i = true) (res : UInt64) :
    (captureBit tok mask res i).toNat = (2 * res.toNat + (tok.getMsbD i).toNat) % 2 ^ 64 := by
  have present := (bit_and_ne_zero inside mask).mpr set
  have both : tok &&& (1#(8 * n) <<< (8 * n - i - 1) &&& mask) = 1#(8 * n) <<< (8 * n - i - 1) &&& (tok &&& mask) := by
    rw [← BitVec.and_assoc, BitVec.and_comm tok, BitVec.and_assoc]
  have taken : tok &&& (1#(8 * n) <<< (8 * n - i - 1) &&& mask) ≠ 0 ↔ tok.getMsbD i = true := by
    rw [both, bit_and_ne_zero inside, BitVec.getMsbD_and, set, Bool.and_true]
  rw [← toNat_push]
  simp only [captureBit, if_pos present, taken]

private theorem captureBit_clear {tok mask : BitVec (8 * n)} {i : Nat} (inside : i < 8 * n) (clear : mask.getMsbD i = false) (res : UInt64) :
    captureBit tok mask res i = res := by
  have absent : ¬1#(8 * n) <<< (8 * n - i - 1) &&& mask ≠ 0 := by
    rw [bit_and_ne_zero inside, clear]
    decide
  simp only [captureBit, if_neg absent]

private theorem captureBits_eq (tok mask : BitVec (8 * n)) (res : UInt64) :
    (captureBits tok mask res).toNat = number res.toNat (selected tok mask) % 2 ^ 64 := by
  have general : ∀ places : List Nat, (∀ i ∈ places, i < 8 * n) → ∀ res, (places.foldl (captureBit tok mask) res).toNat =
      number res.toNat (places.filterMap fun i => if mask.getMsbD i then some (tok.getMsbD i) else none) % 2 ^ 64 := by
    intro places
    induction places with
    | nil => exact fun _ res => (Nat.mod_eq_of_lt res.toNat_lt).symm
    | cons i places ih =>
      intro inside res
      rw [List.forall_mem_cons] at inside
      rw [List.foldl_cons, ih inside.2, List.filterMap_cons]
      cases bit : mask.getMsbD i with
      | true =>
        rw [captureBit_set inside.1 bit, number_mod]
        rfl
      | false =>
        rw [captureBit_clear inside.1 bit]
        rfl
  exact general _ (fun i member => List.mem_range.mp member) res

def lookup (groups : List (String × UInt64)) (g : String) : Option UInt64 := (groups.find? fun x => x.1 = g).map Prod.snd

private theorem lookup_modify {groups : List (String × UInt64)} {name : String} (present : (lookup groups name).isSome) (res : UInt64) (g : String) :
    lookup (groups.modify (groups.findIdx fun x => x.1 = name) fun x => (x.1, res)) g =
      if g = name then some res else lookup groups g := by
  induction groups with
  | nil => simp [lookup] at present
  | cons group groups ih =>
    rw [List.findIdx_cons]
    by_cases same : group.1 = name
    · by_cases asked : g = name
      · simp [lookup, same, asked]
      · have other : ¬name = g := fun equal => asked equal.symm
        simp [lookup, same, asked, other]
    · have later : (lookup groups name).isSome := by simpa [lookup, List.find?_cons, same] using present
      by_cases here : group.1 = g
      · have apart : ¬g = name := fun equal => same (here.trans equal)
        simp [lookup, here, apart]
      · have step := ih later
        simpa [lookup, List.find?_cons, same, here] using step

theorem lookup_setGroup (groups : List (String × UInt64)) (name : String) (res : UInt64) (g : String) :
    lookup (setGroup groups name res) g = if g = name then some res else lookup groups g := by
  rw [setGroup]
  split
  next present => exact lookup_modify (by simpa [lookup] using present) res g
  next absent =>
    have missing : groups.find? (fun x => x.1 = name) = none := Option.not_isSome_iff_eq_none.mp absent
    rw [lookup, List.find?_append]
    by_cases asked : g = name
    · subst asked
      simp [missing]
    · have other : ¬name = g := fun equal => asked equal.symm
      simp [lookup, asked, other]

private theorem lookup_capture (tok : BitVec (8 * n)) {captures : List (String × BitVec (8 * n))} (distinct : (captures.map Prod.fst).Nodup)
    (groups : List (String × UInt64)) (g : String) : lookup (captures.foldl (capture tok) groups) g =
      (captures.find? fun x => x.1 = g).elim (lookup groups g) fun group =>
        some (captureBits tok group.2 ((lookup groups g).getD 0)) := by
  induction captures generalizing groups with
  | nil => rfl
  | cons group captures ih =>
    rw [List.map_cons, List.nodup_cons] at distinct
    rw [List.foldl_cons, ih distinct.2, List.find?_cons]
    by_cases same : group.1 = g
    · have absent : captures.find? (fun x => x.1 = g) = none := by
        rw [List.find?_eq_none]
        intro other member equal
        exact distinct.1 (same.trans (of_decide_eq_true equal).symm ▸ List.mem_map_of_mem member)
      rw [absent]
      simp only [same, decide_true]
      rw [capture, lookup_setGroup, if_pos same.symm, same]
      rfl
    · have kept : lookup (capture tok groups group) g = lookup groups g := by
        rw [capture, lookup_setGroup, if_neg fun equal => same equal.symm]
      simp only [same, decide_false, kept]

/-- The rule that these bits make. -/
structure Means (rule : Terminal n) (bits : List (Char × Option String)) : Prop where
  length : bits.length = 8 * n
  known : ∀ bit ∈ bits, isBit bit.1 = true
  mask : ∀ i < 8 * n, rule.mask.getMsbD i = (bits[i]?).any fun bit => bit.1 ≠ '.'
  pattern : ∀ i < 8 * n, rule.pattern.getMsbD i = (bits[i]?).any fun bit => bit.1 = '1'
  distinct : (rule.captureGroup.map Prod.fst).Nodup
  group : ∀ g mask, (g, mask) ∈ rule.captureGroup → mask ≠ 0 ∧
    ∀ i < 8 * n, mask.getMsbD i = (bits[i]?).any fun bit => bit.2 = some g
  complete : ∀ bit ∈ bits, ∀ g, bit.2 = some g → ∃ mask, (g, mask) ∈ rule.captureGroup

private theorem into_means {ε : Type} {order : Enumeration (String × BitVec (8 * n))} {self : String} {rule : Terminal n}
    (compiled : Terminal.into (ε := ε) order self = .returns rule) : Means rule (patternBits self) := by
  rw [Terminal.into, Outcome.bind_eq_returns] at compiled
  obtain ⟨r, finished, compiled⟩ := compiled
  have reads := Reads.start.fold finished
  rw [List.nil_append, tailBits_start] at reads
  split at compiled
  next => cases compiled
  next whole =>
    obtain rfl := Outcome.returns.inj compiled
    have length : (patternBits self).length = 8 * n := by
      have total := reads.length
      omega
    have stored : ∀ g mask, (g, mask) ∈ (order.list r.groups.toList).filter (fun x => x.2 ≠ 0) ↔
        r.groups[g]? = some mask ∧ mask ≠ 0 := by
      intro g mask
      rw [List.mem_filter, Enumeration.mem_list, Std.ExtTreeMap.mem_toList_iff_getElem?_eq_some, decide_eq_true_iff]
    constructor
    · exact length
    · exact reads.known
    · exact reads.mask
    · exact reads.pat
    · have keys : (r.groups.toList.map Prod.fst).Nodup := by
        rw [Std.ExtTreeMap.map_fst_toList_eq_keys]
        exact Std.ExtTreeMap.nodup_keys
      exact (((order.perm _).map Prod.fst).nodup_iff.mpr keys).sublist (List.filter_sublist.map _)
    · intro g mask member
      obtain ⟨found, filled⟩ := (stored g mask).mp member
      refine ⟨filled, fun i inside => ?_⟩
      rw [← reads.groups g i inside, found, Option.getD_some]
    · intro bit member g named
      obtain ⟨i, inside, here⟩ := List.mem_iff_getElem.mp member
      have set := reads.groups g i (length ▸ inside)
      rw [List.getElem?_eq_getElem inside, here, Option.any_some, named, decide_eq_true rfl] at set
      cases found : r.groups[g]? with
      | none => simp [found] at set
      | some mask =>
        refine ⟨mask, (stored g mask).mpr ⟨found, ?_⟩⟩
        rintro rfl
        simp [found] at set

theorem Means.matches_iff {rule : Terminal n} {bits : List (Char × Option String)} (means : Means rule bits) (tok : BitVec (8 * n)) :
    rule.mask &&& tok = rule.pattern ↔ ∀ i bit, bits[i]? = some bit → Agrees bit.1 (tok.getMsbD i) := by
  have place : ∀ i bit, bits[i]? = some bit → i < 8 * n ∧
      ((rule.mask &&& tok).getMsbD i = rule.pattern.getMsbD i ↔ Agrees bit.1 (tok.getMsbD i)) := by
    intro i bit here
    obtain ⟨inside, _⟩ := List.getElem?_eq_some_iff.mp here
    have known := means.known bit (List.mem_of_getElem? here)
    refine ⟨means.length ▸ inside, ?_⟩
    rw [BitVec.getMsbD_and, means.mask i (means.length ▸ inside), means.pattern i (means.length ▸ inside), here,
      Option.any_some, Option.any_some, Agrees]
    simp only [isBit, Bool.or_eq_true, decide_eq_true_eq] at known
    rcases known with (zero | one) | dot
    · simp [zero]
    · simp [one]
    · simp [dot]
  constructor
  · intro same i bit here
    exact (place i bit here).2.mp (by rw [same])
  · intro agree
    refine BitVec.eq_of_getMsbD_eq fun i inside => ?_
    obtain ⟨bit, here⟩ : ∃ bit, bits[i]? = some bit := ⟨_, List.getElem?_eq_getElem (means.length ▸ inside)⟩
    exact (place i bit here).2.mpr (agree i bit here)

private theorem zip_selected (bits : List (Char × Option String)) (g : String) (set tok : Nat → Bool) (k : Nat)
    (known : ∀ i < bits.length, set (k + i) = (bits[i]?).any fun bit => bit.2 = some g) :
    ((List.range' k bits.length).filterMap fun i => if set i then some (tok i) else none) =
      (bits.zip ((List.range' k bits.length).map tok)).filterMap fun bit => if bit.1.2 = some g then some bit.2 else none := by
  induction bits generalizing k with
  | nil => rfl
  | cons bit bits ih =>
    have first := known 0 (by simp)
    have later := ih (k + 1) fun i inside => by
      have next := known (i + 1) (by simpa using inside)
      rwa [Nat.add_right_comm k 1 i]
    rw [List.length_cons, List.range'_succ, List.filterMap_cons, List.map_cons, List.zip_cons_cons, List.filterMap_cons, later]
    simp only [Nat.add_zero, List.getElem?_cons_zero, Option.any_some] at first
    by_cases named : bit.2 = some g <;> simp [first, named]

theorem Means.captured {self : String} {rule : Terminal n} (means : Means rule (patternBits self)) (tok : BitVec (8 * n))
    (groups : List (String × UInt64)) (g : String) : lookup (rule.captureGroup.foldl (capture tok) groups) g =
      if groupBits self tok g = [] then lookup groups g
      else some (.ofNat (number ((lookup groups g).getD 0).toNat (groupBits self tok g))) := by
  rw [lookup_capture tok means.distinct]
  cases found : rule.captureGroup.find? fun x => x.1 = g with
  | some group =>
    have member := List.mem_of_find?_eq_some found
    have named : group.1 = g := by simpa using List.find?_some found
    obtain ⟨filled, known⟩ := means.group g group.2 (named ▸ member)
    have chosen : selected tok group.2 = groupBits self tok g := by
      have zipped := zip_selected (patternBits self) g group.2.getMsbD tok.getMsbD 0 fun i inside => by
        rw [Nat.zero_add]
        exact known i (means.length ▸ inside)
      rw [means.length, ← List.range_eq_range'] at zipped
      exact zipped
    have some : groupBits self tok g ≠ [] := by
      intro empty
      refine filled (BitVec.eq_of_getMsbD_eq fun i inside => ?_)
      rw [← chosen, selected, List.filterMap_eq_nil_iff] at empty
      have clear := empty i (List.mem_range.mpr inside)
      simpa using clear
    rw [if_neg some, ← chosen, Option.elim_some]
    congr 1
    apply UInt64.toNat_inj.mp
    rw [captureBits_eq, UInt64.toNat_ofNat']
  | none =>
    have empty : groupBits self tok g = [] := by
      rw [groupBits, List.filterMap_eq_nil_iff]
      intro bit member
      rw [if_neg]
      intro named
      obtain ⟨mask, stored⟩ := means.complete bit.1 (List.of_mem_zip member).1 g named
      exact absurd (List.find?_eq_none.mp found _ stored) (by simp)
    rw [if_pos empty]
    rfl

def matchAll : List (Terminal n × BitVec (8 * n)) → State n Configuration → Option (State n Configuration)
  | [], state => some state
  | (rule, tok) :: rest, state => (rule.matches tok state).bind (matchAll rest)

private theorem matchAll_captured (steps : List (String × Terminal n × BitVec (8 * n)))
    (means : ∀ step ∈ steps, Means step.2.1 (patternBits step.1)) {before after : State n Configuration}
    (matched : matchAll (steps.map Prod.snd) before = some after) (g : String) : lookup after.groups g =
      if steps.flatMap (fun step => groupBits step.1 step.2.2 g) = [] then lookup before.groups g
      else some (.ofNat (number ((lookup before.groups g).getD 0).toNat (steps.flatMap fun step => groupBits step.1 step.2.2 g))) := by
  induction steps generalizing before with
  | nil =>
    obtain rfl := Option.some.inj matched
    rfl
  | cons step steps ih =>
    rw [List.forall_mem_cons] at means
    rw [List.map_cons, matchAll, Option.bind_eq_some_iff] at matched
    obtain ⟨middle, first, matched⟩ := matched
    have here : lookup middle.groups g = if groupBits step.1 step.2.2 g = [] then lookup before.groups g
        else some (.ofNat (number ((lookup before.groups g).getD 0).toNat (groupBits step.1 step.2.2 g))) := by
      rw [← means.1.captured, Terminal.matches] at *
      split at first
      next =>
        obtain rfl := Option.some.inj first
        rfl
      next => cases first
    rw [ih means.2 matched, here, List.flatMap_cons]
    by_cases empty : groupBits step.1 step.2.2 g = []
    · rw [empty, List.nil_append, if_pos rfl]
    · by_cases rest : steps.flatMap (fun step => groupBits step.1 step.2.2 g) = []
      · simp [empty, rest]
      · simp only [empty, rest, if_false, List.append_eq_nil_iff, and_false, Option.getD_some, number_append]
        congr 1
        apply UInt64.toNat_inj.mp
        rw [UInt64.toNat_ofNat', UInt64.toNat_ofNat', UInt64.toNat_ofNat', number_mod]

/-- Bit patterns mean what they show, each alone and several of them on the tokens of a sequence. -/
theorem patterns_mean {ε : Type} (steps : List (String × Terminal n × BitVec (8 * n)))
    (compiled : ∀ step ∈ steps, ∃ order, Terminal.into (ε := ε) order step.1 = .returns step.2.1)
    (a : UInt64) (c : Configuration) :
    (∀ step ∈ steps, (bitChars step.1).length = 8 * n ∧ ∀ state : State n Configuration,
      (step.2.1.matches step.2.2 state).isSome ↔
        ∀ i c, (bitChars step.1)[i]? = some c → Agrees c (step.2.2.getMsbD i)) ∧
    ∀ after, matchAll (steps.map Prod.snd) (.new a c) = some after → ∀ g,
      let bits := steps.flatMap fun step => groupBits step.1 step.2.2 g
      (after.hasGroup g ↔ bits ≠ []) ∧ ∀ v, after.getGroup (ε := ε) g = .returns v →
        v.toNat = number 0 bits % 2 ^ 64 ∧ (bits.length ≤ 64 → v.toNat = number 0 bits) := by
  have means : ∀ step ∈ steps, Means step.2.1 (patternBits step.1) := by
    intro step member
    obtain ⟨order, into⟩ := compiled step member
    exact into_means into
  constructor
  · intro step member
    rw [← patternBits_chars, List.length_map]
    refine ⟨(means step member).length, fun state => ?_⟩
    have written : (∀ i c, ((patternBits step.1).map Prod.fst)[i]? = some c → Agrees c (step.2.2.getMsbD i)) ↔
        ∀ i bit, (patternBits step.1)[i]? = some bit → Agrees bit.1 (step.2.2.getMsbD i) := by
      simp only [List.getElem?_map, Option.map_eq_some_iff, forall_exists_index, and_imp, forall_apply_eq_imp_iff₂]
    rw [written, ← (means step member).matches_iff, Terminal.matches]
    split
    next holds => simp [holds]
    next fails => simp [fails]
  · intro after matched g bits
    have held := matchAll_captured steps means matched g
    have initial : lookup (State.new a c : State n Configuration).groups g = none := rfl
    rw [initial, Option.getD_none] at held
    constructor
    · have stored : after.hasGroup g = (lookup after.groups g).isSome := by simp [State.hasGroup, lookup]
      rw [stored, held]
      split
      next empty => simp [bits, empty]
      next some => simp [bits, some]
    · intro v found
      have value : lookup after.groups g = some v := Outcome.unwrap_eq_returns.mp found
      rw [held] at value
      split at value
      next => cases value
      next =>
        obtain rfl := Option.some.inj value
        have zero : (0 : UInt64).toNat = 0 := rfl
        rw [UInt64.toNat_ofNat', zero]
        refine ⟨rfl, fun short => Nat.mod_eq_of_lt ?_⟩
        have bound := number_lt bits 0 0 (by omega)
        rw [Nat.zero_add] at bound
        exact bound.trans_le (Nat.pow_le_pow_right (by omega) short)

/-- A group in two words of a token, one of which holds a fixed bit, and in the token behind it. -/
theorem patterns_mean_split :
    let rule : Terminal 1 := ⟨0b01110000, 0b00100000, [("k", 0b11001111)]⟩
    let tok : BitVec (8 * 1) := 0b10101010
    ((bitChars "k@.0 10 k@....").length = 8 * 1 ∧ ∀ state : State 1 Unit,
      (rule.matches tok state).isSome ↔
        ∀ i c, (bitChars "k@.0 10 k@....")[i]? = some c → Agrees c (tok.getMsbD i)) ∧
    ∀ v, (⟨0, [tok, 0b11110110], [("k", 0b1010100110)], [], [], 0, 0, ()⟩ : State 1 Unit).getGroup (ε := Unit) "k" = .returns v →
      v.toNat = 0b1010100110 := by
  intro rule tok
  let last : Terminal 1 := ⟨0b11110000, 0b11110000, [("k", 0b00001111)]⟩
  have meaning := @patterns_mean 1 Unit Unit [("k@.0 10 k@....", rule, tok), ("1111 k@....", last, 0b11110110)]
    (by simpa using ⟨⟨Enumeration.canonical, rfl⟩, Enumeration.canonical, rfl⟩) 0 ()
  have captured : rule.captureGroup.foldl (capture tok) [] = [("k", 0b101010)] := by decide
  have captured' : last.captureGroup.foldl (capture 0b11110110) [("k", 0b101010)] = [("k", 0b1010100110)] := by decide
  have matched : matchAll [(rule, tok), (last, 0b11110110)] (.new 0 ()) =
      some ⟨0, [tok, 0b11110110], [("k", 0b1010100110)], [], [], 0, 0, ()⟩ := by
    have agrees : rule.mask &&& tok = rule.pattern := by decide
    have agrees' : last.mask &&& 0b11110110 = last.pattern := by decide
    rw [matchAll, Terminal.matches, if_pos agrees, Option.bind_some, matchAll, Terminal.matches, if_pos agrees', ← captured']
    dsimp only
    rw [← captured]
    rfl
  refine ⟨meaning.1 _ List.mem_cons_self, fun v found => ?_⟩
  exact ((meaning.2 _ matched "k").2 v found).2 (by decide) |>.trans (by decide)

end Capture
end Panopticon.Disassembly
