import Panopticon.Proofs.Connect
import Panopticon.Proofs.Sweep
import Panopticon.Proofs.Worklist

/-! The graph assembled from the tables of a finished worklist. Which mnemonics share
a block is a property of the decoder, and every constant jump either joins two
vertices of the sweep or falls through inside one of them. -/

open Panopticon.Function

namespace Panopticon.Proofs.Layout
open Library Worklist Sweep Connect

variable {decode : UInt64 → Except String Match} {start : UInt64} {work : Worklist}

/-- A mnemonic the decoder returned for a reached address. -/
def Decoded (decode : UInt64 → Except String Match) (start : UInt64) (mne : Mnemonic) : Prop :=
  Reached decode start mne.area.start ∧
    ∃ matched, decode mne.area.start = .ok matched ∧ matched.mnemonics = [mne]

/-- `next` is entered only from `mne` and `mne` can go nowhere else by a constant jump. -/
structure FallsThrough (decode : UInt64 → Except String Match) (start : UInt64) (mne next : Mnemonic) : Prop where
  first : Decoded decode start mne
  second : Decoded decode start next
  adjacent : mne.area.stop = next.area.start
  outgoing : ∀ origin value size guard, (origin, .constant value size, guard) ∈ jumpsAt decode mne.area.start →
    value = next.area.start
  incoming : ∀ addr, Reached decode start addr → ∀ origin size guard,
    (origin, .constant next.area.start size, guard) ∈ jumpsAt decode addr → addr = mne.area.start
  inner : next.area.start ≠ start
  between : ∀ other, Decoded decode start other →
    ¬ (mne.area.start < other.area.start ∧ other.area.start < next.area.start)

theorem decoded_iff (single : SingleMnemonic decode) (mne : Mnemonic) :
    Decoded decode start mne ↔
      Reached decode start mne.area.start ∧ entryAt decode mne.area.start = .mnemonic mne := by
  refine and_congr_right fun _ => ?_
  cases decoded : decode mne.area.start with
  | error _ => simp [entryAt, decoded]
  | ok matched =>
    obtain ⟨other, mnemonics, _⟩ := single _ matched decoded
    simp [entryAt, decoded, mnemonics]

theorem FallsThrough.jump {mne next : Mnemonic} (falls : FallsThrough decode start mne next) :
    ∃ origin size guard, (origin, .constant next.area.start size, guard) ∈ jumpsAt decode mne.area.start := by
  -- the second mnemonic is not the start, so some jump has reached it
  generalize target : next.area.start = addr
  have reached := target ▸ falls.second.1
  cases reached with
  | start => exact absurd target falls.inner
  | @jump source matched origin _ size guard reached decoded member =>
    subst target
    have listed : (origin, .constant next.area.start size, guard) ∈ jumpsAt decode source := by
      simpa [jumpsAt, decoded] using member
    have same := falls.incoming source reached origin size guard listed
    subst same
    exact ⟨origin, size, guard, listed⟩

def entries (decode : UInt64 → Except String Match) (work : Worklist) : List MnemonicOrError :=
  work.mnemonics.toList.map fun entry => entryAt decode entry.1

theorem toList_eq (valid : Invariant decode start work) :
    work.mnemonics.toList.map Prod.snd = (entries decode work).map ([·]) := by
  rw [entries, List.map_map]
  apply List.map_congr_left
  rintro ⟨addr, found⟩ member
  exact (valid.entries addr found (Std.ExtTreeMap.mem_toList_iff_getElem?_eq_some.mp member)).1

theorem mem_entries (complete : Complete decode start work) (entry : MnemonicOrError) :
    entry ∈ entries decode work ↔ ∃ addr, Reached decode start addr ∧ entryAt decode addr = entry := by
  simp only [entries, List.mem_map, Prod.exists]
  constructor
  · rintro ⟨addr, found, member, same⟩
    exact ⟨addr, (complete.entries addr found (Std.ExtTreeMap.mem_toList_iff_getElem?_eq_some.mp member)).2, same⟩
  · rintro ⟨addr, reached, same⟩
    obtain ⟨found, value⟩ := Option.isSome_iff_exists.mp
      (Std.ExtTreeMap.isSome_getElem?_iff_mem.mpr ((complete.visited addr).mpr reached))
    exact ⟨addr, found, Std.ExtTreeMap.mem_toList_iff_getElem?_eq_some.mpr value, same⟩

theorem address_entryAt (single : SingleMnemonic decode) (addr : UInt64) : address (entryAt decode addr) = addr := by
  rcases single.entry addr with ⟨mne, entry, first, _⟩ | ⟨entry, _⟩
  · rw [entry]
    exact first
  · rw [entry]
    rfl

theorem mnemonic_mem (single : SingleMnemonic decode) (complete : Complete decode start work) (mne : Mnemonic) :
    .mnemonic mne ∈ entries decode work ↔ Decoded decode start mne := by
  rw [mem_entries complete, decoded_iff single]
  constructor
  · rintro ⟨addr, reached, same⟩
    have first := address_entryAt single addr
    rw [same] at first
    subst first
    exact ⟨reached, same⟩
  · rintro ⟨reached, same⟩
    exact ⟨_, reached, same⟩

private theorem error_mem (single : SingleMnemonic decode) (complete : Complete decode start work) (pos : UInt64)
    (msg : String) :
    .error pos msg ∈ entries decode work ↔ Reached decode start pos ∧ entryAt decode pos = .error pos msg := by
  rw [mem_entries complete]
  constructor
  · rintro ⟨addr, reached, same⟩
    have first := address_entryAt single addr
    rw [same] at first
    subst first
    exact ⟨reached, same⟩
  · rintro ⟨reached, same⟩
    exact ⟨_, reached, same⟩

theorem sorted (single : SingleMnemonic decode) (work : Worklist) : Sorted (entries decode work) := by
  constructor
  · have ordered := Std.ExtTreeMap.ordered_keys_toList (t := work.mnemonics)
    simp only [entries, List.map_map]
    rw [List.pairwise_map]
    refine ordered.imp fun less => ?_
    simp only [Function.comp_apply, address_entryAt single]
    exact Std.compare_eq_lt.mp less
  · intro mne member
    simp only [entries, List.mem_map, Prod.exists] at member
    obtain ⟨addr, _, _, same⟩ := member
    rcases single.entry addr with ⟨other, entry, first, positive⟩ | ⟨entry, _⟩
    · rw [entry] at same
      cases same
      exact first ▸ positive
    · rw [entry] at same
      cases same

theorem mem_valuesAt (valid : Invariant decode start work) (origin : UInt64) (tgt : Rvalue) (gu : Guard) :
    (tgt, gu) ∈ valuesAt work.bySource origin ↔
      origin ∈ work.mnemonics ∧ ∃ jump ∈ jumpsAt decode origin, jump.2 = (tgt, gu) := by
  simp only [valuesAt, valid.bySource]
  split <;> simp_all

theorem mem_jumps (single : SingleMnemonic decode) (complete : Complete decode start work)
    (order : Enumeration (UInt64 × List (Rvalue × Guard))) (origin : UInt64) (tgt : Rvalue) (gu : Guard) :
    (origin, tgt, gu) ∈ jumpList (order.list work.bySource.toList) ↔
      Reached decode start origin ∧ (origin, tgt, gu) ∈ jumpsAt decode origin := by
  rw [mem_jumpList, mem_valuesAt complete.toInvariant, complete.visited]
  refine and_congr_right fun _ => ?_
  constructor
  · rintro ⟨⟨origin', jump⟩, member, rfl⟩
    cases single.origin member
    exact member
  · intro member
    exact ⟨_, member, rfl⟩

theorem otherConstant_eq_false (jumps : List (Rvalue × Guard)) (addr : UInt64) :
    otherConstant jumps addr = false ↔ ∀ value size gu, (.constant value size, gu) ∈ jumps → value = addr := by
  simp only [otherConstant, List.any_eq_false]
  constructor
  · intro same value size gu member
    simpa using same _ member
  · rintro same ⟨tgt, gu⟩ member
    cases tgt with
    | constant value size => simpa using same value size gu member
    | undefined | var _ _ _ _ => simp

abbrev cut (work : Worklist) (start : UInt64) : Mnemonic → Mnemonic → Bool := newBb work.bySource work.byDestination start

theorem cut_adjacent (first second : Mnemonic) (joined : cut work start first second = false) :
    first.area.stop = second.area.start := by
  simp only [cut, newBb, Bool.or_eq_false_iff, bne_eq_false_iff_eq] at joined
  exact joined.1.1.1

theorem follows_iff_fallsThrough (single : SingleMnemonic decode) (complete : Complete decode start work)
    (mne next : Mnemonic) :
    Follows (cut work start) (entries decode work) mne next ↔ FallsThrough decode start mne next := by
  have neighbours := pair_infix_sorted (fun first second less => UInt64.lt_asymm less)
    (sorted single work).mnemonics mne next
  simp only [mem_mnemonics, mnemonic_mem single complete] at neighbours
  rw [Follows, neighbours]
  simp only [cut, newBb, Bool.or_eq_false_iff, bne_eq_false_iff_eq, beq_eq_false_iff_ne, otherConstant_eq_false,
    mem_valuesAt complete.toInvariant, complete.byDestination, complete.visited]
  constructor
  · rintro ⟨⟨first, second, less, between⟩, ⟨⟨adjacent, outgoing⟩, incoming⟩, inner⟩
    refine ⟨first, second, adjacent, ?_, ?_, inner, between⟩
    · intro origin value size guard member
      exact outgoing value size guard ⟨first.1, _, member, rfl⟩
    · intro addr reached origin size guard member
      have same := single.origin member
      subst same
      exact incoming _ _ guard (.inr ⟨_, reached, rfl, size, member⟩)
  · intro falls
    refine ⟨⟨falls.first, falls.second, ?_, falls.between⟩, ⟨⟨falls.adjacent, ?_⟩, ?_⟩, falls.inner⟩
    · have positive := (sorted single work).positive mne ((mnemonic_mem single complete mne).mpr falls.first)
      rwa [falls.adjacent] at positive
    · rintro value size guard ⟨-, ⟨origin, jump⟩, member, rfl⟩
      exact falls.outgoing origin value size guard member
    · rintro value size guard (⟨_, undefined, _⟩ | ⟨origin, reached, same, width, member⟩)
      · cases undefined
      · cases same
        exact falls.incoming _ reached _ width guard member

/-- The vertices the sweep places. -/
abbrev placed (decode : UInt64 → Except String Match) (start : UInt64) (work : Worklist) : List ControlFlowTarget :=
  pieces (cut work start) [] (entries decode work)

theorem ends_iff (single : SingleMnemonic decode) (complete : Complete decode start work) {mne : Mnemonic}
    (decoded : Decoded decode start mne) :
    (∃ lb ∈ placed decode start work, leaves mne.area.start lb = true) ↔
      ¬ ∃ next, FallsThrough decode start mne next := by
  rw [leaves_iff (sorted single work) ((mnemonic_mem single complete mne).mpr decoded)]
  simp only [follows_iff_fallsThrough single complete]

theorem begins_iff (single : SingleMnemonic decode) (complete : Complete decode start work) {mne : Mnemonic}
    (decoded : Decoded decode start mne) (size : Nat) :
    (∃ lb ∈ placed decode start work, enters (.constant mne.area.start size) lb = true) ↔
      ¬ ∃ prev, FallsThrough decode start prev mne := by
  rw [enters_iff cut_adjacent (sorted single work) ((mnemonic_mem single complete mne).mpr decoded)]
  simp only [follows_iff_fallsThrough single complete]

theorem leaves_block (single : SingleMnemonic decode) (complete : Complete decode start work) {mne : Mnemonic}
    (decoded : Decoded decode start mne) {lb : ControlFlowTarget} (member : lb ∈ placed decode start work)
    (leaving : leaves mne.area.start lb = true) :
    ∃ bb, lb = .resolved bb ∧ bb.mnemonics.getLast? = some mne := by
  have table := sorted single work
  have entry := (mnemonic_mem single complete mne).mpr decoded
  cases lb with
  | resolved bb =>
    cases final : bb.mnemonics.getLast? with
    | none => simp [leaves, final] at leaving
    | some last =>
      simp only [leaves, final, Option.map_some, Option.getD_some, beq_iff_eq] at leaving
      cases table.unique (block_member member (List.mem_of_getLast? final)) entry leaving
      exact ⟨bb, rfl, final⟩
  | failed pos msg =>
    have error := (failed_mem_pieces [] _ _ _).mp member
    cases table.unique error entry (beq_iff_eq.mp leaving)
  | unresolved target => exact absurd member (unresolved_notMem_pieces [] _ target)

theorem jump_decoded (single : SingleMnemonic decode) {origin : UInt64} {jump : Jump}
    (reached : Reached decode start origin) (member : jump ∈ jumpsAt decode origin) :
    ∃ mne, Decoded decode start mne ∧ mne.area.start = origin := by
  rcases single.entry origin with ⟨mne, entry, rfl, _⟩ | ⟨_, none⟩
  · exact ⟨mne, (decoded_iff single mne).mpr ⟨reached, entry⟩, rfl⟩
  · rw [none] at member
    cases member

theorem fits (single : SingleMnemonic decode) (complete : Complete decode start work)
    (order : Enumeration (UInt64 × List (Rvalue × Guard))) :
    Fits (placed decode start work) (jumpList (order.list work.bySource.toList)) := by
  have table := sorted single work
  refine ⟨fun target => unresolved_notMem_pieces [] _ target, ?_, ?_, ?_⟩
  · intro origin first second member member' leaving leaving'
    exact table.vertex_unique member member' (leaves_address member leaving) (leaves_address member' leaving')
  · intro value size first second member member' entering entering'
    exact table.vertex_unique member member' (enters_address cut_adjacent table member entering)
      (enters_address cut_adjacent table member' entering')
  · intro origin value size gu jump
    obtain ⟨reached, member⟩ := (mem_jumps single complete order _ _ _).mp jump
    obtain ⟨mne, decoded, rfl⟩ := jump_decoded single reached member
    rw [ends_iff single complete decoded]
    have target := reached.target member
    rcases single.entry value with ⟨next, entry, rfl, _⟩ | ⟨entry, _⟩
    · have decoded' := (decoded_iff single next).mpr ⟨target, entry⟩
      rw [begins_iff single complete decoded', not_iff_not]
      constructor
      · rintro ⟨other, falls⟩
        have same := falls.outgoing _ _ _ _ member
        cases (table.unique ((mnemonic_mem single complete next).mpr decoded')
          ((mnemonic_mem single complete other).mpr falls.second) same)
        exact ⟨mne, falls⟩
      · rintro ⟨other, falls⟩
        have same := falls.incoming _ reached _ _ _ member
        cases (table.unique ((mnemonic_mem single complete mne).mpr decoded)
          ((mnemonic_mem single complete other).mpr falls.first) same)
        exact ⟨next, falls⟩
    · -- a failed target has its own vertex, and nothing falls into it
      have failed : .failed value "Unrecognized instruction" ∈ placed decode start work :=
        (failed_mem_pieces [] _ _ _).mpr ((error_mem single complete _ _).mpr ⟨target, entry⟩)
      refine iff_of_true ?_ ⟨_, failed, by simp [enters]⟩
      rintro ⟨next, falls⟩
      have same := falls.outgoing _ _ _ _ member
      obtain ⟨_, entry'⟩ := (decoded_iff single next).mp falls.second
      rw [← same, entry] at entry'
      cases entry'

end Panopticon.Proofs.Layout
