import Mathlib

/-! Maps from keys to lists of values, filled by appending. -/

namespace Panopticon.Library

/-- `map.entry(key).or_insert(Vec::new()).push(value)`. -/
def push {K V : Type} [Ord K] [Std.TransOrd K] (map : Std.ExtTreeMap K (List V)) (key : K) (value : V) :
    Std.ExtTreeMap K (List V) :=
  map.alter key fun old => some (old.getD [] ++ [value])

/-- The values kept under a key; a missing key has none. -/
def valuesAt {K V : Type} [Ord K] [Std.TransOrd K] (map : Std.ExtTreeMap K (List V)) (key : K) : List V :=
  map[key]?.getD []

@[simp] theorem valuesAt_empty {K V : Type} [Ord K] [Std.TransOrd K] (key : K) :
    valuesAt (∅ : Std.ExtTreeMap K (List V)) key = [] := by
  simp [valuesAt]

variable {K V : Type} [Ord K] [Std.TransOrd K] [Std.LawfulEqOrd K] [DecidableEq K]

theorem getElem?_push (map : Std.ExtTreeMap K (List V)) (key other : K) (value : V) :
    (push map key value)[other]? =
      if key = other then some (map[other]?.getD [] ++ [value]) else map[other]? := by
  simp only [push, Std.ExtTreeMap.getElem?_alter, Std.LawfulEqCmp.compare_eq_iff_eq]
  split
  next same => subst other; rfl
  next => rfl

theorem valuesAt_push (map : Std.ExtTreeMap K (List V)) (key other : K) (value : V) :
    valuesAt (push map key value) other = valuesAt map other ++ if key = other then [value] else [] := by
  simp only [valuesAt, getElem?_push]
  split <;> simp

theorem mem_push (map : Std.ExtTreeMap K (List V)) (key other : K) (value : V) :
    other ∈ push map key value ↔ other = key ∨ other ∈ map := by
  simp only [← Std.ExtTreeMap.isSome_getElem?_iff_mem, getElem?_push]
  split
  next same => simp [same]
  next different => simp [Ne.symm different]

theorem getElem?_foldl_insert {K V : Type} [Ord K] [Std.TransOrd K] [Std.LawfulEqOrd K] [DecidableEq K] (keys : List K)
    (value : V) (map : Std.ExtTreeMap K V) (key : K) :
    (keys.foldl (fun map key => map.insert key value) map)[key]? = if key ∈ keys then some value else map[key]? := by
  induction keys generalizing map with
  | nil => simp
  | cons first keys ih =>
    rw [List.foldl_cons, ih, Std.ExtTreeMap.getElem?_insert]
    simp only [Std.LawfulEqCmp.compare_eq_iff_eq, List.mem_cons]
    by_cases later : key ∈ keys
    · simp [later]
    · simp [later, eq_comm]

/-- Appending several entries, each under its own key. -/
def pushAll (map : Std.ExtTreeMap K (List V)) (entries : List (K × V)) : Std.ExtTreeMap K (List V) :=
  entries.foldl (fun map entry => push map entry.1 entry.2) map

omit [Std.LawfulEqOrd K] [DecidableEq K] in
theorem pushAll_append (map : Std.ExtTreeMap K (List V)) (first second : List (K × V)) :
    pushAll map (first ++ second) = pushAll (pushAll map first) second := List.foldl_append

theorem valuesAt_pushAll (map : Std.ExtTreeMap K (List V)) (entries : List (K × V)) (key : K) :
    valuesAt (pushAll map entries) key =
      valuesAt map key ++ (entries.filter fun entry => entry.1 = key).map Prod.snd := by
  induction entries generalizing map with
  | nil => simp [pushAll]
  | cons entry entries ih =>
    have rest := ih (push map entry.1 entry.2)
    rw [pushAll, List.foldl_cons]
    rw [pushAll] at rest
    rw [rest, valuesAt_push, List.filter_cons]
    by_cases same : entry.1 = key <;> simp [same]

theorem mem_valuesAt_pushAll (entries : List (K × V)) (key : K) (value : V) :
    value ∈ valuesAt (pushAll ∅ entries) key ↔ (key, value) ∈ entries := by
  simp [valuesAt_pushAll]

theorem mem_pushAll (map : Std.ExtTreeMap K (List V)) (entries : List (K × V)) (key : K) :
    key ∈ pushAll map entries ↔ key ∈ map ∨ ∃ value, (key, value) ∈ entries := by
  induction entries generalizing map with
  | nil => simp [pushAll]
  | cons entry entries ih =>
    have rest := ih (push map entry.1 entry.2)
    rw [pushAll] at rest
    rw [pushAll, List.foldl_cons, rest, mem_push]
    obtain ⟨first, value⟩ := entry
    simp only [List.mem_cons, Prod.mk.injEq]
    grind

omit [Std.LawfulEqOrd K] [DecidableEq K] in
theorem getElem?_of_mem {map : Std.ExtTreeMap K (List V)} {key : K} (member : key ∈ map) :
    map[key]? = some (valuesAt map key) := by
  obtain ⟨values, found⟩ := Option.isSome_iff_exists.mp (Std.ExtTreeMap.isSome_getElem?_iff_mem.mpr member)
  simp [valuesAt, found]

theorem valuesAt_pushAll_of_nodup {entries : List (K × V)} (distinct : (entries.map Prod.fst).Nodup) {key : K}
    {value : V} (member : (key, value) ∈ entries) : valuesAt (pushAll ∅ entries) key = [value] := by
  rw [valuesAt_pushAll, valuesAt_empty, List.nil_append]
  induction entries with
  | nil => cases member
  | cons entry entries ih =>
    rw [List.map_cons, List.nodup_cons] at distinct
    rw [List.filter_cons]
    rcases List.mem_cons.mp member with rfl | member
    · have alone : entries.filter (fun entry => entry.1 = key) = [] := by
        simp only [List.filter_eq_nil_iff, decide_eq_true_eq]
        intro other inside same
        exact distinct.1 (List.mem_map.mpr ⟨other, inside, same⟩)
      simp [alone]
    · have different : entry.1 ≠ key := by
        intro same
        exact distinct.1 (List.mem_map.mpr ⟨_, member, same.symm⟩)
      simpa [different] using ih distinct.2 member

/-- All entries of a map, each value with its key. -/
def flatten (entries : List (K × List V)) : List (K × V) :=
  entries.flatMap fun entry => entry.2.map fun value => (entry.1, value)

private theorem count_flatten [DecidableEq V] (entries : List (K × List V))
    (distinct : (entries.map Prod.fst).Nodup) (key : K) (value : V) :
    (flatten entries).count (key, value) = ((entries.lookup key).getD []).count value := by
  induction entries with
  | nil => simp [flatten]
  | cons entry entries ih =>
    obtain ⟨first, values⟩ := entry
    rw [List.map_cons, List.nodup_cons] at distinct
    rw [flatten, List.flatMap_cons, List.count_append]
    rw [flatten] at ih
    rw [ih distinct.2]
    by_cases same : key = first
    · subst first
      have absent : entries.lookup key = none := by
        simp only [List.lookup_eq_none_iff]
        intro entry member
        simp only [bne_iff_ne]
        intro same
        exact distinct.1 (List.mem_map.mpr ⟨entry, member, same.symm⟩)
      have here : (values.map fun value => (key, value)).count (key, value) = values.count value :=
        List.count_map_of_injective _ _ (fun _ _ equal => (Prod.mk.inj equal).2) value
      simp [absent, here]
    · have other : (values.map fun value => (first, value)).count (key, value) = 0 := by
        rw [List.count_eq_zero]
        intro member
        obtain ⟨_, _, equal⟩ := List.mem_map.mp member
        exact same (Prod.mk.inj equal).1.symm
      have skipped : (key == first) = false := by simpa using same
      simp [other, List.lookup_cons, skipped]

private theorem lookup_toList (map : Std.ExtTreeMap K (List V)) (key : K) :
    map.toList.lookup key = map[key]? := by
  cases found : map.toList.lookup key with
  | some values =>
    obtain ⟨before, after, split, _⟩ := List.lookup_eq_some_iff.mp found
    exact (Std.ExtTreeMap.mem_toList_iff_getElem?_eq_some.mp (by simp [split])).symm
  | none =>
    cases stored : map[key]? with
    | none => rfl
    | some values =>
      have member := Std.ExtTreeMap.mem_toList_iff_getElem?_eq_some.mpr stored
      have different := List.lookup_eq_none_iff.mp found _ member
      simp at different

theorem flatten_pushAll [DecidableEq V] (entries : List (K × V)) :
    (flatten (pushAll ∅ entries).toList).Perm entries := by
  rw [List.perm_iff_count]
  rintro ⟨key, value⟩
  have distinct : ((pushAll ∅ entries).toList.map Prod.fst).Nodup := by
    rw [Std.ExtTreeMap.map_fst_toList_eq_keys]
    exact Std.ExtTreeMap.nodup_keys
  have values := valuesAt_pushAll ∅ entries key
  rw [valuesAt_empty, List.nil_append, valuesAt] at values
  rw [count_flatten _ distinct, lookup_toList, values]
  clear values distinct
  induction entries with
  | nil => simp
  | cons entry entries ih =>
    obtain ⟨first, other⟩ := entry
    rw [List.filter_cons, List.count_cons]
    by_cases same : first = key
    · subst first
      simp [ih, List.count_cons]
    · simp [same, ih]

omit [Ord K] [Std.TransOrd K] [Std.LawfulEqOrd K] [DecidableEq K] in
theorem flatten_perm {first second : List (K × List V)} (perm : first.Perm second) :
    (flatten first).Perm (flatten second) := perm.flatMap_right _

end Panopticon.Library
