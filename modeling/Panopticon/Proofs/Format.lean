import Panopticon.Format

/-! What the parser of format strings accepts, against the grammar. The closing brace of a
variable is the only character it does not look at. -/

namespace Panopticon.Proofs.Format
open MnemonicFormatToken

/-- The texts of the grammar and the tokens they stand for. -/
inductive Item : List Char → MnemonicFormatToken → Prop
  | literal {a : Char} : a ≠ '{' → Item [a] (.literal a)
  | brace : Item ['{', '{'] (.literal '{')
  | unsigned : Item ['{', 'u', '}'] (.var false)
  | signed : Item ['{', 's', '}'] (.var true)
  | data {bank : List Char} : '}' ∉ bank → Item ('{' :: 'p' :: ':' :: (bank ++ ['}'])) (.pointer false (.ofList bank))
  | code {bank : List Char} : '}' ∉ bank → Item ('{' :: 'c' :: ':' :: (bank ++ ['}'])) (.pointer true (.ofList bank))

/-- A concatenation of such texts. -/
inductive Formatted : List Char → List MnemonicFormatToken → Prop
  | nil : Formatted [] []
  | cons {u s : List Char} {t : MnemonicFormatToken} {ts : List MnemonicFormatToken} :
      Item u t → Formatted s ts → Formatted (u ++ s) (t :: ts)

def sign (hasSign : Bool) : Char := if hasSign then 's' else 'u'

/-- What the parser takes: besides the texts of the grammar variables with another character in the place of the
brace or, at the end, with none. `closed` says that there are no such variables. -/
inductive Taken : (closed : Bool) → List Char → List MnemonicFormatToken → Prop
  | nil : Taken true [] []
  | cons {closed : Bool} {u s : List Char} {t : MnemonicFormatToken} {ts : List MnemonicFormatToken} :
      Item u t → Taken closed s ts → Taken closed (u ++ s) (t :: ts)
  | stray {closed hasSign : Bool} {c : Char} {s : List Char} {ts : List MnemonicFormatToken} :
      c ≠ '}' → Taken closed s ts → Taken false ('{' :: sign hasSign :: c :: s) (.var hasSign :: ts)
  | cut {hasSign : Bool} : Taken false ['{', sign hasSign] [.var hasSign]

private theorem taken_true_iff {s : List Char} {ts : List MnemonicFormatToken} : Taken true s ts ↔ Formatted s ts := by
  constructor
  · intro taken
    generalize same : true = closed at taken
    induction taken with
    | nil => exact .nil
    | cons item _ ih => exact .cons item (ih same)
    | stray => cases same
    | cut => cases same
  · intro formatted
    induction formatted with
    | nil => exact .nil
    | cons item _ ih => exact .cons item ih

theorem parseBank_name {bank k : List Char} (free : '}' ∉ bank) :
    parseBank (':' :: (bank ++ '}' :: k)) = .ok (.ofList bank, k) := by
  have position : (bank ++ '}' :: k).findIdx? (· == '}') = some bank.length := by
    rw [List.findIdx?_append, List.findIdx?_eq_none_iff.mpr]
    · simp [List.findIdx?_cons]
    · intro c member
      have other : c ≠ '}' := fun same => free (same ▸ member)
      simp [other]
  simp [parseBank, position]

theorem parseBank_ok {j k : List Char} {name : String} (parsed : parseBank j = .ok (name, k)) :
    ∃ bank, '}' ∉ bank ∧ name = .ofList bank ∧ j = ':' :: (bank ++ '}' :: k) := by
  unfold parseBank at parsed
  split at parsed
  · next i =>
    split at parsed
    · next p position =>
      cases parsed
      obtain ⟨inside, found, before⟩ := List.findIdx?_eq_some_iff_getElem.mp position
      refine ⟨i.take p, ?_, rfl, ?_⟩
      · intro member
        obtain ⟨q, less, same⟩ := List.mem_iff_getElem.mp member
        rw [List.length_take] at less
        exact before q (by omega) (by simpa using same)
      · have brace : i[p] = '}' := by simpa using found
        rw [← brace, List.getElem_cons_drop, List.take_append_drop]
    · cases parsed
  · cases parsed

private theorem parse_item {u s : List Char} {t : MnemonicFormatToken} {ts : List MnemonicFormatToken} (item : Item u t)
    (rest : parse s = .ok ts) : parse (u ++ s) = .ok (t :: ts) := by
  cases item with
  | literal other =>
    rw [List.singleton_append, parse_literal other, rest]
    rfl
  | brace => simp [parse, rest, bind, Except.bind, pure, Except.pure]
  | unsigned => simp [parse, rest, bind, Except.bind, pure, Except.pure]
  | signed => simp [parse, rest, bind, Except.bind, pure, Except.pure]
  | data free => simp [parse_data, parseBank_name free, rest, bind, Except.bind, pure, Except.pure]
  | code free => simp [parse_code, parseBank_name free, rest, bind, Except.bind, pure, Except.pure]

theorem parse_of_taken {closed : Bool} {s : List Char} {ts : List MnemonicFormatToken} (taken : Taken closed s ts) :
    parse s = .ok ts := by
  induction taken with
  | nil => simp [parse]
  | cons item _ ih => exact parse_item item ih
  | @stray _ hasSign _ _ _ _ _ ih => cases hasSign <;> simp [sign, parse, ih, bind, Except.bind, pure, Except.pure]
  | @cut hasSign => cases hasSign <;> simp [sign, parse, bind, Except.bind, pure, Except.pure]

theorem parse_bind {x : Except String (List MnemonicFormatToken)} {t : MnemonicFormatToken} {ts : List MnemonicFormatToken}
    (parsed : (do return t :: (← x)) = Except.ok (ε := String) ts) : ∃ rest, x = .ok rest ∧ ts = t :: rest := by
  cases x with
  | error message => cases parsed
  | ok rest =>
    cases parsed
    exact ⟨rest, rfl, rfl⟩

theorem taken_cons {u s : List Char} {t : MnemonicFormatToken} {ts : List MnemonicFormatToken} (item : Item u t)
    (taken : ∃ closed, Taken closed s ts) : ∃ closed, Taken closed (u ++ s) (t :: ts) :=
  taken.imp fun _ taken => taken.cons item

/-- What stands behind the letter of a variable is its brace, another character or nothing. -/
theorem taken_var {hasSign : Bool} (item : Item ['{', sign hasSign, '}'] (.var hasSign)) {j : List Char}
    {ts : List MnemonicFormatToken} (taken : ∃ closed, Taken closed j.tail ts) (parsed : parse j.tail = .ok ts) :
    ∃ closed, Taken closed ('{' :: sign hasSign :: j) (.var hasSign :: ts) := by
  cases j with
  | nil =>
    simp only [List.tail_nil, parse, Except.ok.injEq] at parsed
    subst parsed
    exact ⟨false, .cut⟩
  | cons c j =>
    by_cases brace : c = '}'
    · subst c
      exact taken_cons item taken
    · obtain ⟨closed, taken⟩ := taken
      exact ⟨false, .stray brace taken⟩

private theorem taken_of_parse {s : List Char} {ts : List MnemonicFormatToken} (parsed : parse s = .ok ts) :
    ∃ closed, Taken closed s ts := by
  induction s using parse.induct generalizing ts with
  | case1 =>
    simp only [parse, Except.ok.injEq] at parsed
    subst parsed
    exact ⟨true, .nil⟩
  | case2 j ih =>
    rw [parse] at parsed
    obtain ⟨rest, known, rfl⟩ := parse_bind parsed
    exact taken_cons .brace (ih known)
  | case3 j ih =>
    rw [parse] at parsed
    obtain ⟨rest, known, rfl⟩ := parse_bind parsed
    have item : Item ['{', sign false, '}'] (.var false) := .unsigned
    exact taken_var item (ih known) known
  | case4 j ih =>
    rw [parse] at parsed
    obtain ⟨rest, known, rfl⟩ := parse_bind parsed
    have item : Item ['{', sign true, '}'] (.var true) := .signed
    exact taken_var item (ih known) known
  | case5 j name k found ih =>
    rw [parse_data, found] at parsed
    obtain ⟨rest, known, rfl⟩ := parse_bind parsed
    obtain ⟨bank, free, rfl, rfl⟩ := parseBank_ok found
    simpa using taken_cons (.data free) (ih known)
  | case6 j message found =>
    rw [parse_data, found] at parsed
    cases parsed
  | case7 j name k found ih =>
    rw [parse_code, found] at parsed
    obtain ⟨rest, known, rfl⟩ := parse_bind parsed
    obtain ⟨bank, free, rfl, rfl⟩ := parseBank_ok found
    simpa using taken_cons (.code free) (ih known)
  | case8 j message found =>
    rw [parse_code, found] at parsed
    cases parsed
  | case9 j brace unsigned signed data code =>
    rw [parse.eq_7 j brace unsigned signed data code] at parsed
    cases parsed
  | case10 a j _ _ _ _ _ other ih =>
    rw [parse_literal other] at parsed
    obtain ⟨rest, known, rfl⟩ := parse_bind parsed
    exact taken_cons (.literal other) (ih known)

theorem name_unique {bank bank' s s' : List Char} (free : '}' ∉ bank) (free' : '}' ∉ bank')
    (same : bank ++ '}' :: s = bank' ++ '}' :: s') : bank = bank' ∧ s = s' := by
  have first := parseBank_name (k := s) free
  rw [same, parseBank_name free'] at first
  simp only [Except.ok.injEq, Prod.mk.injEq, String.ofList_inj] at first
  exact ⟨first.1.symm, first.2.symm⟩

theorem Item.ne_nil {u : List Char} {t : MnemonicFormatToken} (item : Item u t) : u ≠ [] := by
  cases item <;> simp

theorem Item.unique {u u' s s' : List Char} {t t' : MnemonicFormatToken} (item : Item u t) (item' : Item u' t')
    (same : u ++ s = u' ++ s') : s = s' := by
  cases item with
  | literal other => cases item' <;> simp_all
  | brace => cases item' <;> grind
  | unsigned => cases item' <;> grind
  | signed => cases item' <;> grind
  | data free =>
    cases item' with
    | data free' => exact (name_unique free free' (by simpa using same)).2
    | literal other => grind
    | _ => simp at same
  | code free =>
    cases item' with
    | code free' => exact (name_unique free free' (by simpa using same)).2
    | literal other => grind
    | _ => simp at same

theorem Item.closed {hasSign : Bool} {u s j : List Char} {t : MnemonicFormatToken} (item : Item u t)
    (same : '{' :: sign hasSign :: j = u ++ s) : j = '}' :: s := by
  cases hasSign <;> cases item <;> grind [sign]

theorem not_formatted {s : List Char} {ts ts' : List MnemonicFormatToken} (taken : Taken false s ts) : ¬Formatted s ts' := by
  generalize same : false = closed at taken
  induction taken generalizing ts' with
  | nil => cases same
  | @cons closed u s t ts item _ ih =>
    intro formatted
    generalize text : u ++ s = whole at formatted
    cases formatted with
    | nil => exact item.ne_nil (List.append_eq_nil_iff.mp text).1
    | cons item' rest => exact ih same (item.unique item' text ▸ rest)
  | @stray closed hasSign c s ts other _ _ =>
    intro formatted
    generalize text : '{' :: sign hasSign :: c :: s = whole at formatted
    cases formatted with
    | nil => cases text
    | cons item _ => exact other (List.cons.inj (item.closed text)).1
  | @cut hasSign =>
    intro formatted
    generalize text : ['{', sign hasSign] = whole at formatted
    cases formatted with
    | nil => cases text
    | cons item _ => cases item.closed text

/-- The parser accepts the grammar exactly on the strings in which no variable it takes lacks its brace. -/
theorem parse_iff (s : List Char) :
    (∀ ts, parse s = .ok ts ↔ Formatted s ts) ↔ ¬∃ ts, Taken false s ts := by
  constructor
  · intro right holds
    obtain ⟨ts, taken⟩ := holds
    exact not_formatted taken ((right ts).mp (parse_of_taken taken))
  · intro closed ts
    rw [← taken_true_iff]
    constructor
    · intro parsed
      obtain ⟨tidy, taken⟩ := taken_of_parse parsed
      cases tidy with
      | true => exact taken
      | false => exact absurd ⟨ts, taken⟩ closed
    · exact parse_of_taken

/-- A variable without its brace is accepted. -/
theorem not_parse_formatted : parse ['{', 'u', 'x'] = .ok [.var false] ∧ ∀ ts, ¬Formatted ['{', 'u', 'x'] ts := by
  have taken : Taken false ['{', sign false, 'x'] [.var false] := .stray (by decide) .nil
  exact ⟨parse_of_taken taken, fun _ => not_formatted taken⟩

end Panopticon.Proofs.Format
