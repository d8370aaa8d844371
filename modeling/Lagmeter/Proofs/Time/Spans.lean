import Lagmeter.Proofs.Number.Rounding
import Lagmeter.Time.Span
import Mathlib.Data.List.TakeWhile

/-!
# Texts of spans

A span is spelled by a number and an ending, which is a unit or nothing. No number ends with a letter of a
unit, so a text is cut into a number and an ending in one way only, although one ending is the end of
another. The first ending that fits is the right one, and nothing is lost by not trying the others.
-/

namespace Lagmeter

/-! ## How numerals end -/

/-- What a numeral may end with: a digit, the point, or the last letter of a word for a number that is
not finite. -/
def closesNumeral (c : Char) : Bool :=
  c.isDigit || c = '.' || c.toLower = 'f' || c.toLower = 'y' || c.toLower = 'n'

/-- A text that ends like a numeral, or is empty. -/
def Closed (cs : List Char) : Prop := ∀ c ∈ cs.getLast?, closesNumeral c = true

section

variable {a b cs : List Char} {x : Double}

theorem Closed.append (ha : Closed a) (hb : Closed b) : Closed (a ++ b) := by
  intro c hc
  rw [List.getLast?_append, Option.mem_def, Option.or_eq_some_iff] at hc
  rcases hc with hc | ⟨_, hc⟩
  · exact hb c hc
  · exact ha c hc

theorem Closed.after (hb : Closed b) (hne : b ≠ []) (a : List Char) : Closed (a ++ b) := by
  intro c hc
  rw [List.getLast?_append_of_ne_nil _ hne] at hc
  exact hb c hc

theorem closed_of_digits (h : cs.all Char.isDigit = true) : Closed cs := by
  intro c hc
  simp [closesNumeral, List.all_eq_true.mp h c (List.mem_of_getLast? hc)]

theorem digitRun_append (cs : List Char) : (digitRun cs).1 ++ (digitRun cs).2 = cs :=
  List.takeWhile_append_dropWhile

theorem closed_digitRun (cs : List Char) : Closed (digitRun cs).1 := closed_of_digits List.all_takeWhile

theorem closed_of_readWhole? {n : Nat} (h : readWhole? cs = some n) : Closed cs ∧ cs ≠ [] := by
  have hdigits : ∀ ds : List Char, ds ≠ [] ∧ ds.all Char.isDigit = true → Closed ds ∧ ds ≠ [] :=
    fun ds hds => ⟨closed_of_digits hds.2, hds.1⟩
  unfold readWhole? at h
  dsimp only at h
  split at h
  case h_1 rest =>
    split at h
    case isTrue hds =>
      obtain ⟨hclosed, hne⟩ := hdigits _ hds
      exact ⟨hclosed.after hne ['+'], by simp⟩
    case isFalse => cases h
  case h_2 =>
    split at h
    case isTrue hds => exact hdigits _ hds
    case isFalse => cases h

theorem closed_of_readPower? {p : Int} (h : readPower? cs = some p) : Closed cs := by
  unfold readPower? at h
  split at h
  case h_1 => exact closed_of_digits rfl
  case h_2 e rest =>
    split at h
    case isTrue =>
      split at h
      case h_1 ds =>
        split at h
        case isTrue hds => exact (closed_of_digits hds.2).after hds.1 [e, '-']
        case isFalse => cases h
      case h_2 =>
        obtain ⟨n, hn, -⟩ := Option.map_eq_some_iff.mp h
        obtain ⟨hclosed, hne⟩ := closed_of_readWhole? hn
        exact hclosed.after hne [e]
    case isFalse => cases h

theorem fractionRun_closed (cs : List Char) : ∃ a, Closed a ∧ a ++ (fractionRun cs).2 = cs := by
  unfold fractionRun
  split
  case h_1 rest =>
    have hpoint : Closed ['.'] := by
      intro c hc
      obtain rfl : '.' = c := by simpa using hc
      rfl
    exact ⟨'.' :: (digitRun rest).1, hpoint.append (closed_digitRun rest), by
      rw [List.cons_append, digitRun_append]⟩
  case h_2 => exact ⟨[], closed_of_digits rfl, rfl⟩

theorem closed_of_readMagnitude? (h : readMagnitude? cs = some x) : Closed cs := by
  unfold readMagnitude? at h
  obtain ⟨a, ha, hrest⟩ := fractionRun_closed (digitRun cs).2
  dsimp only at h
  split at h
  case isTrue => cases h
  case isFalse =>
    obtain ⟨p, hp, -⟩ := Option.map_eq_some_iff.mp h
    rw [← digitRun_append cs, ← hrest]
    exact (closed_digitRun cs).append (ha.append (closed_of_readPower? hp))

theorem closed_of_readWord? (h : readWord? cs = some x) : Closed cs ∧ cs ≠ [] := by
  have hlast : ∀ word : String, String.ofList (cs.map Char.toLower) = word →
      cs.getLast?.map Char.toLower = word.toList.getLast? := by
    rintro word rfl
    rw [String.toList_ofList, List.getLast?_map]
  have hclosed : ∀ l, (l = 'f' ∨ l = 'y' ∨ l = 'n') → cs.getLast?.map Char.toLower = some l →
      Closed cs ∧ cs ≠ [] := by
    intro l hl hmap
    obtain ⟨c, hc, rfl⟩ := Option.map_eq_some_iff.mp hmap
    refine ⟨fun d hd => ?_, fun hnil => by simp [hnil] at hc⟩
    obtain rfl : c = d := Option.some.inj (hc.symm.trans hd)
    rcases hl with hl | hl | hl <;> simp [closesNumeral, hl]
  unfold readWord? at h
  dsimp only at h
  split at h
  case isTrue hword =>
    rcases hword with hword | hword
    · exact hclosed 'f' (by decide) (hlast _ hword)
    · exact hclosed 'y' (by decide) (hlast _ hword)
  case isFalse =>
    split at h
    case isTrue hword => exact hclosed 'n' (by decide) (hlast _ hword)
    case isFalse => cases h

theorem closed_of_readNumeral? (h : readNumeral? cs = some x) : Closed cs := by
  have hunsigned : ∀ ds y, (readWord? ds <|> readMagnitude? ds) = some y → Closed ds ∧ ds ≠ [] := by
    intro ds y hy
    cases hword : readWord? ds with
    | some z => exact closed_of_readWord? hword
    | none =>
      rw [hword] at hy
      refine ⟨closed_of_readMagnitude? hy, ?_⟩
      rintro rfl
      cases hy
  unfold readNumeral? at h
  dsimp only at h
  split at h
  case h_1 rest =>
    obtain ⟨y, hy, -⟩ := Option.map_eq_some_iff.mp h
    obtain ⟨hclosed, hne⟩ := hunsigned _ _ hy
    exact hclosed.after hne ['-']
  case h_2 rest =>
    obtain ⟨hclosed, hne⟩ := hunsigned _ _ h
    exact hclosed.after hne ['+']
  case h_3 => exact (hunsigned _ _ h).1

end

/-! ## Blanks -/

section

variable {before after : List Char}

theorem trimBlanks_append (hbefore : ∀ c ∈ before, isBlank c = true)
    (hafter : ∀ c ∈ after, isBlank c = true) (cs : List Char) :
    trimBlanks (before ++ cs ++ after) = trimBlanks cs := by
  have hreverse : ∀ c ∈ after.reverse, isBlank c = true := fun c hc => hafter c (List.mem_reverse.mp hc)
  rw [trimBlanks, trimBlanks, List.append_assoc, List.dropWhile_append_of_pos hbefore, List.dropWhile_append]
  split
  case isTrue h =>
    rw [List.isEmpty_iff.mp h, List.dropWhile_eq_nil_iff.mpr hafter]
  case isFalse => rw [List.reverse_append, List.dropWhile_append_of_pos hreverse]

theorem trimBlanks_eq_nil_iff {cs : List Char} : trimBlanks cs = [] ↔ ∀ c ∈ cs, isBlank c = true := by
  constructor
  · intro h
    rw [trimBlanks, List.reverse_eq_nil_iff, List.dropWhile_eq_nil_iff] at h
    -- What the end of a text has left begins with no blank.
    have hnil : cs.dropWhile isBlank = [] := by
      by_contra hne
      have hhead := List.head_dropWhile_not isBlank hne
      rw [h _ (List.mem_reverse.mpr (List.head_mem hne))] at hhead
      cases hhead
    exact List.dropWhile_eq_nil_iff.mp hnil
  · intro h
    rw [trimBlanks, List.dropWhile_eq_nil_iff.mpr h]
    rfl

end

namespace Span

/-! ## Endings -/

/-- The letters of a unit. Without a unit there are none. -/
def ending : Option Scale → List Char
  | some .millis => ['m', 's']
  | some .seconds => ['s']
  | some .minutes => ['m']
  | some .hours => ['h']
  | none => []

theorem ending_injective {u v : Option Scale} (h : ending u = ending v) : u = v := by
  rcases u with _ | _ | _ | _ | _ <;> rcases v with _ | _ | _ | _ | _ <;> simp_all [ending]

/-- The unit of an ending. Without one, a number counts seconds. -/
def scaleOf (u : Option Scale) : Scale := u.getD .seconds

variable {number cs : List Char}

theorem not_closed {c : Char} (hc : closesNumeral c = false) (r : List Char) :
    ¬ Closed (c :: r).reverse := by
  intro h
  have hlast : c ∈ (c :: r).reverse.getLast? := by simp
  exact Bool.false_ne_true (hc.symm.trans (h c hlast))

theorem splitUnit_append (h : Closed number) (u : Option Scale) :
    splitUnit (number ++ ending u) = (number, scaleOf u) := by
  -- The text is looked at from its end, so the number comes last and backwards.
  obtain ⟨r, rfl⟩ : ∃ r : List Char, r.reverse = number := ⟨number.reverse, number.reverse_reverse⟩
  rw [splitUnit, List.reverse_append, List.reverse_reverse]
  rcases u with _ | _ | _ | _ | _
  case none =>
    rw [ending, List.append_nil, List.reverse_nil, List.nil_append]
    split
    case h_1 r => exact absurd h (not_closed rfl ('m' :: r))
    case h_2 r _ => exact absurd h (not_closed rfl r)
    case h_3 r => exact absurd h (not_closed rfl r)
    case h_4 r => exact absurd h (not_closed rfl r)
    case h_5 => rfl
  case some.seconds =>
    cases r with
    | nil => rfl
    | cons c r =>
      have hc : c ≠ 'm' := by
        rintro rfl
        exact not_closed rfl r h
      simp [ending, scaleOf, hc]
  all_goals rfl

theorem exists_ending (cs : List Char) :
    ∃ u, (splitUnit cs).1 ++ ending u = cs ∧ scaleOf u = (splitUnit cs).2 := by
  obtain ⟨r, rfl⟩ : ∃ r : List Char, r.reverse = cs := ⟨cs.reverse, cs.reverse_reverse⟩
  unfold splitUnit
  rw [List.reverse_reverse]
  split
  · exact ⟨some .millis, by simp [ending], rfl⟩
  · exact ⟨some .seconds, by simp [ending], rfl⟩
  · exact ⟨some .minutes, by simp [ending], rfl⟩
  · exact ⟨some .hours, by simp [ending], rfl⟩
  · exact ⟨none, by simp [ending], rfl⟩

/-! ## Spellings -/

/-- A text that is a number with an ending. -/
structure Spells (cs number : List Char) (u : Option Scale) (x : Double) : Prop where
  text : number ++ ending u = cs
  numeral : readNumeral? number = some x

variable {u : Option Scale} {x : Double} {text : String}

theorem Spells.split (h : Spells cs number u x) : splitUnit cs = (number, scaleOf u) := by
  rw [← h.text]
  exact splitUnit_append (closed_of_readNumeral? h.numeral) u

theorem exists_spells (h : readNumeral? (splitUnit cs).1 = some x) :
    ∃ u, Spells cs (splitUnit cs).1 u x ∧ scaleOf u = (splitUnit cs).2 := by
  obtain ⟨u, htext, hscale⟩ := exists_ending cs
  exact ⟨u, ⟨htext, h⟩, hscale⟩

/-- No text is spelled in two ways. -/
theorem Spells.unique {number' : List Char} {u' : Option Scale} {x' : Double} (h : Spells cs number u x)
    (h' : Spells cs number' u' x') : number = number' ∧ u = u' ∧ x = x' := by
  obtain ⟨rfl, -⟩ := Prod.mk.inj (h.split.symm.trans h'.split)
  have hending : ending u = ending u' := List.append_cancel_left (h.text.trans h'.text.symm)
  exact ⟨rfl, ending_injective hending, Option.some.inj (h.numeral.symm.trans h'.numeral)⟩

/-- A number that a span may have: finite and not below zero. -/
def IsAmount (x : Double) : Prop := x.isFinite = true ∧ 0 ≤ x.value

theorem isAmount_iff : (!x.isFinite || x.isBelowZero) = false ↔ IsAmount x := by
  rw [Bool.or_eq_false_iff, Bool.not_eq_false', Double.isBelowZero_eq_false_iff, IsAmount]

/-! ## Reading -/

theorem read_of_spells (h : Spells (trimBlanks text.toList) number u x) :
    read text = if !x.isFinite || x.isBelowZero then
      .error (.negative (String.ofList (trimBlanks text.toList))) else .ok (ofUnits x (scaleOf u)) := by
  have hne : trimBlanks text.toList ≠ [] := by
    rw [← h.text]
    intro hnil
    obtain ⟨rfl, -⟩ := List.append_eq_nil_iff.mp hnil
    cases h.numeral
  rw [read, if_neg hne, h.split]
  dsimp only
  rw [h.numeral]

theorem read_of_amount (h : Spells (trimBlanks text.toList) number u x) (hx : IsAmount x) :
    read text = .ok (ofUnits x (scaleOf u)) := by
  rw [read_of_spells h, isAmount_iff.mpr hx]
  rfl

theorem read_of_not_amount (h : Spells (trimBlanks text.toList) number u x) (hx : ¬ IsAmount x) :
    read text = .error (.negative (String.ofList (trimBlanks text.toList))) := by
  rw [read_of_spells h, if_pos]
  exact Bool.not_eq_false _ ▸ mt isAmount_iff.mp hx

theorem read_of_not_spells (h : ∀ number u x, ¬ Spells (trimBlanks text.toList) number u x) :
    read text = .error (if trimBlanks text.toList = [] then .empty
      else .badNumber (String.ofList (splitUnit (trimBlanks text.toList)).1)) := by
  rw [read]
  split
  case isTrue => rfl
  case isFalse =>
    cases hx : readNumeral? (splitUnit (trimBlanks text.toList)).1 with
    | none =>
      dsimp only
      rw [hx]
    | some x =>
      obtain ⟨u, hspells, -⟩ := exists_spells hx
      exact absurd hspells (h _ u x)

theorem read_blanks {before after : String} (hbefore : ∀ c ∈ before.toList, isBlank c = true)
    (hafter : ∀ c ∈ after.toList, isBlank c = true) : read (before ++ text ++ after) = read text := by
  rw [read, read, String.toList_append, String.toList_append, trimBlanks_append hbefore hafter]

/-! ## Nanoseconds -/

/-- A number of nanoseconds as a whole one, a half rounded up, as far as 64 bits hold it. -/
def wholeNanos (y : Double) : Nat := if y.isFinite then min ⌊y.value + 1 / 2⌋₊ (2 ^ 64 - 1) else 2 ^ 64 - 1

theorem nanos_ofUnits (x : Double) (unit : Scale) :
    (ofUnits x unit).nanos = wholeNanos (x.times (.ofNat unit.nanos)) := by
  rw [ofUnits, wholeNanos]
  have hbits := Double.bits_ofRatio_le (x.ratio.1 * (Double.ofNat unit.nanos).ratio.1)
    (x.ratio.2 * (Double.ofNat unit.nanos).ratio.2)
  rcases hbits.lt_or_eq with hlt | heq
  · rw [Double.times, Double.nearestWord_eq hlt, if_pos (Double.isFinite_of_lt hlt)]
  · rw [Double.times, Double.eq_infinity_of_bits heq]
    rfl

/-! ## What is read -/

theorem read_eq_ok_iff {d : Span} : read text = .ok d ↔
    ∃ number u x, Spells (trimBlanks text.toList) number u x ∧ IsAmount x ∧
      d.nanos = wholeNanos (x.times (.ofNat (scaleOf u).nanos)) := by
  constructor
  · intro h
    by_cases hspelled : ∃ number u x, Spells (trimBlanks text.toList) number u x
    · obtain ⟨number, u, x, hspells⟩ := hspelled
      by_cases hx : IsAmount x
      · rw [read_of_amount hspells hx] at h
        obtain rfl := Except.ok.inj h
        exact ⟨number, u, x, hspells, hx, nanos_ofUnits x _⟩
      · rw [read_of_not_amount hspells hx] at h
        cases h
    · simp only [not_exists] at hspelled
      rw [read_of_not_spells hspelled] at h
      cases h
  · rintro ⟨number, u, x, hspells, hx, hnanos⟩
    rw [read_of_amount hspells hx]
    exact congrArg Except.ok (congrArg Span.mk ((nanos_ofUnits x _).trans hnanos.symm))

theorem exists_error (h : ¬ ∃ number u x, Spells (trimBlanks text.toList) number u x ∧ IsAmount x) :
    ∃ e, read text = .error e := by
  cases hread : read text with
  | error e => exact ⟨e, rfl⟩
  | ok d =>
    obtain ⟨number, u, x, hspells, hx, -⟩ := read_eq_ok_iff.mp hread
    exact absurd ⟨number, u, x, hspells, hx⟩ h

theorem read_eq_empty_iff : read text = .error .empty ↔ ∀ c ∈ text.toList, isBlank c = true := by
  rw [← trimBlanks_eq_nil_iff]
  constructor
  · intro h
    by_cases hspelled : ∃ number u x, Spells (trimBlanks text.toList) number u x
    · obtain ⟨number, u, x, hspells⟩ := hspelled
      rw [read_of_spells hspells] at h
      split at h <;> cases h
    · simp only [not_exists] at hspelled
      rw [read_of_not_spells hspelled] at h
      by_contra hne
      rw [if_neg hne] at h
      cases h
  · intro h
    rw [read, if_pos h]

theorem read_eq_negative_iff : read text = .error (.negative (String.ofList (trimBlanks text.toList))) ↔
    ∃ number u x, Spells (trimBlanks text.toList) number u x ∧ ¬ IsAmount x := by
  constructor
  · intro h
    by_cases hspelled : ∃ number u x, Spells (trimBlanks text.toList) number u x
    · obtain ⟨number, u, x, hspells⟩ := hspelled
      refine ⟨number, u, x, hspells, fun hx => ?_⟩
      rw [read_of_amount hspells hx] at h
      cases h
    · simp only [not_exists] at hspelled
      rw [read_of_not_spells hspelled] at h
      split at h <;> cases h
  · rintro ⟨number, u, x, hspells, hx⟩
    exact read_of_not_amount hspells hx

/-- How a text is read: by the number and the ending that spell it, if there are any. -/
structure Reading (text : String) : Prop where
  /-- What is read is a spelled amount, and every spelled amount is read. -/
  accepts : ∀ d, read text = .ok d ↔ ∃ number u x, Spells (trimBlanks text.toList) number u x ∧
    IsAmount x ∧ d.nanos = wholeNanos (x.times (.ofNat (scaleOf u).nanos))
  unique : ∀ number u x number' u' x', Spells (trimBlanks text.toList) number u x →
    Spells (trimBlanks text.toList) number' u' x' → number = number' ∧ u = u' ∧ x = x'
  blanks : ∀ before after : String, (∀ c ∈ before.toList, isBlank c = true) →
    (∀ c ∈ after.toList, isBlank c = true) → read (before ++ text ++ after) = read text
  refuses : (¬ ∃ number u x, Spells (trimBlanks text.toList) number u x ∧ IsAmount x) →
    ∃ e, read text = .error e
  empty : read text = .error .empty ↔ ∀ c ∈ text.toList, isBlank c = true
  /-- The error of a number that is spelled but no amount. All other texts hold no number. -/
  negative : read text = .error (.negative (String.ofList (trimBlanks text.toList))) ↔
    ∃ number u x, Spells (trimBlanks text.toList) number u x ∧ ¬ IsAmount x

/-- A text is read exactly if it is spelled by an amount and at most one ending, between blanks. -/
theorem reads_spelled (text : String) : Reading text where
  accepts _ := read_eq_ok_iff
  unique _ _ _ _ _ _ h h' := h.unique h'
  blanks _ _ := read_blanks
  refuses := exists_error
  empty := read_eq_empty_iff
  negative := read_eq_negative_iff

example : read " 1.5s\n" = .ok ⟨1500000000⟩ := by decide +kernel

example : read "1e300h" = .ok ⟨2 ^ 64 - 1⟩ := by decide +kernel

end Span

end Lagmeter
