import Lagmeter.Json.Record
import Lagmeter.Proofs.Json.Texts
import Lagmeter.Proofs.Number.Digits

/-!
# Numbers as they are written

What is written for a number, be it a whole one or a double, has the parts that the grammar asks for, so it
is read as far as it goes. A double always shows a point or a power of ten, by which it is told from a
whole number.
-/

namespace Lagmeter.Json

/-! ## The parts of a number -/

/-- The point and the digits after it. Without digits there is no point. -/
def pointed : List Char → List Char
  | [] => []
  | d :: ds => '.' :: d :: ds

/-- A power of ten, by the sign and the digits of its exponent. -/
def powered : Option (Bool × List Char) → List Char
  | none => []
  | some (negative, ds) => 'e' :: minus negative ++ ds

/-- A number as the grammar has it. -/
structure Lexeme where
  negative : Bool
  whole : List Char
  part : List Char
  power : Option (Bool × List Char)
  whole_digits : IsDigits whole
  whole_ne_nil : whole ≠ []
  /-- A zero stands alone before the point. -/
  lone_zero : whole.head? = some '0' → whole = ['0']
  part_digits : IsDigits part
  power_digits : ∀ p ∈ power, IsDigits p.2 ∧ p.2 ≠ []

/-- What may follow a number: nothing, a comma or a line break. -/
def Ends (rest : List Char) : Prop := ∀ c ∈ rest.head?, c = ',' ∨ c = '\n'

namespace Lexeme

/-- What follows the digits before the point. -/
def tail (l : Lexeme) : List Char := pointed l.part ++ powered l.power

def text (l : Lexeme) : List Char := minus l.negative ++ (l.whole ++ l.tail)

end Lexeme

/-! ## Reading the parts -/

section

variable {ds rest : List Char}

theorem noDigit_of_ends (h : Ends rest) : NoDigit rest := by
  intro c hc
  rcases h c hc with rfl | rfl <;> rfl

theorem minusRun_append (negative : Bool) (hds : IsDigits ds) (hne : ds ≠ []) (rest : List Char) :
    minusRun (minus negative ++ (ds ++ rest)) = (negative, ds ++ rest) := by
  obtain ⟨d, ds, rfl⟩ := List.exists_cons_of_ne_nil hne
  have hd : d ≠ '-' := by
    rintro rfl
    cases hds '-' List.mem_cons_self
  cases negative <;> simp [minus, minusRun, hd]

theorem wholeRun?_append (hds : IsDigits ds) (hne : ds ≠ []) (hzero : ds.head? = some '0' → ds = ['0'])
    (hrest : NoDigit rest) : wholeRun? (ds ++ rest) = some (ds, rest) := by
  have hrun := digitRun_eq hds hrest
  obtain ⟨d, ds, rfl⟩ := List.exists_cons_of_ne_nil hne
  by_cases hd : d = '0'
  · subst hd
    obtain rfl : ds = [] := List.cons.inj (hzero rfl) |>.2
    rfl
  · rw [List.cons_append] at hrun
    simp [wholeRun?, hd, hrun]

theorem pointRun?_append (hds : IsDigits ds) (hrest : NoDigit rest) (hpoint : rest.head? ≠ some '.') :
    pointRun? (pointed ds ++ rest) = some (pointed ds, rest) := by
  have hrun := digitRun_eq hds hrest
  cases ds with
  | cons d ds =>
    rw [List.cons_append] at hrun
    simp [pointed, pointRun?, hrun]
  | nil =>
    cases rest with
    | nil => rfl
    | cons c cs =>
      have hc : c ≠ '.' := fun h => hpoint (congrArg some h)
      simp [pointed, pointRun?, hc]

theorem powerRun?_append {p : Option (Bool × List Char)} (hp : ∀ q ∈ p, IsDigits q.2 ∧ q.2 ≠ [])
    (hrest : Ends rest) : powerRun? (powered p ++ rest) = some (powered p, rest) := by
  cases p with
  | none =>
    cases rest with
    | nil => rfl
    | cons c cs =>
      have hc : ¬ (c = 'e' ∨ c = 'E') := by
        rcases hrest c rfl with rfl | rfl <;> decide
      simp [powered, powerRun?, hc]
  | some p =>
    obtain ⟨negative, ds⟩ := p
    obtain ⟨hds, hne⟩ := hp (negative, ds) rfl
    have hrun := digitRun_eq hds (noDigit_of_ends hrest)
    obtain ⟨d, ds, rfl⟩ := List.exists_cons_of_ne_nil hne
    have hplus : d ≠ '+' := by
      rintro rfl
      cases hds '+' List.mem_cons_self
    have hminus : d ≠ '-' := by
      rintro rfl
      cases hds '-' List.mem_cons_self
    rw [List.cons_append] at hrun
    cases negative <;> simp [powered, minus, powerRun?, hrun, hplus, hminus]

end

namespace Lexeme

variable {rest : List Char}

theorem noDigit_tail (l : Lexeme) (hrest : NoDigit rest) : NoDigit (l.tail ++ rest) := by
  have hpower : NoDigit (powered l.power ++ rest) := by
    cases l.power with
    | none => exact hrest
    | some p => exact noDigit_cons rfl _
  rw [tail, List.append_assoc]
  cases l.part with
  | nil => exact hpower
  | cons d ds => exact noDigit_cons rfl _

theorem numberRun?_text (l : Lexeme) (hrest : Ends rest) :
    numberRun? (l.text ++ rest) = some (l.text, rest) := by
  have hpower : NoDigit (powered l.power ++ rest) ∧ (powered l.power ++ rest).head? ≠ some '.' := by
    cases l.power with
    | some p => exact ⟨noDigit_cons rfl _, by simp [powered]⟩
    | none =>
      refine ⟨noDigit_of_ends hrest, fun hpoint => ?_⟩
      rcases hrest '.' hpoint with h | h <;> cases h
  have hminus := minusRun_append l.negative l.whole_digits l.whole_ne_nil (l.tail ++ rest)
  have hwhole := wholeRun?_append l.whole_digits l.whole_ne_nil l.lone_zero
    (l.noDigit_tail (noDigit_of_ends hrest))
  have hpart := pointRun?_append l.part_digits hpower.1 hpower.2
  have hpow := powerRun?_append l.power_digits hrest
  simp only [numberRun?, text, List.append_assoc, hminus, hwhole, Option.bind_eq_bind, Option.bind_some]
  simp only [tail, List.append_assoc, hpart, hpow, Option.bind_some, Option.pure_def]

theorem ofLexeme?_text (l : Lexeme) : Numeral.ofLexeme? l.text =
    if l.tail = [] ∧ !l.negative ∧ digitsValue l.whole ≤ Numeral.maxWord then
      some (.whole (digitsValue l.whole))
    else if l.tail = [] ∧ l.negative ∧ 0 < digitsValue l.whole ∧ digitsValue l.whole ≤ Nat.pow 2 63 then
      some (.minus (digitsValue l.whole))
    else (Numeral.magnitude? l.whole (fractionRun l.tail).1 (fractionRun l.tail).2).map fun x =>
      .real (x.withSign l.negative) := by
  have hrun := digitRun_eq l.whole_digits (l.noDigit_tail noDigit_nil)
  rw [List.append_nil] at hrun
  simp only [Numeral.ofLexeme?, text, minusRun_append l.negative l.whole_digits l.whole_ne_nil, hrun]

/-! ## Whole numbers -/

/-- A whole number and its sign. -/
def ofWhole (negative : Bool) (n : Nat) : Lexeme where
  negative
  whole := Nat.toDigits 10 n
  part := []
  power := none
  whole_digits := isDigits_toDigits n
  whole_ne_nil := Nat.toDigits_ne_nil
  lone_zero h := by
    rcases Nat.eq_zero_or_pos n with rfl | hn
    · exact Nat.toDigits_zero 10
    · exact absurd h (head?_toDigits_ne hn)
  part_digits := by simp [IsDigits]
  power_digits := by simp

theorem text_ofWhole (negative : Bool) (n : Nat) :
    (ofWhole negative n).text = minus negative ++ Nat.toDigits 10 n :=
  congrArg (minus negative ++ ·) (List.append_nil _)

theorem ofLexeme?_whole {n : Nat} (h : n ≤ Numeral.maxWord) :
    Numeral.ofLexeme? (Nat.toDigits 10 n) = some (.whole n) := by
  have htext := ofLexeme?_text (ofWhole false n)
  rw [text_ofWhole, show (ofWhole false n).whole = Nat.toDigits 10 n from rfl, digitsValue_toDigits] at htext
  rw [show Nat.toDigits 10 n = minus false ++ Nat.toDigits 10 n from rfl, htext, if_pos]
  exact ⟨rfl, rfl, h⟩

theorem ofLexeme?_minus {n : Nat} (hpos : 0 < n) (h : n ≤ Nat.pow 2 63) :
    Numeral.ofLexeme? ('-' :: Nat.toDigits 10 n) = some (.minus n) := by
  have htext := ofLexeme?_text (ofWhole true n)
  rw [text_ofWhole, show (ofWhole true n).whole = Nat.toDigits 10 n from rfl, digitsValue_toDigits] at htext
  rw [show '-' :: Nat.toDigits 10 n = minus true ++ Nat.toDigits 10 n from rfl, htext, if_neg, if_pos]
  · exact ⟨rfl, rfl, hpos, h⟩
  · simp [ofWhole]

end Lexeme

/-- What `read?` may find as a number. -/
def IsNumber (raw : List Char) : Prop := ∃ l : Lexeme, l.text = raw

theorem isNumber_toDigits (n : Nat) : IsNumber (Nat.toDigits 10 n) :=
  ⟨.ofWhole false n, Lexeme.text_ofWhole false n⟩

theorem ofNat_eq (n : Nat) :
    ofNat n = .number (Nat.toDigits 10 n) := congrArg Json.number (toList_toString n)

theorem word?_number {n : Nat} (h : n ≤ Numeral.maxWord) :
    (Json.number (Nat.toDigits 10 n)).word? = some n := by
  simp only [word?, natUpTo?, numeral?, Lexeme.ofLexeme?_whole h, if_pos h]

theorem word?_ofNat {n : Nat} (h : n ≤ Numeral.maxWord) : (ofNat n).word? = some n := by
  rw [ofNat_eq, word?_number h]

theorem isRaw_digits {ds : List Char} (h : IsDigits ds) : IsRaw ds := by
  intro rest
  induction ds with
  | nil => rfl
  | cons d ds ih =>
    have hd : d.isDigit = true := h d List.mem_cons_self
    have hplain : Escaped d [d] := by
      refine .plain ?_ ?_ ?_
      · rintro rfl
        cases hd
      · rintro rfl
        cases hd
      · have hzero : 48 ≤ d.toNat := (Char.isDigit_iff_toNat.mp hd).1
        omega
    have hrest := ih fun c hc => h c (List.mem_cons_of_mem d hc)
    rw [List.cons_append, ← List.singleton_append, hplain.textRun?, hrest]
    rfl

theorem nameWord?_toDigits {n : Nat} (h : n ≤ Numeral.maxWord) :
    nameWord? (Nat.toDigits 10 n) = some n := by
  have hrun : wholeRun? (Nat.toDigits 10 n ++ []) = some (Nat.toDigits 10 n, []) :=
    wholeRun?_append (isDigits_toDigits n) Nat.toDigits_ne_nil (Lexeme.ofWhole false n).lone_zero noDigit_nil
  rw [List.append_nil] at hrun
  rw [nameWord?, if_pos hrun, word?_number h]

theorem toList_toString_int (i : Int) :
    (toString i).toList = minus (decide (i < 0)) ++ Nat.toDigits 10 i.natAbs := by
  cases i with
  | ofNat n =>
    have hsign : decide (Int.ofNat n < 0) = false := decide_eq_false (by simp)
    rw [hsign]
    exact toList_toString n
  | negSucc n =>
    have hsign : decide (Int.negSucc n < 0) = true := decide_eq_true (Int.negSucc_lt_zero n)
    rw [hsign]
    show ("-" ++ toString (n + 1)).toList = _
    rw [String.toList_append, toList_toString]
    rfl

theorem isNumber_int (i : Int) : IsNumber (toString i).toList :=
  ⟨.ofWhole (decide (i < 0)) i.natAbs, by rw [Lexeme.text_ofWhole, toList_toString_int]⟩

theorem integer?_ofInt (n : Int64) : (ofInt n.toInt).integer? = some n.toInt := by
  have hlow := n.le_toInt
  have hhigh := n.toInt_lt
  rw [integer?, ofInt, toList_toString_int]
  generalize n.toInt = i at hlow hhigh ⊢
  by_cases hi : i < 0
  · rw [decide_eq_true hi]
    have hminus := Lexeme.ofLexeme?_minus (n := i.natAbs) (by omega) (by show i.natAbs ≤ 2 ^ 63; omega)
    simp only [numeral?, minus, if_true, List.cons_append, List.nil_append, hminus]
    congr 1
    omega
  · rw [decide_eq_false hi]
    have hwhole := Lexeme.ofLexeme?_whole (n := i.natAbs) (by show i.natAbs ≤ 2 ^ 64 - 1; omega)
    have hlt : i.natAbs < Nat.pow 2 63 := by show i.natAbs < 2 ^ 63; omega
    simp only [numeral?, minus, Bool.false_eq_true, if_false, List.nil_append, hwhole, hlt, if_true]
    congr 1
    omega

/-! ## Doubles -/

theorem toList_signText (x : Double) : (signText x).toList = minus x.isNegative := by
  unfold signText minus
  split <;> rfl

theorem integer?_of_tail {l : Lexeme} (h : l.tail ≠ []) : (Json.number l.text).integer? = none := by
  simp only [integer?, numeral?, Lexeme.ofLexeme?_text, h, false_and, if_false]
  cases Numeral.magnitude? l.whole (fractionRun l.tail).1 (fractionRun l.tail).2 <;> rfl

/-- A number that shows a point or a power of ten. -/
def IsReal (raw : List Char) : Prop := ∃ l : Lexeme, l.text = raw ∧ l.tail ≠ []

theorem isReal_pointed {whole part : List Char} (negative : Bool) (hwhole : IsDigits whole) (hne : whole ≠ [])
    (hzero : whole.head? = some '0' → whole = ['0']) (hpart : IsDigits part) (hpart' : part ≠ []) :
    IsReal (minus negative ++ (whole ++ '.' :: part)) := by
  obtain ⟨d, ds, rfl⟩ := List.exists_cons_of_ne_nil hpart'
  refine ⟨⟨negative, whole, d :: ds, none, hwhole, hne, hzero, hpart, by simp⟩, ?_, ?_⟩
  · simp [Lexeme.text, Lexeme.tail, pointed, powered]
  · simp [Lexeme.tail, pointed]

theorem isReal_placed {n : Nat} (hn : 0 < n) (negative : Bool) (k : Int) :
    IsReal (minus negative ++ (placed (toString n) k ".0").toList) := by
  have hdigits := isDigits_toDigits n
  have hne : Nat.toDigits 10 n ≠ [] := Nat.toDigits_ne_nil
  have hhead := head?_toDigits_ne hn
  have hlength : (toString n).length = (Nat.toDigits 10 n).length := by
    rw [← String.length_toList, toList_toString]
  simp only [placed, hlength]
  split
  case isTrue =>
    simp only [String.toList_append, toList_zeros, toList_toString]
    exact isReal_pointed negative (isDigits_zeros 1) (by decide) (fun _ => rfl)
      ((isDigits_zeros _).append hdigits) (by simp [hne])
  split
  case isTrue =>
    simp only [String.toList_append, toList_zeros, toList_toString]
    refine isReal_pointed negative (hdigits.append (isDigits_zeros _)) (by simp [hne]) (fun hzero => ?_)
      (isDigits_zeros 1) (by decide)
    rw [List.head?_append_of_ne_nil _ hne] at hzero
    exact absurd hzero hhead
  case isFalse hpos hlt =>
    simp only [String.toList_append, String.toList_ofList, toList_toString]
    have htake : (Nat.toDigits 10 n).take k.toNat ≠ [] := by
      rw [Ne, List.take_eq_nil_iff]
      exact not_or.mpr ⟨by omega, hne⟩
    have hdrop : (Nat.toDigits 10 n).drop k.toNat ≠ [] := by
      rw [Ne, List.drop_eq_nil_iff]
      omega
    have hlead : ((Nat.toDigits 10 n).take k.toNat).head? ≠ some '0' := by
      rwa [List.head?_take, if_neg (by omega)]
    have hreal := isReal_pointed negative (fun c hc => hdigits c (List.mem_of_mem_take hc)) htake
      (fun hzero => absurd hzero hlead) (fun c hc => hdigits c (List.mem_of_mem_drop hc)) hdrop
    rwa [List.append_assoc]

theorem isReal_scientific (n : Nat) (negative : Bool) (k : Int) :
    IsReal (minus negative ++ (scientific (toString n) k).toList) := by
  have hdigits := isDigits_toDigits n
  have hpower : ∀ p ∈ some (decide (k - 1 < 0), Nat.toDigits 10 (k - 1).natAbs), IsDigits p.2 ∧ p.2 ≠ [] := by
    rintro p ⟨⟩
    exact ⟨isDigits_toDigits _, Nat.toDigits_ne_nil⟩
  obtain ⟨d, ds, hcons⟩ := List.exists_cons_of_ne_nil (Nat.toDigits_ne_nil (n := n) (b := 10))
  have hd : IsDigits [d] := by
    intro c hc
    rw [List.mem_singleton.mp hc]
    exact hdigits d (hcons ▸ List.mem_cons_self)
  have hds : IsDigits ds := fun c hc => hdigits c (hcons ▸ List.mem_cons_of_mem d hc)
  refine ⟨⟨negative, [d], ds, _, hd, by simp, by simp, hds, hpower⟩, ?_, ?_⟩
  · have hexponent := toList_toString_int (k - 1)
    rw [Int.toString_eq_repr] at hexponent
    cases ds <;>
      simp [Lexeme.text, Lexeme.tail, pointed, powered, scientific, hexponent, hcons]
  · simp [Lexeme.tail, powered]

/-- A finite double is never written as a whole number. -/
theorem isReal_write {x : Double} (hfinite : x.isFinite = true) : IsReal (Layout.data.write x).toList := by
  simp only [Layout.write, Double.isNaN_eq_false hfinite, Double.isInfinite_eq_false hfinite,
    Bool.false_eq_true, if_false]
  split
  case isTrue =>
    simp only [String.toList_append, toList_signText, List.append_assoc]
    exact isReal_pointed x.isNegative (isDigits_zeros 1) (by decide) (fun _ => rfl) (isDigits_zeros 1)
      (by decide)
  case isFalse hzero =>
    rw [String.toList_append, toList_signText]
    split
    · exact isReal_placed (Double.shortest_pos (Bool.not_eq_true _ ▸ hzero) _) _ _
    · exact isReal_scientific _ _ _

end Lagmeter.Json
