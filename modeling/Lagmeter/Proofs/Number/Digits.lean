import Lagmeter.Number.Layout
import Lagmeter.Number.Numeral
import Mathlib.Data.List.Basic

/-!
# Runs of digits

The digits of a whole number read back as this number, also with zeros before them, and a run of digits
ends where something else begins.
-/

namespace Lagmeter

def IsDigits (ds : List Char) : Prop := ∀ c ∈ ds, c.isDigit = true

/-- A text that does not begin with a digit. -/
def NoDigit (cs : List Char) : Prop := ∀ c ∈ cs.head?, c.isDigit = false

section

variable {ds es rest : List Char}

theorem IsDigits.append (hds : IsDigits ds) (hes : IsDigits es) : IsDigits (ds ++ es) := by
  intro c hc
  rcases List.mem_append.mp hc with hc | hc
  · exact hds c hc
  · exact hes c hc

theorem isDigits_toDigits (n : Nat) : IsDigits (Nat.toDigits 10 n) := fun _ hc =>
  Nat.isDigit_of_mem_toDigits (by decide) (by decide) hc

theorem isDigits_zeros (k : Nat) : IsDigits (List.replicate k '0') := by
  intro c hc
  rw [List.eq_of_mem_replicate hc]
  rfl

theorem noDigit_nil : NoDigit [] := by simp [NoDigit]

theorem noDigit_cons {c : Char} (h : c.isDigit = false) (cs : List Char) : NoDigit (c :: cs) := by
  simp [NoDigit, h]

theorem digitRun_eq (hds : IsDigits ds) (hrest : NoDigit rest) : digitRun (ds ++ rest) = (ds, rest) := by
  have htake : rest.takeWhile Char.isDigit = [] ∧ rest.dropWhile Char.isDigit = rest := by
    cases rest with
    | nil => exact ⟨rfl, rfl⟩
    | cons c cs =>
      have hc : c.isDigit = false := hrest c rfl
      simp [hc]
  rw [digitRun, List.takeWhile_append_of_pos hds, List.dropWhile_append_of_pos hds, htake.1, htake.2,
    List.append_nil]

end

/-! ## Whole numbers -/

theorem toList_toString (n : Nat) : (toString n).toList = Nat.toDigits 10 n := Nat.toList_repr

theorem digitsValue_toDigits (n : Nat) :
    digitsValue (Nat.toDigits 10 n) = n := Nat.ofDigitChars_ten_toDigits

theorem digitsValue_zeros (k : Nat) (ds : List Char) :
    digitsValue (List.replicate k '0' ++ ds) = digitsValue ds := by
  have hzeros : Nat.ofDigitChars 10 (List.replicate k '0') 0 = 0 := by
    rw [Nat.ofDigitChars_replicate_zero, Nat.mul_zero]
  calc digitsValue (List.replicate k '0' ++ ds)
    _ = Nat.ofDigitChars 10 ds (Nat.ofDigitChars 10 (List.replicate k '0') 0) := Nat.ofDigitChars_append 0
    _ = digitsValue ds := by rw [hzeros]; rfl

theorem head?_toDigits_ne {n : Nat} (h : 0 < n) : (Nat.toDigits 10 n).head? ≠ some '0' := by
  induction n using Nat.strongRecOn with
  | ind n ih =>
    rw [Nat.toDigits_eq_if (by decide)]
    split
    case isTrue hlt =>
      have hall : ∀ d < 10, 0 < d → [Nat.digitChar d].head? ≠ some '0' := by decide
      exact hall n hlt h
    case isFalse hge =>
      rw [List.head?_append_of_ne_nil _ Nat.toDigits_ne_nil]
      exact ih (n / 10) (by omega) (by omega)

theorem toList_zeros (k : Nat) : (zeros k).toList = List.replicate k '0' := String.toList_ofList

/-! ## The fewest digits -/

namespace Double

variable {x : Double}

theorem significand_pos (h : x.isZero = false) : 0 < x.significand := by
  refine Nat.pos_of_ne_zero fun hzero => ?_
  rw [significand_eq_zero_iff.mp hzero] at h
  cases h

theorem ratio_fst_pos (h : x.isZero = false) : 0 < x.ratio.1 := by
  have hpos := significand_pos h
  unfold ratio
  split
  · exact Nat.mul_pos hpos (Nat.pow_pos (by decide))
  · exact hpos

theorem pos_of_readsBack (h : x.isZero = false) {c : Nat} {p : Int} (hback : x.readsBack c p = true) :
    0 < c := by
  have hpos := significand_pos h
  rcases Nat.eq_zero_or_pos c with rfl | hc
  case inr => exact hc
  have hlow : 0 < x.quarters.1 := by
    simp only [quarters]
    split <;> omega
  have hleft : 0 < (crossed x.quarters.1 (x.scale - 2) 0 p).1 :=
    Nat.mul_pos (Nat.mul_pos hlow (Nat.pow_pos (by decide))) (Nat.pow_pos (by decide))
  have hright : (crossed x.quarters.1 (x.scale - 2) 0 p).2 = 0 := by simp [crossed]
  have hbinary : binaryLe x.quarters.1 (x.scale - 2) 0 p = false := decide_eq_false (by omega)
  have hdecimal : decimalLe 0 p x.quarters.1 (x.scale - 2) = true := decide_eq_true (by omega)
  simp [readsBack, hbinary, hdecimal] at hback

theorem pos_of_nearestOn (h : x.isZero = false) {tie : Tie} {k : Int} {count : Nat} {d : Decimal}
    (hd : x.nearestOn tie k count = some d) : 0 < d.digits := by
  have hchoice : ∀ (upper lower : Bool) (a b : Decimal),
      (if upper then some a else if lower then some b else none) = some d → a = d ∨ lower = true ∧ b = d := by
    intro upper lower a b hsome
    cases upper <;> cases lower <;> simp_all
  rcases hchoice _ _ _ _ hd with rfl | ⟨hlower, rfl⟩
  · exact Nat.succ_pos _
  · exact pos_of_readsBack h hlower

theorem pos_of_firstGrid (h : x.isZero = false) {tie : Tie} {k : Int} {d : Decimal} {fuel count : Nat}
    (hd : x.firstGrid tie k fuel count = some d) : 0 < d.digits := by
  induction fuel generalizing count with
  | zero => cases hd
  | succ fuel ih =>
    rw [firstGrid, Option.orElse_eq_orElse, Option.orElse_eq_or, Option.or_eq_some_iff] at hd
    rcases hd with hd | ⟨-, hd⟩
    · exact pos_of_nearestOn h hd
    · exact ih hd

theorem pos_trimmed {d : Decimal} (h : 0 < d.digits) (fuel : Nat) : 0 < (d.trimmed fuel).digits := by
  induction fuel generalizing d with
  | zero => exact h
  | succ fuel ih =>
    rw [Decimal.trimmed]
    split
    case isTrue hzero => exact ih (show 0 < d.digits / 10 by omega)
    case isFalse => exact h

theorem shortest_pos (h : x.isZero = false) (tie : Tie) : 0 < (x.shortest tie).digits := by
  simp only [shortest, h, Bool.false_eq_true, if_false]
  split
  case h_1 d hd => exact pos_trimmed (pos_of_firstGrid h hd) 20
  case h_2 => exact ratio_fst_pos h

end Double

end Lagmeter
