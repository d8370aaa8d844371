import Lagmeter.Proofs.Number.Digits
import Lagmeter.Proofs.Time.Dates
import Mathlib.Algebra.Group.Nat.Defs
import Mathlib.Data.List.TakeWhile

/-!
# Stamps

A stamp is read as the moment that it shows. This is the moment it was written for, but for a leap second at
the end of no minute, which a stamp cannot tell from the second after it.
-/

namespace Lagmeter.Moment

/-! ## Fields -/

theorem toList_padded (width n : Nat) :
    (padded width n).toList = List.replicate (width - (Nat.toDigits 10 n).length) '0' ++ Nat.toDigits 10 n := by
  rw [padded, String.toList_append, toList_zeros, toList_toString, ← String.length_toList, toList_toString]

theorem isDigits_padded (width n : Nat) : IsDigits (padded width n).toList := by
  rw [toList_padded]
  exact (isDigits_zeros _).append (isDigits_toDigits n)

theorem digitsValue_padded (width n : Nat) : digitsValue (padded width n).toList = n := by
  rw [toList_padded, digitsValue_zeros, digitsValue_toDigits]

theorem length_padded {width n : Nat} (hwidth : 0 < width) (h : n < 10 ^ width) :
    (padded width n).toList.length = width := by
  have hle := (Nat.length_toDigits_le_iff (by decide) hwidth).mpr h
  rw [toList_padded, List.length_append, List.length_replicate]
  omega

theorem exists_cons_padded (width n : Nat) :
    ∃ d ds, (padded width n).toList = d :: ds ∧ d.isDigit = true := by
  have hne : (padded width n).toList ≠ [] := by
    rw [toList_padded]
    simp
  obtain ⟨d, ds, hcons⟩ := List.exists_cons_of_ne_nil hne
  exact ⟨d, ds, hcons, isDigits_padded width n d (hcons ▸ List.mem_cons_self)⟩

theorem isBlank_of_isDigit {c : Char} (h : c.isDigit = true) : isBlank c = false := by
  have hbounds : 48 ≤ c.toNat ∧ c.toNat ≤ 57 := Char.isDigit_iff_toNat.mp h
  simp [isBlank]
  omega

theorem skipBlanks_cons {c : Char} (h : isBlank c = false) (cs : List Char) :
    skipBlanks (c :: cs) = c :: cs := by
  simp [skipBlanks, h]

theorem skipBlanks_padded (width n : Nat) (rest : List Char) :
    skipBlanks ((padded width n).toList ++ rest) = (padded width n).toList ++ rest := by
  obtain ⟨d, ds, hcons, hd⟩ := exists_cons_padded width n
  rw [hcons, List.cons_append, skipBlanks_cons (isBlank_of_isDigit hd)]

theorem field?_padded {width n : Nat} (hwidth : 0 < width) (h : n < 10 ^ width) (rest : List Char) :
    field? width ((padded width n).toList ++ rest) = some (n, rest) := by
  have hlength := length_padded hwidth h
  have htake : ((padded width n).toList ++ rest).take width = (padded width n).toList := List.take_left' hlength
  have hrun : (padded width n).toList.takeWhile Char.isDigit = (padded width n).toList :=
    List.takeWhile_eq_self_iff.mpr (isDigits_padded width n)
  obtain ⟨d, ds, hcons, -⟩ := exists_cons_padded width n
  have hne : (padded width n).toList ≠ [] := hcons ▸ List.cons_ne_nil d ds
  simp only [field?, skipBlanks_padded, htake, hrun, if_neg hne, digitsValue_padded, List.drop_left]

theorem mark?_cons {c : Char} (h : isBlank c = false) (cs : List Char) : mark? c (c :: cs) = some cs := by
  rw [mark?, skipBlanks_cons h]
  exact if_pos rfl

/-! ## Years -/

theorem year?_signed (n : Nat) {rest : List Char} (hrest : NoDigit rest) :
    year? ('-' :: ((padded 4 n).toList ++ rest)) = some (-(n : Int), rest) ∧
      year? ('+' :: ((padded 4 n).toList ++ rest)) = some ((n : Int), rest) := by
  have hrun := digitRun_eq (isDigits_padded 4 n) hrest
  have hvalue := digitsValue_padded 4 n
  obtain ⟨d, ds, hcons, -⟩ := exists_cons_padded 4 n
  rw [hcons] at hrun hvalue ⊢
  constructor <;> simp only [year?, skipBlanks_cons (show isBlank '-' = false from rfl),
    skipBlanks_cons (show isBlank '+' = false from rfl), hrun, hvalue]

theorem year?_yearText (year : Int) {rest : List Char} (hrest : NoDigit rest) :
    year? ((yearText year).toList ++ rest) = some (year, rest) := by
  unfold yearText
  split
  case isTrue h =>
    have hfield : field? 4 _ = _ := field?_padded (by decide) (show year.toNat < 10 ^ 4 by omega) rest
    have hskip := skipBlanks_padded 4 year.toNat rest
    obtain ⟨d, ds, hcons, hd⟩ := exists_cons_padded 4 year.toNat
    have hminus : d ≠ '-' := by
      rintro rfl
      cases hd
    have hplus : d ≠ '+' := by
      rintro rfl
      cases hd
    rw [hcons, List.cons_append] at hfield hskip ⊢
    simp [year?, hskip, hminus, hplus, hfield]
    omega
  case isFalse h =>
    obtain ⟨hminus, hplus⟩ := year?_signed year.natAbs hrest
    rw [String.toList_append, List.append_assoc]
    split
    case isTrue hneg =>
      have hback : -(year.natAbs : Int) = year := by omega
      rw [show "-".toList = ['-'] from rfl, List.singleton_append, hminus, hback]
    case isFalse hneg =>
      have hback : (year.natAbs : Int) = year := by omega
      rw [show "+".toList = ['+'] from rfl, List.singleton_append, hplus, hback]

/-! ## Parts of a second -/

theorem part?_point {width n : Nat} (hwidth : 0 < width ∧ width ≤ 9) (h : n < 10 ^ width) :
    part? (("." ++ padded width n).toList ++ ['Z']) = some (n * Nat.pow 10 (9 - width), ['Z']) := by
  have hrun := digitRun_eq (isDigits_padded width n) (noDigit_cons (show 'Z'.isDigit = false from rfl) [])
  have hlength := length_padded hwidth.1 h
  have htake : (padded width n).toList.take 9 = (padded width n).toList := List.take_of_length_le (by omega)
  have hvalue := digitsValue_padded width n
  obtain ⟨d, ds, hcons, -⟩ := exists_cons_padded width n
  rw [String.toList_append, List.append_assoc, show ".".toList = ['.'] from rfl, List.singleton_append]
  rw [hcons] at hrun hlength htake hvalue ⊢
  simp only [part?, hrun, htake, hvalue, hlength]

theorem part?_partText {nanos : Nat} (h : nanos < 1000000000) :
    part? ((partText nanos).toList ++ ['Z']) = some (nanos, ['Z']) := by
  unfold partText
  split
  case isTrue hzero => rw [hzero]; rfl
  split
  case isTrue hmillis =>
    rw [part?_point (by decide) (show nanos / 1000000 < 10 ^ 3 by omega),
      show Nat.pow 10 (9 - 3) = 1000000 from rfl, Nat.div_mul_cancel (Nat.dvd_of_mod_eq_zero hmillis)]
  split
  case isTrue hmicros =>
    rw [part?_point (by decide) (show nanos / 1000 < 10 ^ 6 by omega),
      show Nat.pow 10 (9 - 6) = 1000 from rfl, Nat.div_mul_cancel (Nat.dvd_of_mod_eq_zero hmicros)]
  case isFalse =>
    rw [part?_point (by decide) (show nanos < 10 ^ 9 by omega), show Nat.pow 10 (9 - 9) = 1 from rfl,
      Nat.mul_one]

/-! ## Stamps -/

/-- The moment that a stamp shows. -/
def shown (m : Moment) : Moment :=
  if 1000000000 ≤ m.nanos ∧ m.seconds % 60 ≠ 59 then ⟨m.seconds + 1, m.nanos - 1000000000⟩ else m

/-- A moment of the calendar, in a second that may be a leap second. -/
structure IsTime (m : Moment) : Prop where
  year : Date.yearInRange m.date.year = true
  nanos : m.nanos < 2000000000

theorem toList_stamp (m : Moment) : m.stamp.toList = (yearText m.date.year).toList ++ '-' ::
    ((padded 2 m.date.month).toList ++ '-' :: ((padded 2 m.date.day).toList ++ 'T' ::
      ((padded 2 (m.ofDay / 3600)).toList ++ ':' :: ((padded 2 (m.ofDay / 60 % 60)).toList ++ ':' ::
        ((padded 2 (m.ofDay % 60 + m.nanos / 1000000000)).toList ++
          ((partText (m.nanos % 1000000000)).toList ++ ['Z'])))))) := by
  have hstamp : m.stamp = yearText m.date.year ++ "-" ++ padded 2 m.date.month ++ "-" ++ padded 2 m.date.day ++
      "T" ++ (padded 2 (m.ofDay / 3600) ++ ":" ++ padded 2 (m.ofDay / 60 % 60) ++ ":" ++
        padded 2 (m.ofDay % 60 + m.nanos / 1000000000)) ++ partText (m.nanos % 1000000000) ++ "Z" := rfl
  simp [hstamp]

theorem shown_eq (m : Moment) :
    m.shown = ⟨if 1000000000 ≤ m.nanos ∧ m.seconds % 60 ≠ 59 then m.seconds + 1 else m.seconds,
      if 1000000000 ≤ m.nanos ∧ m.seconds % 60 ≠ 59 then m.nanos - 1000000000 else m.nanos⟩ := by
  unfold shown
  split <;> rfl

theorem date_shown (m : Moment) : m.shown.date = m.date := by
  have hday : m.shown.seconds / 86400 = m.seconds / 86400 := by
    rw [shown_eq]
    dsimp only
    split <;> omega
  rw [date, date, hday]

theorem ofDay_lt (m : Moment) : m.ofDay < 86400 := by
  unfold ofDay
  omega

theorem ofLocal?_shown {m : Moment} (h : m.IsTime) : ofLocal? m.date (m.ofDay / 3600) (m.ofDay / 60 % 60)
    (m.ofDay % 60 + m.nanos / 1000000000) (m.nanos % 1000000000) 0 = some m.shown := by
  have hnanos := h.nanos
  have hday := m.ofDay_lt
  have hdays : m.date.toDays = m.seconds / 86400 := Date.toDays_ofDays _
  have hsecond : (m.ofDay : Int) = m.seconds % 86400 := Int.toNat_of_nonneg (by omega)
  have hparts : m.date.isValid = true ∧ m.ofDay / 3600 < 24 ∧ m.ofDay / 60 % 60 < 60 ∧
      m.ofDay % 60 + m.nanos / 1000000000 ≤ 60 ∧ (0 : Int).natAbs < 86400 :=
    ⟨Date.isValid_ofDays h.year, by omega, by omega, by omega, by decide⟩
  have hshown : (⟨m.date.toDays * 86400 + (m.ofDay / 3600 : Nat) * 3600 + (m.ofDay / 60 % 60 : Nat) * 60 +
      (if m.ofDay % 60 + m.nanos / 1000000000 = 60 then 59 else m.ofDay % 60 + m.nanos / 1000000000 : Nat) - 0,
      m.nanos % 1000000000 + if m.ofDay % 60 + m.nanos / 1000000000 = 60 then 1000000000 else 0⟩ : Moment) =
      m.shown := by
    have hsum : m.ofDay / 3600 * 3600 + m.ofDay / 60 % 60 * 60 + m.ofDay % 60 = m.ofDay := by omega
    have hminute : (m.ofDay % 60 : Int) = m.seconds % 60 := by omega
    rw [hdays, shown_eq]
    congr 1
    -- A leap second is shown as second 60 where this ends the minute, and as the next second elsewhere.
    · split <;> split <;> omega
    · split <;> split <;> omega
  rw [ofLocal?, if_pos hparts]
  simp only [hshown, date_shown, h.year, if_true]

theorem read?_stamp {m : Moment} (h : m.IsTime) : read? m.stamp = some m.shown := by
  have hvalid : m.date.isValid = true := Date.isValid_ofDays h.year
  simp only [Date.isValid, decide_eq_true_eq] at hvalid
  have hday : m.date.day ≤ 31 := by
    refine hvalid.2.2.2.2.trans ?_
    unfold Date.daysIn
    split <;> split <;> omega
  have hofDay := m.ofDay_lt
  have hnanos := h.nanos
  have hfield (n : Nat) (hn : n < 100) (rest : List Char) :
      field? 2 ((padded 2 n).toList ++ rest) = some (n, rest) := field?_padded (by decide) hn rest
  simp only [read?, toList_stamp, year?_yearText _ (noDigit_cons (show '-'.isDigit = false from rfl) _),
    mark?_cons (show isBlank '-' = false from rfl), mark?_cons (show isBlank ':' = false from rfl),
    hfield m.date.month (by omega), hfield m.date.day (by omega), hfield (m.ofDay / 3600) (by omega),
    hfield (m.ofDay / 60 % 60) (by omega), hfield (m.ofDay % 60 + m.nanos / 1000000000) (by omega),
    part?_partText (show m.nanos % 1000000000 < 1000000000 by omega), Option.bind_eq_bind, Option.bind_some]
  exact ofLocal?_shown h

end Lagmeter.Moment
