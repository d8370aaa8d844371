import Lagmeter.Time.Calendar

/-!
# The calendar

A day is found again from its date. In a cycle of 400 years a day is counted by centuries, by groups of four
years, by years and by days. The last of each of these may be one longer than the others or one shorter.
-/

namespace Lagmeter.Date

/-- Day `d` of a cycle of 400 years: day `n` of year `r` of group `q` of century `c`. -/
structure Placed (d c q r n : Int) : Prop where
  sum_eq : d = 36524 * c + 1461 * q + 365 * r + n
  century : 0 ≤ c ∧ c ≤ 3
  group : 0 ≤ q ∧ q ≤ 24
  year : 0 ≤ r ∧ r ≤ 3
  day : 0 ≤ n ∧ n ≤ 365
  /-- The year of a leap day is the last one of its group, and no century ends with one but the last. -/
  leap : n = 365 → r = 3 ∧ (q = 24 → c = 3)

theorem exists_placed {d : Int} (hlow : 0 ≤ d) (hhigh : d < 146097) : ∃ c q r n, Placed d c q r n := by
  obtain ⟨c, hc⟩ : ∃ c, c = min (d / 36524) 3 := ⟨_, rfl⟩
  obtain ⟨q, hq⟩ : ∃ q, q = (d - 36524 * c) / 1461 := ⟨_, rfl⟩
  obtain ⟨r, hr⟩ : ∃ r, r = min ((d - 36524 * c - 1461 * q) / 365) 3 := ⟨_, rfl⟩
  refine ⟨c, q, r, d - 36524 * c - 1461 * q - 365 * r, ?_, ?_, ?_, ?_, ?_, ?_⟩ <;> omega

variable {d c q r n : Int}

theorem Placed.yearOfCycle_eq (h : Placed d c q r n) : yearOfCycle d = 100 * c + 4 * q + r := by
  obtain ⟨hsum, hc, hq, hr, hn, hleap⟩ := h
  have hdiv (k x : Int) (hk : 0 < k) (hlow : x * k ≤ d) (hhigh : d < x * k + k) : d / k = x :=
    (Int.ediv_eq_iff_of_pos hk).mpr ⟨hlow, hhigh⟩
  -- The leap days before `d`, up to the one at the end of its year.
  have hcentury : d / 36524 - d / 146096 = c := by
    rcases (by omega : 1461 * q + 365 * r + n < 36524 ∨ c = 3 ∧ d = 146096) with hlt | ⟨rfl, rfl⟩
    · rw [hdiv 36524 c (by omega) (by omega) (by omega), hdiv 146096 0 (by omega) (by omega) (by omega),
        Int.sub_zero]
    · rfl
  have hgroup : d / 1460 = 25 * c + q ∧ n < 365 ∨ d / 1460 = 25 * c + q + 1 ∧ 0 < n := by
    rcases Int.lt_or_le (24 * c + q + 365 * r + n) 1460 with hlt | hge
    · exact .inl ⟨hdiv 1460 _ (by omega) (by omega) (by omega), by omega⟩
    · exact .inr ⟨hdiv 1460 _ (by omega) (by omega) (by omega), by omega⟩
  have hyear : d - d / 1460 + d / 36524 - d / 146096 = d - d / 1460 + c := by omega
  rw [yearOfCycle, hyear, Int.ediv_eq_iff_of_pos (by omega)]
  omega

theorem Placed.daysBefore_eq (h : Placed d c q r n) : d - daysBefore (100 * c + 4 * q + r) = n := by
  obtain ⟨hsum, hc, hq, hr, hn, hleap⟩ := h
  have hfour : (100 * c + 4 * q + r) / 4 = 25 * c + q := by omega
  have hhundred : (100 * c + 4 * q + r) / 100 = c := by omega
  rw [daysBefore, hfour, hhundred]
  omega

theorem toDays_ofMarch (hn : 0 ≤ n ∧ n ≤ 365) (year : Int) :
    (ofMarch year n).toDays = year / 400 * 146097 + daysBefore (year - year / 400 * 400) + n - 719468 := by
  have hmonth : 0 ≤ (5 * n + 2) / 153 ∧ (5 * n + 2) / 153 ≤ 11 := by omega
  have hday : 0 ≤ n - (153 * ((5 * n + 2) / 153) + 2) / 5 + 1 := by omega
  simp only [ofMarch]
  generalize (5 * n + 2) / 153 = m at hmonth hday
  by_cases hm : m < 10
  · have hlate : ¬ m + 3 ≤ 2 ∧ ¬ (m + 3).toNat ≤ 2 := by omega
    have hback : ((m + 3).toNat : Int) - 3 = m := by omega
    simp only [toDays, hm, hlate, if_true, if_false, hback, Int.toNat_of_nonneg hday, Int.add_zero]
    omega
  · have hearly : m - 9 ≤ 2 ∧ (m - 9).toNat ≤ 2 := by omega
    have hback : ((m - 9).toNat : Int) + 9 = m := by omega
    simp only [toDays, hm, hearly, if_true, if_false, hback, Int.toNat_of_nonneg hday, Int.add_sub_cancel]
    omega

theorem exists_ofDays_eq (days : Int) : ∃ cycle d c q r n, days = cycle * 146097 + d - 719468 ∧
    Placed d c q r n ∧ ofDays days = ofMarch (100 * c + 4 * q + r + cycle * 400) n := by
  obtain ⟨c, q, r, n, h⟩ := exists_placed (d := days + 719468 - (days + 719468) / 146097 * 146097)
    (by omega) (by omega)
  refine ⟨(days + 719468) / 146097, _, c, q, r, n, by omega, h, ?_⟩
  simp only [ofDays, h.yearOfCycle_eq, h.daysBefore_eq]

/-- A day is found again from its date. -/
theorem toDays_ofDays (days : Int) : (ofDays days).toDays = days := by
  obtain ⟨cycle, d, c, q, r, n, hdays, h, hdate⟩ := exists_ofDays_eq days
  have hday := h.daysBefore_eq
  have hcycle : (100 * c + 4 * q + r + cycle * 400) / 400 = cycle := by
    have hc := h.century
    have hq := h.group
    have hr := h.year
    omega
  rw [hdate, toDays_ofMarch h.day, hcycle, Int.add_sub_cancel]
  omega

/-! ## Valid dates -/

theorem day_ofMarch_le (hn : 0 ≤ n ∧ n ≤ 365) {year : Int} (hleap : n = 365 → isLeap (year + 1) = true) :
    (ofMarch year n).day ≤ daysIn (ofMarch year n).year (ofMarch year n).month := by
  obtain ⟨m, hm⟩ : ∃ m, (5 * n + 2) / 153 = m := ⟨_, rfl⟩
  have hcases : m = 11 ∨ m = 0 ∨ m = 1 ∨ m = 2 ∨ m = 3 ∨ m = 4 ∨ m = 5 ∨ m = 6 ∨ m = 7 ∨ m = 8 ∨ m = 9 ∨
      m = 10 := by omega
  simp only [ofMarch, hm]
  rcases hcases with rfl | rfl | rfl | rfl | rfl | rfl | rfl | rfl | rfl | rfl | rfl | rfl
  · by_cases hlast : n = 365
    · simp [daysIn, hleap hlast]
      omega
    · simp [daysIn]
      split <;> omega
  all_goals
    simp [daysIn]
    omega

theorem isValid_ofMarch (hn : 0 ≤ n ∧ n ≤ 365) {year : Int} (hyear : yearInRange (ofMarch year n).year = true)
    (hleap : n = 365 → isLeap (year + 1) = true) : (ofMarch year n).isValid = true := by
  have hmonth : 1 ≤ (ofMarch year n).month ∧ (ofMarch year n).month ≤ 12 := by
    simp only [ofMarch]
    split <;> omega
  have hday : 1 ≤ (ofMarch year n).day := by
    simp only [ofMarch]
    omega
  exact decide_eq_true ⟨hyear, hmonth.1, hmonth.2, hday, day_ofMarch_le hn hleap⟩

theorem isValid_ofDays {days : Int} (h : yearInRange (ofDays days).year = true) :
    (ofDays days).isValid = true := by
  obtain ⟨cycle, d, c, q, r, n, -, hplaced, hdate⟩ := exists_ofDays_eq days
  rw [hdate] at h ⊢
  refine isValid_ofMarch hplaced.day h fun hn => decide_eq_true ?_
  obtain ⟨rfl, hlast⟩ := hplaced.leap hn
  have hc := hplaced.century
  have hq := hplaced.group
  omega

end Lagmeter.Date
