import Mathlib.Tactic.Common
import Lagmeter.Text.Utf8

/-!
# Texts and their octets

Every text is read back from its octets, and octets that are read as a text are the ones that the
text is written as. No second way to write a character is accepted.
-/

namespace Lagmeter.Utf8

/-! ## Octets and characters -/

theorem toNat_octet {n : Nat} (h : n < 256) : (octet n).toNat = n := by
  rw [octet, UInt8.toNat_ofNat']
  omega

theorem octet_eq {n : Nat} {o : UInt8} (h : n = o.toNat) : octet n = o := by
  rw [h, octet, UInt8.ofNat_toNat]

/-- The numbers of characters: what surrogates leave of the code points. -/
def Scalar (n : Nat) : Prop := n < 0xD800 ∨ 0xDFFF < n ∧ n < 0x110000

theorem exists_scalar (c : Char) : ∃ n, Scalar n ∧ Char.ofNat n = c := by
  have h := c.valid
  simp only [UInt32.isValidChar, Nat.isValidChar] at h
  exact ⟨c.toNat, h, Char.ofNat_toNat c⟩

theorem encodeChar_ofNat {n : Nat} (h : Scalar n) : encodeChar (Char.ofNat n) =
    if n < 0x80 then [octet n]
    else if n < 0x800 then [octet (0xC0 + n / 64), octet (0x80 + n % 64)]
    else if n < 0x10000 then
      [octet (0xE0 + n / 4096), octet (0x80 + n / 64 % 64), octet (0x80 + n % 64)]
    else
      [octet (0xF0 + n / 262144), octet (0x80 + n / 4096 % 64), octet (0x80 + n / 64 % 64),
        octet (0x80 + n % 64)] := by
  have hn : n.isValidChar := h
  have hback : (Char.ofNat n).toNat = n := by
    rw [Char.ofNat, dif_pos hn]
    rfl
  rw [encodeChar, hback]

/-! ## Reading what was written -/

variable {c : Char} {i : Nat}

theorem start_of_one {n : Nat} (h : n < 0x80) : start (octet n) = .char (Char.ofNat n) := by
  rw [start, toNat_octet (by omega), if_pos h]

theorem Begun.next_last {b : Begun} {n : Nat} (hb : b.owed = 1) (hlow : b.low ≤ 0x80)
    (hhigh : 0xBF ≤ b.high) (hn : n < 64) :
    b.next (octet (0x80 + n)) = .char (Char.ofNat (64 * b.value + n)) := by
  rw [Begun.next, toNat_octet (by omega), if_pos (by omega), if_pos hb, Nat.add_sub_cancel_left]

theorem Begun.next_inner {b : Begun} {n : Nat} (hb : b.owed ≠ 1) (hlow : b.low ≤ 0x80 + n)
    (hhigh : 0x80 + n ≤ b.high) (hn : n < 64) :
    b.next (octet (0x80 + n)) =
      .begun ⟨b.seen + 1, b.owed - 1, 0x80, 0xBF, 64 * b.value + n⟩ := by
  rw [Begun.next, toNat_octet (by omega), if_pos ⟨hlow, hhigh⟩, if_neg hb,
    Nat.add_sub_cancel_left]

theorem start_of_two {n : Nat} (hlow : 2 ≤ n) (hhigh : n < 32) :
    start (octet (0xC0 + n)) = .begun ⟨1, 1, 0x80, 0xBF, n⟩ := by
  rw [start, toNat_octet (by omega), if_neg (by omega), if_neg (by omega), if_pos (by omega),
    Nat.add_sub_cancel_left]

/-- The first octet of three narrows the second where a shorter form or a surrogate would be. -/
theorem start_of_three {n : Nat} (h : n < 16) : ∃ low high,
    start (octet (0xE0 + n)) = .begun ⟨1, 2, low, high, n⟩ ∧
      ∀ m < 64, 32 ≤ 64 * n + m → 64 * n + m < 864 ∨ 896 ≤ 64 * n + m →
        low ≤ 0x80 + m ∧ 0x80 + m ≤ high := by
  rw [start, toNat_octet (by omega), if_neg (by omega), if_neg (by omega), if_neg (by omega)]
  by_cases hfirst : n = 0
  · exact ⟨0xA0, 0xBF, by rw [hfirst]; rfl, fun m hm => by omega⟩
  rw [if_neg (by omega)]
  by_cases hsurrogates : n = 13
  · exact ⟨0x80, 0x9F, by rw [hsurrogates]; rfl, fun m hm => by omega⟩
  rw [if_neg (by omega), if_pos (by omega), Nat.add_sub_cancel_left]
  exact ⟨0x80, 0xBF, rfl, fun m hm => by omega⟩

theorem start_of_four {n : Nat} (h : n < 5) : ∃ low high,
    start (octet (0xF0 + n)) = .begun ⟨1, 3, low, high, n⟩ ∧
      ∀ m < 64, 16 ≤ 64 * n + m → 64 * n + m < 272 → low ≤ 0x80 + m ∧ 0x80 + m ≤ high := by
  rw [start, toNat_octet (by omega), if_neg (by omega), if_neg (by omega), if_neg (by omega),
    if_neg (by omega), if_neg (by omega), if_neg (by omega)]
  by_cases hfirst : n = 0
  · exact ⟨0x90, 0xBF, by rw [hfirst]; rfl, fun m hm => by omega⟩
  rw [if_neg (by omega)]
  by_cases hlast : n = 4
  · exact ⟨0x80, 0x8F, by rw [hlast]; rfl, fun m hm => by omega⟩
  rw [if_pos (by omega), Nat.add_sub_cancel_left]
  exact ⟨0x80, 0xBF, rfl, fun m hm => by omega⟩

theorem decodeFrom_encodeChar (c : Char) (i : Nat) (rest : List UInt8) : ∃ j,
    decodeFrom i none (encodeChar c ++ rest) = (decodeFrom j none rest).map (c :: ·) := by
  obtain ⟨n, hn, rfl⟩ := exists_scalar c
  have hmod : n % 64 < 64 := Nat.mod_lt n (by decide)
  rw [encodeChar_ofNat hn]
  unfold Scalar at hn
  by_cases h1 : n < 0x80
  · refine ⟨i + 1, ?_⟩
    simp only [if_pos h1, List.cons_append, List.nil_append, decodeFrom, start_of_one h1]
  rw [if_neg h1]
  by_cases h2 : n < 0x800
  · refine ⟨i + 1 + 1, ?_⟩
    have hlast := Begun.next_last (b := ⟨1, 1, 0x80, 0xBF, n / 64⟩) rfl (by simp) (by simp) hmod
    simp only [if_pos h2, List.cons_append, List.nil_append, decodeFrom,
      start_of_two (n := n / 64) (by omega) (by omega), hlast, Nat.div_add_mod]
  rw [if_neg h2]
  have hjoin : 64 * (n / 4096) + n / 64 % 64 = n / 64 := by omega
  by_cases h3 : n < 0x10000
  · obtain ⟨low, high, hstart, hsecond⟩ := start_of_three (n := n / 4096) (by omega)
    obtain ⟨hlow, hhigh⟩ := hsecond (n / 64 % 64) (by omega) (by omega) (by omega)
    have hinner := Begun.next_inner (b := ⟨1, 2, low, high, n / 4096⟩) (by simp) hlow hhigh
      (by omega)
    have hlast := Begun.next_last (b := ⟨1 + 1, 2 - 1, 0x80, 0xBF, n / 64⟩) rfl (by simp)
      (by simp) hmod
    refine ⟨i + 1 + 1 + 1, ?_⟩
    simp only [if_pos h3, List.cons_append, List.nil_append, decodeFrom, hstart, hinner, hjoin,
      hlast, Nat.div_add_mod]
  · obtain ⟨low, high, hstart, hsecond⟩ := start_of_four (n := n / 262144) (by omega)
    have hjoin' : 64 * (n / 262144) + n / 4096 % 64 = n / 4096 := by omega
    obtain ⟨hlow, hhigh⟩ := hsecond (n / 4096 % 64) (by omega) (by omega) (by omega)
    have hinner := Begun.next_inner (b := ⟨1, 3, low, high, n / 262144⟩) (by simp) hlow hhigh
      (by omega)
    have hinner' := Begun.next_inner (b := ⟨1 + 1, 3 - 1, 0x80, 0xBF, n / 4096⟩)
      (n := n / 64 % 64) (by simp) (by simp) (by simp only; omega) (by omega)
    have hlast := Begun.next_last (b := ⟨1 + 1 + 1, 3 - 1 - 1, 0x80, 0xBF, n / 64⟩) rfl (by simp)
      (by simp) hmod
    refine ⟨i + 1 + 1 + 1 + 1, ?_⟩
    simp only [if_neg h3, List.cons_append, List.nil_append, decodeFrom, hstart, hinner, hjoin',
      hinner', hjoin, hlast, Nat.div_add_mod]

theorem decodeFrom_flatMap (cs : List Char) (i : Nat) :
    decodeFrom i none (cs.flatMap encodeChar) = .ok cs := by
  induction cs generalizing i with
  | nil => rfl
  | cons c cs ih =>
    obtain ⟨j, hj⟩ := decodeFrom_encodeChar c i (cs.flatMap encodeChar)
    rw [List.flatMap_cons, hj, ih j]
    rfl

theorem decode_encode (s : String) : decode (encode s) = .ok s := by
  rw [decode, encode, decodeFrom_flatMap]
  exact congrArg Except.ok String.ofList_toList

/-! ## Writing what was read -/

/-- The octets read of a character that is not complete. -/
inductive Stem : List UInt8 → Begun → Prop where
  | ofTwo {o : UInt8} (hlow : 0xC2 ≤ o.toNat) (hhigh : o.toNat < 0xE0) :
      Stem [o] ⟨1, 1, 0x80, 0xBF, o.toNat - 0xC0⟩
  | ofThree {o : UInt8} {low high : Nat} (hlow : 0xE0 ≤ o.toNat) (hhigh : o.toNat < 0xF0)
      (habove : 0x80 ≤ low) (hbelow : high ≤ 0xBF) (hshort : o.toNat = 0xE0 → 0xA0 ≤ low)
      (hsurrogate : o.toNat = 0xED → high ≤ 0x9F) :
      Stem [o] ⟨1, 2, low, high, o.toNat - 0xE0⟩
  | twoOfThree {o p : UInt8} {v : Nat} (hlow : 0xE0 ≤ o.toNat) (hp : 0x80 ≤ p.toNat)
      (hp' : p.toNat ≤ 0xBF) (hv : v = 64 * (o.toNat - 0xE0) + (p.toNat - 0x80)) (hlong : 32 ≤ v)
      (hrange : v < 864 ∨ 896 ≤ v ∧ v < 1024) : Stem [o, p] ⟨2, 1, 0x80, 0xBF, v⟩
  | ofFour {o : UInt8} {low high : Nat} (hlow : 0xF0 ≤ o.toNat) (hhigh : o.toNat ≤ 0xF4)
      (habove : 0x80 ≤ low) (hbelow : high ≤ 0xBF) (hshort : o.toNat = 0xF0 → 0x90 ≤ low)
      (hlast : o.toNat = 0xF4 → high ≤ 0x8F) : Stem [o] ⟨1, 3, low, high, o.toNat - 0xF0⟩
  | twoOfFour {o p : UInt8} {v : Nat} (hlow : 0xF0 ≤ o.toNat) (hp : 0x80 ≤ p.toNat)
      (hp' : p.toNat ≤ 0xBF) (hv : v = 64 * (o.toNat - 0xF0) + (p.toNat - 0x80))
      (hlong : 16 ≤ v) (hrange : v < 272) : Stem [o, p] ⟨2, 2, 0x80, 0xBF, v⟩
  | threeOfFour {o p q : UInt8} {u v : Nat} (hlow : 0xF0 ≤ o.toNat) (hp : 0x80 ≤ p.toNat)
      (hp' : p.toNat ≤ 0xBF) (hu : u = 64 * (o.toNat - 0xF0) + (p.toNat - 0x80))
      (hlong : 16 ≤ u) (hrange : u < 272) (hq : 0x80 ≤ q.toNat) (hq' : q.toNat ≤ 0xBF)
      (hv : v = 64 * u + (q.toNat - 0x80)) : Stem [o, p, q] ⟨3, 1, 0x80, 0xBF, v⟩

theorem encodeChar_of_start {o : UInt8} (h : start o = .char c) : encodeChar c = [o] := by
  unfold start at h
  simp only at h
  split at h
  case isFalse => split_ifs at h
  case isTrue hn =>
    obtain rfl := Start.char.inj h
    rw [encodeChar_ofNat (by unfold Scalar; omega), if_pos hn, octet_eq rfl]

theorem stem_of_start {o : UInt8} {b : Begun} (h : start o = .begun b) : Stem [o] b := by
  unfold start at h
  simp only at h
  split_ifs at h with h1 h2 h3 h4 h5 h6 h7 h8 h9 <;> obtain rfl := Start.begun.inj h
  · exact .ofTwo (by omega) h3
  · rw [show 0 = o.toNat - 0xE0 by omega]
    exact .ofThree (by omega) (by omega) (by omega) (by omega) (by omega) (by omega)
  · rw [show 13 = o.toNat - 0xE0 by omega]
    exact .ofThree (by omega) (by omega) (by omega) (by omega) (by omega) (by omega)
  · exact .ofThree (by omega) h6 (by omega) (by omega) (by omega) (by omega)
  · rw [show 0 = o.toNat - 0xF0 by omega]
    exact .ofFour (by omega) (by omega) (by omega) (by omega) (by omega) (by omega)
  · exact .ofFour (by omega) (by omega) (by omega) (by omega) (by omega) (by omega)
  · rw [show 4 = o.toNat - 0xF0 by omega]
    exact .ofFour (by omega) (by omega) (by omega) (by omega) (by omega) (by omega)

theorem Begun.next_eq {b : Begun} {o : UInt8} (h : b.next o ≠ .refused) :
    b.low ≤ o.toNat ∧ o.toNat ≤ b.high ∧
      b.next o = if b.owed = 1 then .char (Char.ofNat (64 * b.value + (o.toNat - 0x80)))
        else .begun ⟨b.seen + 1, b.owed - 1, 0x80, 0xBF, 64 * b.value + (o.toNat - 0x80)⟩ := by
  unfold Begun.next at h ⊢
  simp only at h ⊢
  by_cases ho : b.low ≤ o.toNat ∧ o.toNat ≤ b.high
  · exact ⟨ho.1, ho.2, by rw [if_pos ho]⟩
  · exact absurd (if_neg ho) h

theorem Stem.next_begun {pre : List UInt8} {b b' : Begun} {o : UInt8} (hstem : Stem pre b)
    (h : b.next o = .begun b') : Stem (pre ++ [o]) b' := by
  obtain ⟨hlow, hhigh, heq⟩ := Begun.next_eq (b := b) (o := o) (by rw [h]; simp)
  rw [h] at heq
  cases hstem with
  | ofTwo | twoOfThree | threeOfFour => simp at heq
  | ofThree h1 h2 h3 h4 h5 h6 =>
    rw [if_neg (by simp)] at heq
    obtain rfl := Start.begun.inj heq
    dsimp only at hlow hhigh ⊢
    exact .twoOfThree h1 (by omega) (by omega) rfl (by omega) (by omega)
  | ofFour h1 h2 h3 h4 h5 h6 =>
    rw [if_neg (by simp)] at heq
    obtain rfl := Start.begun.inj heq
    dsimp only at hlow hhigh ⊢
    exact .twoOfFour h1 (by omega) (by omega) rfl (by omega) (by omega)
  | twoOfFour h1 h2 h3 h4 h5 h6 =>
    rw [if_neg (by simp)] at heq
    obtain rfl := Start.begun.inj heq
    exact .threeOfFour h1 h2 h3 h4 h5 h6 hlow hhigh rfl

theorem Stem.next_char {pre : List UInt8} {b : Begun} {o : UInt8} (hstem : Stem pre b)
    (h : b.next o = .char c) : encodeChar c = pre ++ [o] := by
  obtain ⟨hlow, hhigh, heq⟩ := Begun.next_eq (b := b) (o := o) (by rw [h]; simp)
  rw [h] at heq
  cases hstem with
  | ofThree | ofFour | twoOfFour => simp at heq
  | ofTwo h1 h2 =>
    rw [if_pos rfl, Start.char.injEq] at heq
    dsimp only at hlow hhigh heq
    rw [heq]
    rename_i p
    generalize hn : 64 * (p.toNat - 0xC0) + (o.toNat - 0x80) = n
    have hscalar : Scalar n := by unfold Scalar; omega
    rw [encodeChar_ofNat hscalar, if_neg (by omega), if_pos (by omega),
      octet_eq (o := p) (by omega), octet_eq (o := o) (by omega)]
    rfl
  | @twoOfThree p q v h1 h2 h3 h4 h5 h6 =>
    rw [if_pos rfl, Start.char.injEq] at heq
    dsimp only at hlow hhigh heq
    rw [heq]
    generalize hn : 64 * v + (o.toNat - 0x80) = n
    have hscalar : Scalar n := by unfold Scalar; omega
    rw [encodeChar_ofNat hscalar, if_neg (by omega), if_neg (by omega),
      if_pos (by omega), octet_eq (o := p) (by omega), octet_eq (o := q) (by omega),
      octet_eq (o := o) (by omega)]
    rfl
  | @threeOfFour p q r u v h1 h2 h3 h4 h5 h6 h7 h8 h9 =>
    rw [if_pos rfl, Start.char.injEq] at heq
    dsimp only at hlow hhigh heq
    rw [heq]
    generalize hn : 64 * v + (o.toNat - 0x80) = n
    have hscalar : Scalar n := by unfold Scalar; omega
    rw [encodeChar_ofNat hscalar, if_neg (by omega), if_neg (by omega),
      if_neg (by omega), octet_eq (o := p) (by omega), octet_eq (o := q) (by omega),
      octet_eq (o := r) (by omega), octet_eq (o := o) (by omega)]
    rfl

/-- Where the reader is: between two characters, or after the first octets of one. -/
def At (pre : List UInt8) : Option Begun → Prop
  | none => pre = []
  | some b => Stem pre b

theorem flatMap_of_decodeFrom {octets pre : List UInt8} {state : Option Begun} {cs : List Char}
    (hat : At pre state) (h : decodeFrom i state octets = .ok cs) :
    cs.flatMap encodeChar = pre ++ octets := by
  induction octets generalizing i pre state cs with
  | nil =>
    cases state with
    | some b => simp [decodeFrom] at h
    | none =>
      obtain rfl := Except.ok.inj h
      rw [hat]
      rfl
  | cons o octets ih =>
    -- An octet completes a character, or leaves the reader inside of one.
    have hchar : ∀ c, encodeChar c = pre ++ [o] →
        (decodeFrom (i + 1) none octets).map (c :: ·) = .ok cs →
          cs.flatMap encodeChar = pre ++ o :: octets := by
      intro c hc hmap
      cases hrest : decodeFrom (i + 1) none octets with
      | error e => simp [hrest, Except.map] at hmap
      | ok ds =>
        rw [hrest] at hmap
        obtain rfl := Except.ok.inj hmap
        have hbetween : At [] none := rfl
        rw [List.flatMap_cons, hc, ih hbetween hrest, List.append_assoc]
        rfl
    have hbegun : ∀ b, Stem (pre ++ [o]) b → decodeFrom (i + 1) (some b) octets = .ok cs →
        cs.flatMap encodeChar = pre ++ o :: octets := by
      intro b hb hrest
      have hinside : At (pre ++ [o]) (some b) := hb
      rw [ih hinside hrest, List.append_assoc]
      rfl
    cases state with
    | none =>
      obtain rfl : pre = [] := hat
      rw [decodeFrom] at h
      split at h
      case h_1 c hc => exact hchar c (encodeChar_of_start hc) h
      case h_2 b hb => exact hbegun b (stem_of_start hb) h
      case h_3 => cases h
    | some b =>
      rw [decodeFrom] at h
      split at h
      case h_1 c hc => exact hchar c (Stem.next_char hat hc) h
      case h_2 b' hb => exact hbegun b' (Stem.next_begun hat hb) h
      case h_3 => cases h

theorem encode_of_decode {octets : List UInt8} {s : String} (h : decode octets = .ok s) :
    encode s = octets := by
  rw [decode] at h
  cases hcs : decodeFrom 0 none octets with
  | error e => simp [hcs, Except.map] at h
  | ok cs =>
    rw [hcs] at h
    obtain rfl := Except.ok.inj h
    rw [encode, String.toList_ofList]
    have hstart : At [] none := rfl
    exact flatMap_of_decodeFrom hstart hcs

end Lagmeter.Utf8
