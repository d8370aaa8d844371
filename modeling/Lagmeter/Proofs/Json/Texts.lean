import Lagmeter.Json.Reader

/-!
# Texts between quotes

What `escape` writes between quotes is read as far as the closing quote, and stands for the characters it
was written for, whatever these are.
-/

namespace Lagmeter.Json

/-! ## Escapes -/

theorem hexValue?_hexDigit {n : Nat} (h : n < 16) : hexValue? (hexDigit n) = some n := by
  have hall : ∀ n < 16, hexValue? (hexDigit n) = some n := by decide
  exact hall n h

theorem unit?_control {n : Nat} (h : n < 32) :
    unit? '0' '0' (hexDigit (n / 16)) (hexDigit (n % 16)) = some n := by
  have hzero : hexValue? '0' = some 0 := by decide
  simp only [unit?, hzero, hexValue?_hexDigit (show n / 16 < 16 by omega),
    hexValue?_hexDigit (show n % 16 < 16 by omega), Option.bind_eq_bind, Option.bind_some, Option.pure_def]
  congr 1
  omega

/-- The three ways to write a character: by a letter, by its number, or as it is. -/
inductive Escaped (c : Char) : List Char → Prop where
  | letter {l : Char} (h : letterEscape? l = some c) : Escaped c ['\\', l]
  | control (h : c.toNat < 32) :
    Escaped c ['\\', 'u', '0', '0', hexDigit (c.toNat / 16), hexDigit (c.toNat % 16)]
  | plain (quote : c ≠ '"') (stroke : c ≠ '\\') (h : ¬ c.toNat < 32) : Escaped c [c]

theorem escaped_escapeChar (c : Char) : Escaped c (escapeChar c) := by
  unfold escapeChar
  split
  case isTrue h => subst h; exact .letter rfl
  split
  case isTrue h => subst h; exact .letter rfl
  split
  case isTrue h => subst h; exact .letter rfl
  split
  case isTrue h => subst h; exact .letter rfl
  split
  case isTrue h => subst h; exact .letter rfl
  split
  case isTrue h => subst h; exact .letter rfl
  split
  case isTrue h => subst h; exact .letter rfl
  split
  case isTrue h => exact .control h
  case isFalse hquote hstroke _ _ _ _ _ h => exact .plain hquote hstroke h

section

variable {c : Char} {e : List Char}

theorem Escaped.textRun? (h : Escaped c e) (cs : List Char) :
    textRun? (e ++ cs) = (Json.textRun? cs).map fun (raw, rest) => (e ++ raw, rest) := by
  cases h with
  | @letter l h =>
    have hu : l ≠ 'u' := by
      rintro rfl
      cases h
    simp [Json.textRun?, h, hu]
  | control h => simp [Json.textRun?, unit?_control h]
  | plain _ hstroke h => simp [Json.textRun?, hstroke, h]

theorem Escaped.unescape? (h : Escaped c e) (cs : List Char) :
    unescape? (e ++ cs) = (Json.unescape? cs).map (c :: ·) := by
  cases h with
  | @letter l h =>
    have hu : l ≠ 'u' := by
      rintro rfl
      cases h
    simp [Json.unescape?, h, hu]
  | control h =>
    have hhigh : isHighHalf c.toNat = false := by simp [isHighHalf]; omega
    have hlow : isLowHalf c.toNat = false := by simp [isLowHalf]; omega
    simp [Json.unescape?, unit?_control h, hhigh, hlow]
  | plain _ hstroke _ => simp [Json.unescape?, hstroke]

end

/-! ## Whole texts -/

/-- What may stand between quotes: it is read up to the quote that closes it. -/
def IsRaw (raw : List Char) : Prop := ∀ rest, textRun? (raw ++ '"' :: rest) = some (raw, rest)

theorem escape_cons (c : Char) (cs : List Char) : escape (c :: cs) = escapeChar c ++ escape cs := rfl

theorem isRaw_escape (cs : List Char) : IsRaw (escape cs) := by
  intro rest
  induction cs with
  | nil => rfl
  | cons c cs ih =>
    rw [escape_cons, List.append_assoc, (escaped_escapeChar c).textRun?, ih]
    rfl

theorem unescape?_escape (cs : List Char) : unescape? (escape cs) = some cs := by
  induction cs with
  | nil => rfl
  | cons c cs ih =>
    rw [escape_cons, (escaped_escapeChar c).unescape?, ih]
    rfl

theorem text?_ofText (s : String) : (ofText s).text? = some s := by
  rw [ofText, text?, unescape?_escape, Option.map_some, String.ofList_toList]

end Lagmeter.Json
