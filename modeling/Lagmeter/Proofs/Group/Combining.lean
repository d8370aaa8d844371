import Lagmeter.Group.Collective

/-!
# What the root makes of the contributions

The words of all ranks, one after the other, the least, the greatest or the sum of one word of each,
and identifiers as pairs of words.
-/

namespace Lagmeter

namespace Collective

/-! ## One list out of many -/

variable {α : Type} {values? : Payload → Option (List α)}

theorem joined_go_of_uniform {count : Nat} {length : Option Nat} {payloads : List Payload}
    {lists : List (List α)} (hlength : length.getD count = count)
    (hpayloads : payloads.map values? = lists.map some)
    (hlists : ∀ vs ∈ lists, vs.length = count) (rank : Nat) :
    joined.go values? length rank payloads = .ok lists.flatten := by
  induction payloads generalizing length lists rank with
  | nil =>
    cases lists with
    | nil => rfl
    | cons _ _ => simp at hpayloads
  | cons payload rest ih =>
    cases lists with
    | nil => simp at hpayloads
    | cons vs lists =>
      simp only [List.map_cons, List.cons.injEq] at hpayloads
      have hvs : vs.length = count := hlists vs List.mem_cons_self
      have hexpected : vs.length = length.getD vs.length := by
        rw [hvs]
        exact hlength.symm
      simp only [joined.go, hpayloads.1, if_pos hexpected]
      rw [ih (by simpa [hvs] using hlength) hpayloads.2
        fun vs' hvs' => hlists vs' (List.mem_cons_of_mem _ hvs')]
      rfl

theorem joined_eq_ok {count : Nat} {payloads : List Payload} {lists : List (List α)}
    (hpayloads : payloads.map values? = lists.map some)
    (hlists : ∀ vs ∈ lists, vs.length = count) :
    joined values? payloads = .ok lists.flatten :=
  joined_go_of_uniform rfl hpayloads hlists 0

theorem joined_range (values? : Payload → Option (List α)) (wrap : List α → Payload)
    (hwrap : ∀ vs, values? (wrap vs) = some vs) {size count : Nat} {lists : Nat → List α}
    (hlists : ∀ q < size, (lists q).length = count) :
    joined values? ((List.range size).map fun q => wrap (lists q)) =
      .ok ((List.range size).flatMap lists) := by
  rw [List.flatMap_def]
  refine joined_eq_ok ?_ (by simpa using hlists)
  simp [hwrap, Function.comp_def]

theorem singles_map (ws : List Int64) (rank : Nat) :
    singles rank (ws.map fun w => .words [w]) = .ok ws := by
  induction ws generalizing rank with
  | nil => rfl
  | cons w ws ih => simp only [List.map_cons, singles, ih, Except.map]

/-! ## One word out of many -/

theorem toInt_lesser (a b : Int64) : (lesser a b).toInt = min a.toInt b.toInt := by
  unfold lesser
  split <;> omega

theorem toInt_greater (a b : Int64) : (greater a b).toInt = max a.toInt b.toInt := by
  unfold greater
  split <;> omega

theorem toInt_foldl_lesser (ws : List Int64) (w : Int64) :
    (ws.foldl lesser w).toInt = (ws.map Int64.toInt).foldl min w.toInt := by
  induction ws generalizing w with
  | nil => rfl
  | cons v ws ih => rw [List.foldl_cons, ih, toInt_lesser, List.map_cons, List.foldl_cons]

theorem toInt_foldl_greater (ws : List Int64) (w : Int64) :
    (ws.foldl greater w).toInt = (ws.map Int64.toInt).foldl max w.toInt := by
  induction ws generalizing w with
  | nil => rfl
  | cons v ws ih => rw [List.foldl_cons, ih, toInt_greater, List.map_cons, List.foldl_cons]

theorem toInt_saturatingAdd (a b : Int64) : (saturatingAdd a b).toInt =
    max minWord.toInt (min maxWord.toInt (a.toInt + b.toInt)) := by
  have hmin : minWord.toInt = -9223372036854775808 := by decide
  have hmax : maxWord.toInt = 9223372036854775807 := by decide
  rw [saturatingAdd, Int64.toInt_ofInt_of_le]
  · omega
  · omega

theorem toInt_foldl_saturatingAdd {ws : List Int64} (hws : ∀ w ∈ ws, 0 ≤ w.toInt) {total : Int}
    {acc : Int64} (htotal : 0 ≤ total) (hacc : acc.toInt = min total maxWord.toInt) :
    (ws.foldl saturatingAdd acc).toInt =
      min (total + (ws.map Int64.toInt).foldr (· + ·) 0) maxWord.toInt := by
  have hmin : minWord.toInt = -9223372036854775808 := by decide
  have hmax : maxWord.toInt = 9223372036854775807 := by decide
  induction ws generalizing total acc with
  | nil => simp [hacc]
  | cons w ws ih =>
    have hw : 0 ≤ w.toInt := hws w List.mem_cons_self
    have hnext : (saturatingAdd acc w).toInt = min (total + w.toInt) maxWord.toInt := by
      rw [toInt_saturatingAdd, hacc]
      omega
    rw [List.foldl_cons, ih (fun v hv => hws v (List.mem_cons_of_mem _ hv)) (by omega) hnext,
      List.map_cons, List.foldr_cons, Int.add_assoc]

end Collective

/-! ## Identifiers -/

namespace Identifier

/-- An identifier without any bit cannot be told from none. -/
def known (id : Option Identifier) : Option Identifier := id.filter (· ≠ zero)

theorem length_toWords (id : Option Identifier) : (toWords id).length = 2 := rfl

theorem ofWords_toWords_append (id : Option Identifier) (ws : List Int64) :
    ofWords (toWords id ++ ws) = known id :: ofWords ws := by
  have hpair : ∀ i : Identifier, ofPair i.high.toInt64 i.low.toInt64 =
      if i = zero then none else some i := fun _ => rfl
  show ofPair _ _ :: ofWords ws = _
  rw [hpair]
  cases id with
  | none => rfl
  | some i => by_cases hi : i = zero <;> simp [known, hi, Option.filter]

theorem ofWords_toWords (id : Option Identifier) : ofWords (toWords id) = [known id] :=
  ofWords_toWords_append id []

theorem ofWords_flatMap {β : Type} (ids : β → Option Identifier) (bs : List β) :
    ofWords (bs.flatMap fun b => toWords (ids b)) = bs.map fun b => known (ids b) := by
  induction bs with
  | nil => rfl
  | cons b bs ih => rw [List.flatMap_cons, ofWords_toWords_append, ih, List.map_cons]

end Identifier

end Lagmeter
