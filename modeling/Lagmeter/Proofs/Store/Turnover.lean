import Lagmeter.Store.Channel
import Mathlib.Data.List.GetD
import Mathlib.Data.Multiset.AddSub

/-!
# How a channel turns over its routes

A channel remembers its background routes in a list and queues an edit for each change of the list. Its
edits, made one after the other, turn the routes that it remembered before into those that it
remembers afterwards. A churn adds and removes in turn, and always finds a route to remove.
-/

namespace Lagmeter.Channel

/-- The edits, made one after the other, turn some routes into others. No route is removed that is not
there. -/
def Turns : List (Structure.Edit Route) → Multiset Route → Multiset Route → Prop
  | [], before, after => before = after
  | .add r :: edits, before, after => Turns edits (r ::ₘ before) after
  | .remove r :: edits, before, after => r ∈ before ∧ Turns edits (before.erase r) after

theorem Turns.append {edits more : List (Structure.Edit Route)} {a b c : Multiset Route}
    (h : Turns edits a b) (hmore : Turns more b c) : Turns (edits ++ more) a c := by
  induction edits generalizing a with
  | nil =>
    obtain rfl : a = b := h
    exact hmore
  | cons e edits ih =>
    cases e with
    | add r => exact ih h
    | remove r => exact ⟨h.1, ih h.2⟩

theorem coe_concat (routes : List Route) (r : Route) :
    ((routes ++ [r] : List Route) : Multiset Route) = r ::ₘ (routes : Multiset Route) :=
  Multiset.coe_eq_coe.mpr (List.perm_append_singleton r routes)

/-! ## Filling -/

theorem turns_fill (c : Channel) (d : Draws) (key : Int) :
    Turns (c.fill d key .routingTable).changes c.routes (c.fill d key .routingTable).channel.routes :=
  (coe_concat c.routes _).symm

theorem turns_populate (c : Channel) (d : Draws) (keys : List Int) :
    Turns (populate .routingTable c d keys).changes c.routes
      (populate .routingTable c d keys).channel.routes := by
  induction keys generalizing c d with
  | nil => rfl
  | cons key rest ih =>
    unfold populate
    split
    case isTrue => exact ih c d
    case isFalse => exact (turns_fill c d key).append (ih _ _)

theorem length_routes_populate (c : Channel) (d : Draws) (keys : List Int) :
    (populate .routingTable c d keys).channel.routes.length = c.routes.length + populated keys := by
  induction keys generalizing c d with
  | nil => rfl
  | cons key rest ih =>
    unfold populate populated
    by_cases hkey : key = 0
    · rw [if_pos hkey, List.filter_cons_of_neg (by simpa using hkey)]
      exact ih c d
    · have hfill : (c.fill d key .routingTable).channel.routes.length = c.routes.length + 1 :=
        List.length_append
      have hrest : (rest.filter (· ≠ 0)).length = populated rest := rfl
      rw [if_neg hkey, List.filter_cons_of_pos (by simpa using hkey), List.length_cons, ih, hfill, hrest]
      omega

/-! ## Churning -/

section

variable {α : Type} (xs : List α) {i : Nat}

theorem cons_swapRemove_perm (hi : i < xs.length) : (xs[i] :: swapRemove xs i).Perm xs := by
  obtain rfl | ⟨ys, last, rfl⟩ := List.eq_nil_or_concat' xs
  · cases hi
  · have hswap : swapRemove (ys ++ [last]) i = ((ys ++ [last]).set i last).dropLast := by simp [swapRemove]
    rw [hswap]
    rcases Nat.lt_or_ge i ys.length with hlt | hge
    · rw [List.set_append_left _ _ hlt, List.dropLast_concat, List.getElem_append_left hlt]
      have hset := List.set_perm_cons_eraseIdx hlt last
      have hget := List.getElem_cons_eraseIdx_perm hlt
      calc ys[i] :: ys.set i last
        _ |>.Perm (ys[i] :: last :: ys.eraseIdx i) := hset.cons _
        _ |>.Perm (last :: ys[i] :: ys.eraseIdx i) := List.Perm.swap ..
        _ |>.Perm (last :: ys) := hget.cons _
        _ |>.Perm (ys ++ [last]) := (List.perm_append_singleton last ys).symm
    · rw [List.length_append, List.length_singleton] at hi
      obtain rfl : i = ys.length := by omega
      simpa using (List.perm_append_singleton last ys).symm

theorem coe_swapRemove [DecidableEq α] (hi : i < xs.length) :
    (swapRemove xs i : Multiset α) = (xs : Multiset α).erase xs[i] := by
  rw [← Multiset.coe_eq_coe.mpr (cons_swapRemove_perm xs hi), ← Multiset.cons_coe, Multiset.erase_cons_head]

theorem length_swapRemove (hi : i < xs.length) : (swapRemove xs i).length + 1 = xs.length :=
  (cons_swapRemove_perm xs hi).length_eq

end

theorem exists_swap_eq (c : Channel) (d : Draws) : ∃ route i, ∃ hi : i < (c.routes ++ [route]).length,
    (swap c d).changes =
      ([.add route, .remove (c.routes ++ [route])[i]] : List (Structure.Edit Route)) ∧
    (swap c d).channel.routes = swapRemove (c.routes ++ [route]) i := by
  have hi := d.next.2.next.2.below_lt (n := (c.routes ++ [backgroundRoute
    (d.next.1 % (Nat.pow 2 32 - 1) + 1) d.next.2.next.1]).length) (by simp)
  refine ⟨_, _, hi, ?_, rfl⟩
  rw [← List.getD_eq_getElem _ (backgroundRoute (d.next.1 % (Nat.pow 2 32 - 1) + 1) d.next.2.next.1) hi]
  rfl

theorem turns_swap (c : Channel) (d : Draws) :
    Turns (swap c d).changes c.routes (swap c d).channel.routes := by
  obtain ⟨route, i, hi, hchanges, hroutes⟩ := exists_swap_eq c d
  rw [hchanges, hroutes, coe_swapRemove _ hi]
  have hthere : (c.routes ++ [route])[i] ∈ route ::ₘ (c.routes : Multiset Route) := by
    rw [← coe_concat]
    exact Multiset.mem_coe.mpr (List.getElem_mem hi)
  exact ⟨hthere, by rw [coe_concat]; rfl⟩

theorem length_routes_swap (c : Channel) (d : Draws) :
    (swap c d).channel.routes.length = c.routes.length := by
  obtain ⟨route, i, hi, -, hroutes⟩ := exists_swap_eq c d
  have hlength := length_swapRemove _ hi
  rw [List.length_append, List.length_singleton] at hlength
  rw [hroutes]
  omega

theorem turns_swaps (n : Nat) (c : Channel) (d : Draws) :
    Turns (swaps n c d).changes c.routes (swaps n c d).channel.routes := by
  induction n generalizing c d with
  | zero => rfl
  | succ n ih => exact (turns_swap c d).append (ih _ _)

theorem length_routes_swaps (n : Nat) (c : Channel) (d : Draws) :
    (swaps n c d).channel.routes.length = c.routes.length := by
  induction n generalizing c d with
  | zero => rfl
  | succ n ih => exact (ih _ _).trans (length_routes_swap c d)

/-! ## One operation after the other -/

/-- Draws an index into a list. There is none into an empty one. -/
def drawIndex? (d : Draws) (length : Nat) : Option (Nat × Draws) :=
  if length = 0 then none else some (d.below length)

/-- Takes out the entry at an index, which the last entry replaces. The index has to be in the list. -/
def swapRemove? {α : Type} (xs : List α) (i : Nat) : Option (α × List α) :=
  xs[i]?.map fun x => (x, swapRemove xs i)

/-- One operation of a churn by its number: an addition or a removal in turn. -/
def churnStep? (w : Work .routingTable) (operation : Nat) : Option (Work .routingTable) :=
  if operation % 2 = 0 then
    let (destination, d) := w.draws.next
    let (gateway, d) := d.next
    let route := backgroundRoute (destination % (Nat.pow 2 32 - 1) + 1) gateway
    some ⟨w.changes.concat (Structure.Edit.add route),
      { w.channel with routes := w.channel.routes ++ [route] }, d⟩
  else
    (drawIndex? w.draws w.channel.routes.length).bind fun (i, d) =>
      (swapRemove? w.channel.routes i).map fun (route, routes) =>
        ⟨w.changes.concat (Structure.Edit.remove route), { w.channel with routes }, d⟩

/-- A churn that makes an even number of operations. -/
def churnLoop? (c : Channel) (d : Draws) (operations : Nat) : Option (Work .routingTable) :=
  (List.range (operations - operations % 2)).foldlM churnStep? ⟨[], c, d⟩

/-- The work so far, and a swap. -/
def Work.andSwap (w : Work .routingTable) : Work .routingTable :=
  ⟨w.changes ++ (swap w.channel w.draws).changes, (swap w.channel w.draws).channel,
    (swap w.channel w.draws).draws⟩

theorem concat_concat {α : Type} (xs : List α) (a b : α) : (xs.concat a).concat b = xs ++ [a, b] := by simp

theorem churnStep?_twice (w : Work .routingTable) (k : Nat) :
    (churnStep? w (2 * k) >>= fun w => churnStep? w (2 * k + 1)) = some w.andSwap := by
  have hi := w.draws.next.2.next.2.below_lt (n := (w.channel.routes ++ [backgroundRoute
    (w.draws.next.1 % (Nat.pow 2 32 - 1) + 1) w.draws.next.2.next.1]).length) (by simp)
  rw [churnStep?, if_pos (by omega)]
  simp only [Option.bind_eq_bind, Option.bind_some, churnStep?]
  rw [if_neg (by omega), drawIndex?, if_neg (by simp), Option.bind_some]
  simp only [swapRemove?, List.getElem?_eq_getElem hi, Option.map_some, Work.andSwap, swap,
    List.getD_eq_getElem _ _ hi]
  exact congrArg (fun changes => some (⟨changes, _, _⟩ : Work .routingTable)) (concat_concat w.changes _ _)

theorem foldlM_churnStep? (n k : Nat) (w : Work .routingTable) :
    (List.range' (2 * k) (2 * n)).foldlM churnStep? w = some
      ⟨w.changes ++ (swaps n w.channel w.draws).changes, (swaps n w.channel w.draws).channel,
        (swaps n w.channel w.draws).draws⟩ := by
  induction n generalizing k w with
  | zero => simp [swaps]
  | succ n ih =>
    have htwo : 2 * (n + 1) = 2 * n + 1 + 1 := by omega
    have hnext : 2 * k + 1 + 1 = 2 * (k + 1) := by omega
    simp only [htwo, List.range'_succ, List.foldlM_cons]
    rw [← bind_assoc, churnStep?_twice, hnext]
    exact (ih (k + 1) w.andSwap).trans (by simp [Work.andSwap, swaps])

/-- A churn draws from lists with routes only, and its operations are swaps. -/
theorem churnLoop?_eq (c : Channel) (d : Draws) (operations : Nat) :
    churnLoop? c d operations = some (churn c d operations .routingTable) := by
  have heven : operations - operations % 2 = 2 * (operations / 2) := by omega
  have hloop := foldlM_churnStep? (operations / 2) 0 ⟨[], c, d⟩
  rw [churnLoop?, heven, List.range_eq_range']
  simpa [churn] using hloop

end Lagmeter.Channel
