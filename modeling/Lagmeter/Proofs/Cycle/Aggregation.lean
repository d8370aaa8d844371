import Lagmeter.Proofs.Crew.Net
import Lagmeter.Proofs.Cycle.Report

/-!
# Collections are correct

The ranks of a group bring their outcomes together. Whatever order they take their steps in, they
all come to an end, the root with the report that the reference says, and all others with nothing.
-/

namespace Lagmeter.Collection

variable {C : Carrier} {g : Roster}

/-- A group whose ranks bring their outcomes together after operation number `base`. -/
def net (g : Roster) (t : C.State) (slots : Nat) (o : Nat → Outcome) (base : Nat) :
    Net C (Except GroupError (Option Aggregate) × Nat) :=
  ⟨t, fun r => (collect (g.member r) slots (o r)).start base⟩

def result (g : Roster) (slots : Nat) (o : Nat → Outcome) (base r : Nat) :
    Except GroupError (Option Aggregate) × Nat :=
  (.ok (if r = 0 then some (reference g.size slots o) else none), base + 10)

/-- The nodes have no part in a collection. -/
def charter (g : Roster) (slots : Nat) (o : Nat → Outcome) (base : Nat) :
    Charter (Except GroupError (Option Aggregate) × Nat) where
  roster := g
  missing := ∅
  base
  conduct _ := ⟨fun _ => .ok (), .ok (), .idle, {}⟩
  course r := (script g.size slots o).map fun all => .ask (.ofRank true g.size all r)
  post r k x := x.2 = k ∧ x.1 = .ok (if r = 0 then some (reference g.size slots o) else none)

variable {slots : Nat} {o : Nat → Outcome} {base : Nat}

theorem asks_charter (r : Nat) : ((charter g slots o base).course r).asks =
    (script g.size slots o).map fun all => .ofRank true g.size all r :=
  Course.asks_map_ask _ _

theorem concerted_charter (hsize : 0 < g.size) :
    (charter g slots o base).Concerted (script g.size slots o) where
  missing d hd := by cases hd
  asks r _ := asks_charter r
  granted _ := granted_script hsize slots o

theorem goes_charter (hslots : 0 < slots) (ho : ∀ q < g.size, (o q).Recordable) {r : Nat}
    (hr : r < g.size) : (charter g slots o base).Goes r [] ((charter g slots o base).course r)
      (Seat.link ((collect (g.member r) slots (o r)).start base)) := by
  have hsize : 0 < g.size := by omega
  refine (gives_collect slots hr (length_le_common hsize ho).1 base).mono ?_
  rintro k x ⟨hk, a, ha, rfl⟩
  exact ⟨hk, by rw [ha, report_gathered hsize ho hslots]⟩

/-- All ranks bring their outcomes together, and the root has the report of the reference. -/
theorem reference_of_collect {lines : C.State → Lines} (hC : C.Faithful g.size lines)
    {t : C.State} (ht : (lines t).Fresh g.size) (hsize : 0 < g.size) {slots : Nat}
    (hslots : 0 < slots) {o : Nat → Outcome} (ho : ∀ q < g.size, (o q).Recordable) (base : Nat) :
    WellFounded (fun n' n : Net C (Except GroupError (Option Aggregate) × Nat) =>
      n.Step g.size n') ∧
    (∀ n, (net g t slots o base).Reaches g.size n →
      ((∃ n', n.Step g.size n') ∨ ∀ r < g.size, n.talk r = .done (result g slots o base r)) ∧
      ∀ r < g.size, ∀ x, n.talk r = .done x → x = result g slots o base r) ∧
    ((reference g.size slots o).latency = none ↔ ∀ q < g.size, (o q).latencies = []) ∧
    ∀ s, (reference g.size slots o).latency = some s →
      s.count = (reference g.size slots o).samplesPerRank.sum := by
  refine ⟨Net.wellFounded_step, fun n hn => ?_, latency_reference_eq_none_iff _ _ _,
    fun s hs => count_of_latency hs⟩
  have hv : (charter g slots o base).Concerted (script g.size slots o) := concerted_charter hsize
  obtain ⟨s, h, hs⟩ := Charter.aligned_of_reaches hC hv
    ((Lines.calm_empty (l := lines t)).mpr ht) (fun r hr => goes_charter hslots ho hr.1)
    (hn.crew _)
  have hpresent {r : Nat} (hr : r < g.size) : (charter g slots o base).Present r :=
    ⟨hr, Finset.notMem_empty r⟩
  have hresult {r : Nat} (hr : r < g.size) {x : Except GroupError (Option Aggregate) × Nat}
      (hx : n.talk r = .done x) : x = result g slots o base r := by
    obtain ⟨-, ⟨hk, hok⟩, -⟩ := h.done hs (hpresent hr) (Net.done_crew.mpr hx)
    rw [asks_charter, List.length_map] at hk
    exact Prod.ext hok hk
  refine ⟨?_, fun r hr x hx => hresult hr hx⟩
  rcases h.progress hC hv hs with ⟨_, hstep⟩ | hdone
  · exact .inl (Net.step_of_crew hstep)
  · refine .inr fun r hr => ?_
    obtain ⟨x, hx⟩ := hdone r (hpresent hr)
    rw [Net.done_crew.mp hx, hresult hr (Net.done_crew.mp hx)]

/-- A writer of two versions, and a reader that saw the first one and has three samples. -/
def unevenPair (r : Nat) : Outcome :=
  if r = 0 then { role := .writer 4, times := [5, 7], start := some 3, finish := some 9 }
  else { role := .reader 4, latencies := [8, 1, 4], times := [6], start := some 5, finish := some 20 }

theorem reference_of_unevenPair :
    (reference 2 2 unevenPair).samplesPerRank = [0, 3] ∧
      (reference 2 2 unevenPair).wallClock = some 17 ∧
      ∀ n, (net Assembly.pair (Mesh.fresh 2) 2 unevenPair 0).Reaches 2 n →
        ((∃ n', n.Step 2 n') ∨ ∀ r < 2, n.talk r = .done (result Assembly.pair 2 unevenPair 0 r)) ∧
        ∀ r < 2, ∀ x, n.talk r = .done x → x = result Assembly.pair 2 unevenPair 0 r := by
  have hrecordable : ∀ q < 2, (unevenPair q).Recordable
    | 0, _ => ⟨by decide, by decide, by decide, by rintro _ ⟨⟩; decide, by rintro _ ⟨⟩; decide,
      by rintro _ ⟨⟩; decide⟩
    | 1, _ => ⟨by decide, by decide, by decide, by rintro _ ⟨⟩; decide, by rintro _ ⟨⟩; decide,
      by rintro _ ⟨⟩; decide⟩
  exact ⟨by decide, by decide, (reference_of_collect (g := Assembly.pair) (Mesh.faithful 2)
    (Mesh.fresh_lines 2) (by decide) (by decide) hrecordable 0).2.1⟩

end Lagmeter.Collection
