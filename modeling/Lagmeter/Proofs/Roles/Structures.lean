import Lagmeter.Proofs.Cycle.Crew
import Lagmeter.Proofs.Group.Mesh
import Lagmeter.Proofs.Roles.Filling

/-!
# Structures of a group

The root learns the role of every rank from two words. In a group whose ranks have the roles of a plan,
its report has one entry for each map of the plan, with all readers of that map.
-/

namespace Lagmeter

/-! ## Roles that travelled -/

namespace Collection

variable {size slots common : Nat} {o : Nat → Outcome}

theorem headers_roleWords {role : Role} (hrole : ∀ map, role.map? = some map → map < 2 ^ 63)
    (count : Int64) (rest : List Int64) :
    headers common (count :: roleWords role ++ rest) =
      ⟨min count.toInt.toNat common, role⟩ :: headers common rest := by
  cases role with
  | idle => simp [roleWords, headers, roleOf]
  | writer map => simp [roleWords, headers, roleOf_word (hrole map rfl)]
  | reader map => simp [roleWords, headers, roleOf_word (hrole map rfl)]

theorem roles_headers {ranks : List Nat}
    (ho : ∀ q ∈ ranks, ∀ map, (o q).role.map? = some map → map < 2 ^ 63) :
    (headers common (ranks.flatMap fun q => header (o q))).map Header.role =
      ranks.map fun q => (o q).role := by
  induction ranks with
  | nil => rfl
  | cons q ranks ih =>
    rw [List.flatMap_cons, header, headers_roleWords (ho q List.mem_cons_self), List.map_cons,
      ih fun r hr => ho r (List.mem_cons_of_mem q hr), List.map_cons]

theorem timesOf_headers (hslots : 0 < slots)
    (ho : ∀ q < size, ∀ map, (o q).role.map? = some map → map < 2 ^ 63) :
    (gathered size slots o).timesOf slots
        (headers (gathered size slots o).common (gathered size slots o).header) =
      (List.range size).map fun q => ((o q).role, padded slots (o q).times) := by
  have hroles : (headers (gathered size slots o).common (gathered size slots o).header).map
      Header.role = (List.range size).map fun q => (o q).role :=
    roles_headers fun q hq => ho q (List.mem_range.mp hq)
  have hlength : (headers (gathered size slots o).common (gathered size slots o).header).length =
      size := by
    simpa [gathered] using congrArg List.length hroles
  unfold Gathered.timesOf
  rw [if_neg (Nat.ne_of_gt hslots), hlength]
  simp only [gathered, rows_padded slots] at hroles ⊢
  rw [hroles]
  exact List.zip_map'

end Collection

/-! ## Writers and their readers -/

namespace Delivery

variable (slots : Nat) (ranks : List (Role × List Int64))

theorem maps_ofRanks : (ofRanks slots ranks).map Delivery.map =
    ranks.filterMap fun x => x.1.written? := by
  rw [ofRanks, List.map_filterMap]
  refine List.filterMap_congr fun x _ => ?_
  obtain ⟨role, sent⟩ := x
  cases role <;> rfl

variable {slots ranks} {d : Delivery}

theorem readers_of_mem (hd : d ∈ ofRanks slots ranks) :
    d.readers = (ranks.filter (·.1 = .reader d.map)).length := by
  obtain ⟨⟨role, sent⟩, -, hrank⟩ := List.mem_filterMap.mp hd
  cases role with
  | idle | reader => cases hrank
  | writer map =>
    obtain rfl := Option.some.inj hrank
    simp [ofTimes, rowsOf]

end Delivery

namespace RolePlan

variable {p : RolePlan} {n slots : Nat}

theorem deliveries_of_validate (h : p.validate n = .ok ()) (rows : Nat → List Int64) :
    (Delivery.ofRanks slots ((List.range n).map fun q => (p.roleOf q, rows q))).map
        (fun d => (d.map, d.readers)) =
      (List.range p.maps).map fun map => (map, p.readersPerMap) := by
  set ranks := (List.range n).map fun q => (p.roleOf q, rows q)
  have hmaps : (Delivery.ofRanks slots ranks).map Delivery.map = List.range p.maps := by
    rw [Delivery.maps_ofRanks, List.filterMap_map]
    exact writers_of_validate h
  have hreaders : ∀ d ∈ Delivery.ofRanks slots ranks, d.readers = p.readersPerMap := by
    intro d hd
    have hmap : d.map < p.maps := by
      rw [← List.mem_range, ← hmaps]
      exact List.mem_map_of_mem hd
    rw [Delivery.readers_of_mem hd, List.filter_map, List.length_map]
    exact (filled_of_validate h).readers d.map hmap
  rw [← hmaps, List.map_map]
  exact List.map_congr_left fun d hd => by simp [hreaders d hd]

theorem deliveries_gathered {o : Nat → Outcome} (h : p.validate n = .ok ()) (hslots : 0 < slots)
    (hmaps : p.maps ≤ 2 ^ 63) (hroles : ∀ q < n, (o q).role = p.roleOf q) :
    ((Collection.gathered n slots o).report n slots).deliveries.map (fun d => (d.map, d.readers)) =
      (List.range p.maps).map fun map => (map, p.readersPerMap) := by
  have hword : ∀ q < n, ∀ map, (o q).role.map? = some map → map < 2 ^ 63 := by
    intro q hq map hmap
    rw [hroles q hq] at hmap
    have := (map?_roleOf_eq_iff.mp hmap).1
    omega
  have hranks : (List.range n).map (fun q => ((o q).role, Collection.padded slots (o q).times)) =
      (List.range n).map fun q => (p.roleOf q, Collection.padded slots (o q).times) :=
    List.map_congr_left fun q hq => by rw [hroles q (List.mem_range.mp hq)]
  unfold Collection.Gathered.report
  simp only
  rw [Collection.timesOf_headers hslots hword, hranks]
  exact deliveries_of_validate h _

/-! ## Whole groups -/

/-- The nodes of a group tell the roles of a plan, and nothing in its cycle goes beyond a word. -/
structure Staffed (p : RolePlan) (size : Nat) (plan : CyclePlan) (conduct : Nat → Conduct) : Prop where
  size_pos : 0 < size
  size_lt : size < 2 ^ 64
  maps_le : p.maps ≤ 2 ^ 63
  rounds : size ≤ plan.rounds
  slots_pos : 0 < plan.slots
  role : ∀ q < size, (conduct q).outcome.role = p.roleOf q
  latencies : ∀ q < size, (conduct q).outcome.latencies.length < 2 ^ 63

/-- A plan is right for a group just in case its blocks fit, and then the ranks fill all structures. -/
theorem structures_filled (p : RolePlan) (n : Nat) :
    (p.validate n = .ok () ↔ p.maps * (1 + p.readersPerMap) ≤ n) ∧
    (p.validate n = .ok () → p.Filled n ∧
      ∀ (C : Carrier) (lines : C.State → Lines) (t : C.State) (host : Nat → String) (plan : CyclePlan)
        (conduct : Nat → Conduct) (j : Nat → Journal) (base : Nat),
        C.Faithful n lines → (lines t).Fresh n → p.Staffed n plan conduct →
        WellFounded (fun x' x : Crew C (CycleOutcome × Nat) => x.Step n ∅ conduct x') ∧
        ∀ x, (Cycle.crew ⟨n, host⟩ t plan j base).Reaches n ∅ conduct x →
          ((∃ x', x.Step n ∅ conduct x') ∨ ∀ r < n, ∃ y, x.Done r y) ∧
          ∀ y, x.Done 0 y → ∃ a, y.1.aggregate = some a ∧
            a.deliveries.map (fun d => (d.map, d.readers)) =
              (List.range p.maps).map fun map => (map, p.readersPerMap)) := by
  refine ⟨validate_ok_iff, fun h => ⟨filled_of_validate h, ?_⟩⟩
  intro C lines t host plan conduct j base hC ht hstaffed
  refine ⟨Crew.wellFounded_step, fun x hx => ?_⟩
  have hf : Cycle.Feasible ⟨n, host⟩ ∅ plan conduct :=
    Cycle.feasible_whole hstaffed.size_pos hstaffed.size_lt hstaffed.rounds hstaffed.latencies
  obtain ⟨s, haligned, hs⟩ := Cycle.aligned_of_reaches hC hf (Lines.calm_empty.mpr ht) hx
  have hpresent {r : Nat} (hr : r < n) : (Cycle.charter ⟨n, host⟩ ∅ plan conduct j base).Present r :=
    ⟨hr, Finset.notMem_empty r⟩
  constructor
  · exact (haligned.progress hC (Cycle.concerted hf) hs).imp_right
      fun hdone r hr => hdone r (hpresent hr)
  · intro y hy
    obtain ⟨-, -, -, haggregate, -⟩ := Cycle.of_done hf haligned hs (hpresent hstaffed.size_pos) hy
    rw [decide_eq_true (rfl : (∅ : Finset Nat) = ∅), Cycle.aggregate, if_pos ⟨rfl, rfl⟩] at haggregate
    exact ⟨_, haggregate, deliveries_gathered h hstaffed.slots_pos hstaffed.maps_le hstaffed.role⟩

/-- A writer that cannot shut down, its two readers, and a rank that is left over. -/
def trio (r : Nat) : Conduct where
  phase := fun
    | .shutdown => if r = 0 then .error (.ofReason "refused") else .ok ()
    | .setup | .run => .ok ()
  report := .ok ()
  role := (⟨1, 2⟩ : RolePlan).roleOf r
  outcome := { role := (⟨1, 2⟩ : RolePlan).roleOf r, times := [7] }

theorem structures_filled_of_trio :
    (⟨1, 2⟩ : RolePlan).validate 4 = .ok () ∧ (⟨1, 2⟩ : RolePlan).Filled 4 ∧
    (⟨1, 2⟩ : RolePlan).Staffed 4 ⟨.parallel, 1, 4⟩ trio ∧
    ∃ x, (Cycle.crew ⟨4, fun _ => "host"⟩ (Mesh.fresh 4) ⟨.parallel, 1, 4⟩ default 0).Reaches 4 ∅ trio x ∧
      ∃ y a, x.Done 0 y ∧ y.1.aggregate = some a ∧
        a.deliveries.map (fun d => (d.map, d.readers)) = [(0, 2)] := by
  have hok : (⟨1, 2⟩ : RolePlan).validate 4 = .ok () := (structures_filled ⟨1, 2⟩ 4).1.mpr (by decide)
  have hstaffed : (⟨1, 2⟩ : RolePlan).Staffed 4 ⟨.parallel, 1, 4⟩ trio :=
    ⟨by decide, by decide, by decide, by decide, by decide, fun _ _ => rfl,
      fun _ _ => Nat.two_pow_pos 63⟩
  obtain ⟨hfilled, hcycles⟩ := (structures_filled ⟨1, 2⟩ 4).2 hok
  have hcycle := (hcycles (Mesh.carrier 4) _ (Mesh.fresh 4) (fun _ => "host") _ trio default 0
    (Mesh.faithful 4) (Mesh.fresh_lines 4) hstaffed).2
  obtain ⟨x, hx, hdone⟩ := Crew.exists_end _ fun x hx => (hcycle x hx).1
  obtain ⟨y, hy⟩ := hdone 0 (by decide)
  obtain ⟨a, haggregate, hdeliveries⟩ := (hcycle x hx).2 y hy
  exact ⟨hok, hfilled, hstaffed, x, hx, y, a, hy, haggregate, hdeliveries⟩

end RolePlan

end Lagmeter
