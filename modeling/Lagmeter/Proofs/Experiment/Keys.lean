import Lagmeter.Proofs.Blocks.Basic
import Lagmeter.Proofs.Experiment.Parts
import Lagmeter.Proofs.Group.Mesh

/-!
# Background keys

Every rank draws its share of the keys, padded to the same length on all ranks. All get the padded
shares of all, and each strips the padding of every rank by the share that it knows the rank to have.
So all ranks have the same keys, those that were drawn.
-/

namespace Lagmeter

namespace Blocks

variable {b : Blocks}

/-! ## Keys -/

/-- What rank `q` draws. -/
def drawnBy (b : Blocks) (q : Nat) (d : Draws) : List Int := (d.take (b.shareOf q)).1.map keyOf

/-- The keys that all ranks draw, in the order of the ranks. -/
def drawn (b : Blocks) (draws : Nat → Draws) : List Int :=
  (List.range b.ranks).flatMap fun q => b.drawnBy q (draws q)

/-- What rank `q` draws, and its padding. -/
def padded (b : Blocks) (q : Nat) (d : Draws) : List Int :=
  b.drawnBy q d ++ List.replicate (b.capacity - b.shareOf q) 0

theorem length_drawnBy (b : Blocks) (q : Nat) (d : Draws) : (b.drawnBy q d).length = b.shareOf q := by
  rw [drawnBy, List.length_map, Draws.length_take]

theorem length_padded (b : Blocks) (q : Nat) (d : Draws) : (b.padded q d).length = b.capacity := by
  have := b.shareOf_le_capacity q
  rw [padded, List.length_append, length_drawnBy, List.length_replicate]
  omega

theorem length_drawn (b : Blocks) (draws : Nat → Draws) : (b.drawn draws).length = b.total :=
  b.length_shares fun q _ => b.length_drawnBy q (draws q)

theorem keyOf_bounds (x : Nat) : 1 ≤ keyOf x ∧ keyOf x ≤ 4294967295 := by
  unfold keyOf maxKey
  omega

theorem mem_drawnBy {q : Nat} {d : Draws} {key : Int} (h : key ∈ b.drawnBy q d) :
    1 ≤ key ∧ key ≤ 4294967295 := by
  obtain ⟨x, -, rfl⟩ := List.mem_map.mp h
  exact keyOf_bounds x

theorem mem_drawn {draws : Nat → Draws} {key : Int} (h : key ∈ b.drawn draws) :
    1 ≤ key ∧ key ≤ 4294967295 := by
  obtain ⟨q, -, hkey⟩ := List.mem_flatMap.mp h
  exact mem_drawnBy hkey

theorem toInt_drawnBy (b : Blocks) (q : Nat) (d : Draws) :
    ((b.drawnBy q d).map Int64.ofInt).map Int64.toInt = b.drawnBy q d := by
  rw [List.map_map]
  refine (List.map_congr_left fun key hkey => ?_).trans (List.map_id _)
  obtain ⟨hlow, hhigh⟩ := mem_drawnBy hkey
  exact Int64.toInt_ofInt_of_le (by omega) (by omega)

theorem compacted_padded (b : Blocks) (draws : Nat → Draws) :
    ∃ keys, b.compacted ((List.range b.ranks).flatMap fun q =>
        (b.padded q (draws q)).map Int64.ofInt) = .ok keys ∧
      keys.map Int64.toInt = b.drawn draws := by
  refine ⟨_, compacted_flatMap fun q _ => by rw [List.length_map, length_padded], ?_⟩
  rw [List.map_flatMap]
  refine List.flatMap_congr fun q _ => ?_
  have htake : (b.padded q (draws q)).take (b.shareOf q) = b.drawnBy q (draws q) := by
    rw [padded, ← b.length_drawnBy q (draws q), List.take_left]
  rw [← List.map_take, htake, toInt_drawnBy]

end Blocks

/-! ## All ranks get the same keys -/

namespace Experiment

variable {g : Roster} {venue : Nat → Venue} {s : Settings} {r : Nat}

/-- How rank `r` sees the keys split. -/
def blocks (s : Settings) (hr : r < g.size) : Blocks := ⟨s.tableSize, g.size, r, hr⟩

theorem ofRank_eq_blocks (hr : r < g.size) :
    Blocks.ofRank s.tableSize g.size r = .ok (blocks s hr) := by
  rw [Blocks.ofRank, if_neg (Nat.ne_zero_of_lt hr), dif_pos hr]
  rfl

/-- The keys that all ranks draw at their venues. -/
def keys (s : Settings) (venue : Nat → Venue) (hsize : 0 < g.size) : List Int :=
  (blocks s hsize).drawn fun q => (venue q).draws

/-- What the ranks bring to the exchange of the keys. -/
def bringKeys (s : Settings) (venue : Nat → Venue) (hsize : 0 < g.size) (q : Nat) : Request :=
  .allGather (((blocks s hsize).padded q (venue q).draws).map Int64.ofInt)

theorem granted_bringKeys (hsize : 0 < g.size) : Request.Granted g (bringKeys s venue hsize) := by
  have hlength : ∀ q < g.size, (((blocks s hsize).padded q (venue q).draws).map Int64.ofInt).length =
      (blocks s hsize).capacity := fun q _ => by rw [List.length_map, Blocks.length_padded]
  exact Request.granted_allGather hlength

variable {calls : List SiteCall}

theorem gives_blocked {ε : Type} {m : Member} {v : Venue} {x : Except BlockError ε} {a : ε}
    (h : x = .ok a) :
    Gives m v [] calls (fun b calls' => b = a ∧ calls' = calls) (blocked x) := by
  subst h
  exact gives_pure ⟨rfl, rfl⟩

theorem gives_distributeKeys (hr : r < g.size) :
    Gives (g.member r) (venue r)
      [.ask (.ofRank true g.size (bringKeys s venue (Nat.zero_lt_of_lt hr)) r)] calls
      (fun x calls' => x = keys s venue (Nat.zero_lt_of_lt hr) ∧
        calls' = calls ++ [.drawKeys (blocks s hr)])
      (distributeKeys (g.member r) s) := by
  have hsize : 0 < g.size := Nat.zero_lt_of_lt hr
  refine (gives_blocked (ofRank_eq_blocks hr)).silent ?_
  rintro _ calls ⟨rfl, rfl⟩
  have hdraw : (venue r).resolve calls (Site.drawKeys (blocks s hr)) =
      .done ((blocks s hsize).padded r (venue r).draws, calls ++ [.drawKeys (blocks s hr)]) := rfl
  refine (gives_site hdraw).silent ?_
  rintro _ _ ⟨rfl, rfl⟩
  refine (gives_together (Collective.gives_allGather _ _) _).cons ?_
  rintro _ _ ⟨rfl, rfl⟩
  -- What is padding is the same for all, whoever strips it.
  obtain ⟨all, hall, hkeys⟩ := (blocks s hsize).compacted_padded fun q => (venue q).draws
  refine (gives_blocked (show (blocks s hr).compacted _ = .ok all from hall)).silent ?_
  rintro _ _ ⟨rfl, rfl⟩
  refine (gives_log _ _).silent ?_
  rintro _ _ rfl
  exact gives_pure ⟨hkeys, rfl⟩

/-- All ranks distribute the keys after operation number `base`. -/
def keysCharter (g : Roster) (s : Settings) (venue : Nat → Venue) (hsize : 0 < g.size) (base : Nat) :
    Charter ((Except Fault (List Int) × Nat) × List SiteCall) :=
  charter g venue (fun r => [.ask (.ofRank true g.size (bringKeys s venue hsize) r)]) base
    fun r x calls => x = .ok (keys s venue hsize) ∧
      ∀ hr : r < g.size, calls = [.drawKeys (blocks s hr)]

/-- All ranks have the same keys: those that each rank has drawn, rank by rank. -/
theorem keys_agreed {C : Carrier} {lines : C.State → Lines} (hC : C.Faithful g.size lines)
    {t : C.State} (ht : (lines t).Fresh g.size) (hsize : 0 < g.size) (s : Settings)
    (venue : Nat → Venue) (base : Nat) :
    WellFounded (fun n' n : Expedition C (Except Fault (List Int) × Nat) => n.Step g.size venue n') ∧
    ((keys s venue hsize).length = s.tableSize ∧
      ∀ key ∈ keys s venue hsize, 1 ≤ key ∧ key ≤ 4294967295) ∧
    ∀ n, (Expedition.start t fun r => (distributeKeys (g.member r) s).start base).Reaches
        g.size venue n →
      ((∃ n', n.Step g.size venue n') ∨ ∀ r < g.size, ∃ x, n.Done r x) ∧
      n.Unfailing (keysCharter g s venue hsize base) lines venue ∧
      ∀ r, ∀ hr : r < g.size, ∀ x, n.Done r x →
        x = (.ok (keys s venue hsize), base + 1) ∧ n.calls r = [.drawKeys (blocks s hr)] := by
  refine ⟨Expedition.wellFounded_step, ⟨Blocks.length_drawn _ _, fun _ => Blocks.mem_drawn⟩, fun n hn => ?_⟩
  have htakes : ∀ r < g.size, (distributeKeys (g.member r) s).Takes (g.member r) (venue r)
      [.ask (.ofRank true g.size (bringKeys s venue hsize) r)] []
      (fun x calls => x = .ok (keys s venue hsize) ∧
        ∀ hr : r < g.size, calls = [.drawKeys (blocks s hr)]) := by
    intro r hr
    refine Takes.mono (gives_distributeKeys hr) ?_
    rintro _ _ ⟨_, rfl, rfl, rfl⟩
    exact ⟨rfl, fun _ => rfl⟩
  have hgranted : ∀ all ∈ [bringKeys s venue hsize], Request.Granted g all :=
    List.forall_mem_singleton.mpr (granted_bringKeys hsize)
  obtain ⟨hprogress, hunfailing, hdone, -⟩ := of_takes hC ht (fun _ _ => rfl) hgranted htakes hn
  refine ⟨hprogress, hunfailing, fun r hr x hx => ?_⟩
  obtain ⟨hnumber, hkeys, hcalls⟩ := hdone r hr x hx
  exact ⟨Prod.ext hkeys hnumber, hcalls hr⟩

/-- Of three keys rank 0 draws two, the second from the largest number that is not a key itself. -/
def threeKeys (r : Nat) : Venue where
  conduct := .idle
  draws := ⟨fun i => 10 * r + i * 4294967295, 0⟩
  opening := .ok ()
  writing := .ok ()

theorem keys_agreed_of_threeKeys :
    0 < 2 ∧ ∃ n, (Expedition.start (Mesh.fresh 2) fun r =>
        (distributeKeys (Assembly.pair.member r) { tableSize := 3 }).start 0).Reaches 2 threeKeys n ∧
      n.Done 0 (.ok [1, 1, 11], 1) ∧ n.Done 1 (.ok [1, 1, 11], 1) := by
  have hkeys := (keys_agreed (g := Assembly.pair) (Mesh.faithful 2) (Mesh.fresh_lines 2) (by decide)
    { tableSize := 3 } threeKeys 0).2.2
  obtain ⟨n, hn, hdone⟩ := Expedition.exists_end _ fun n hn => (hkeys n hn).1
  obtain ⟨x, hx⟩ := hdone 0 (by decide)
  obtain ⟨y, hy⟩ := hdone 1 (by decide)
  obtain ⟨rfl, -⟩ := (hkeys n hn).2.2 0 (by decide) x hx
  obtain ⟨rfl, -⟩ := (hkeys n hn).2.2 1 (by decide) y hy
  exact ⟨by decide, n, hn, hx, hy⟩

end Experiment

end Lagmeter
