import Lagmeter.Proofs.Group.History
import Lagmeter.Proofs.Group.Progress
import Lagmeter.Proofs.Group.Termination
import Lagmeter.Proofs.Group.Turns

/-!
# All or nothing

The ranks of a group in one process run programs that need not fit together. All of them come to
their ends, every exchange succeeds for all of its ranks or fails for all, and a failed exchange
leaves nothing behind.
-/

namespace Lagmeter

namespace Assembly

open Exchange

variable {C : Carrier} {J : Interface} {α : Type} {g : Roster} {base : Nat} {s : Assembly C J α}

theorem Fate.eq_ok {i q : Nat} {x : Except GroupError Payload} {replies : List Payload}
    (h : s.Fate g i q x) (hagreed : Agreed g.size (s.offers i) replies)
    (hsize : 0 < g.size) (hplain : ∀ ρ, s.offers i 0 = some ρ → ρ.Plain) :
    ∃ payload, replies[q]? = some payload ∧ x = .ok payload := by
  rcases h with ⟨replies', payload, hagreed', hreply, rfl⟩ | ⟨hdoomed, -⟩
  · obtain rfl := hagreed.unique hsize hagreed'
    refine ⟨payload, hreply, ?_⟩
    obtain ⟨common, hcommon, -, hcombine, -⟩ := hagreed
    rw [award]
    split
    · rfl
    · exact opened_eq_ok_iff.mpr
        ⟨rfl, hplain _ (hcommon 0 hsize) _ _ hcombine payload (List.mem_of_getElem? hreply)⟩
  · exact absurd hagreed hdoomed.not_agreed

theorem InStep.all_or_none {l : Lines} {w : Nat → Station} (h : InStep g base s l w)
    (hplain : ∀ i ρ, s.offers i 0 = some ρ → ρ.Plain) (k : Nat) :
    (∀ q < g.size, ∀ x, (s.rank q).results[k]? = some x → ∃ payload, x = .ok payload) ∨
    (∀ q < g.size, ∀ x, (s.rank q).results[k]? = some x → ∃ e, x = .error e) := by
  by_cases hagreed : ∃ replies, Agreed g.size (s.offers k) replies
  · obtain ⟨replies, hagreed⟩ := hagreed
    refine .inl fun q hq x hx => ?_
    obtain ⟨payload, -, hok⟩ := (h.fates q hq k x hx).eq_ok hagreed (by omega) (hplain k)
    exact ⟨payload, hok⟩
  · refine .inr fun q hq x hx => ?_
    rcases h.fates q hq k x hx with ⟨replies, _, hfound, -⟩ | ⟨-, he⟩
    · exact absurd ⟨replies, hfound⟩ hagreed
    · exact he

/-- Once all ranks are through an exchange, nothing of it or of an earlier one is on its way. -/
theorem InStep.drained {l : Lines} {w : Nat → Station} (h : InStep g base s l w) {k : Nat}
    (hk : ∀ q < g.size, k < (s.rank q).results.length) {p : Nat} (hp : p < g.size) (hp0 : p ≠ 0)
    {f : Frame} (hf : f ∈ l.queue p 0 ∨ f ∈ l.queue 0 p) : base + k + 1 < f.sequence := by
  have hcoupled := h.coupled p hp hp0
  rcases hf with hf | hf
  · obtain ⟨i, hi, ρ, -, rfl⟩ := hcoupled.of_mem_up hf
    have hcollected := Station.le_collected (p := p) (n := (s.rank 0).results.length) (w := w 0)
    have hk0 := hk 0 (by omega)
    show base + k + 1 < base + i + 1
    omega
  · have htaken := Station.le_taken (n := (s.rank p).results.length) (w := w p)
    have hkp := hk p hp
    rw [(hcoupled.of_mem_down hf).1]
    omega

/-- Over the mesh of a process, an exchange succeeds for all ranks that come to its end, or for none. -/
theorem all_or_nothing (g : Roster) (programs : Nat → Program α) (base : Nat) :
    WellFounded (fun s' s : Assembly (Mesh.carrier g.size) Silent α => Advance g s s') ∧
    ∀ s, Reaches g (inProcess g programs base) s →
      ((∃ s', Advance g s s') ∨ ∀ q < g.size, (∃ a, (s.rank q).stage = .gone (some a)) ∧
        (s.rank q).results.length = (s.rank q).entered.length) ∧
      (∀ q < g.size, (s.rank q).sequence = base + (s.rank q).results.length) ∧
      ∀ k,
        ((∀ q < g.size, ∀ x, (s.rank q).results[k]? = some x → ∃ payload, x = .ok payload) ∨
          (∀ q < g.size, ∀ x, (s.rank q).results[k]? = some x → ∃ e, x = .error e)) ∧
        ((∀ q < g.size, k < (s.rank q).results.length) → ∀ p < g.size, p ≠ 0 → ∀ f,
          f ∈ s.carrier.1.queue p 0 ∨ f ∈ s.carrier.1.queue 0 p → base + k + 1 < f.sequence) ∧
        (∀ replies, Agreed g.size (s.offers k) replies → ∀ q < g.size, ∀ x,
          (s.rank q).results[k]? = some x → ∃ payload, replies[q]? = some payload ∧ x = .ok payload) := by
  refine ⟨wellFounded_advance, fun s hs => ?_⟩
  have hC := Mesh.faithful g.size
  obtain ⟨w, hw⟩ := inStep_of_reaches hC (Mesh.fresh_lines g.size) hs
  have hplain : ∀ i ρ, s.offers i 0 = some ρ → ρ.Plain := by
    intro i ρ hρ
    obtain ⟨q, rfl⟩ := Program.offer_of_entered hs hρ
    exact q.plain_offer _
  refine ⟨?_, fun q hq => (hw.standing q hq).sequence, fun k => ⟨hw.all_or_none hplain k, ?_, ?_⟩⟩
  · refine (hw.progress hC fun call => Empty.elim call).imp_right fun hgone q hq => ?_
    refine ⟨?_, (hw.left q hq (hgone q hq)).symm⟩
    have hstands := (hw.standing q hq).stands
    rw [hgone q hq] at hstands
    obtain ⟨result, hstage⟩ := hstands
    have hkeeps := keeps_of_reaches hs q
    unfold Rank.Keeps at hkeeps
    rw [hstage] at hkeeps
    obtain ⟨a, rfl, -⟩ := hkeeps
    exact ⟨a, hstage⟩
  · intro hk p hp hp0 f hf
    refine hw.drained hk hp hp0 ?_
    simpa [Mesh.lines, hp, show 0 < g.size by omega] using hf
  · intro replies hagreed q hq x hx
    exact (hw.fates q hq k x hx).eq_ok hagreed (by omega) (hplain k)

/-- A pair of ranks that ask for different things and then for the same. -/
def apartThenTogether (r : Nat) : Program (List (Except GroupError Yield)) :=
  if r = 0 then .ofList [.barrier, .allGather [3]] else .ofList [.allGather [4], .allGather [5]]

def rejoining : Assembly (Mesh.carrier pair.size) Silent (List (Except GroupError Yield)) :=
  (inProcess pair apartThenTogether 0).turns pair (List.replicate 20 [1, 0]).flatten

set_option maxRecDepth 10000 in
theorem all_or_nothing_of_rejoining :
    (∀ q < 2, ∃ e, (rejoining.rank q).results[0]? = some (.error e)) ∧
      ∀ q < 2, (rejoining.rank q).results[1]? = some (.ok (.words [3, 5])) := by
  obtain ⟨-, hall⟩ := all_or_nothing pair apartThenTogether 0
  obtain ⟨-, -, hexchange⟩ := hall rejoining (reaches_turns _ _)
  have hlength : ∀ q < 2, (rejoining.rank q).results.length = 2
    | 0, _ => rfl
    | 1, _ => rfl
  have hagreed : Agreed 2 (rejoining.offers 1) (List.replicate 2 (.words [3, 5])) := by
    refine ⟨fun q => .share (pair.member q) [if q = 0 then 3 else 5], ?_, fun _ _ => rfl, rfl, rfl⟩
    intro q hq
    match q, hq with
    | 0, _ => rfl
    | 1, _ => rfl
  constructor
  · intro q hq
    have hx := List.getElem?_eq_getElem (show 0 < (rejoining.rank q).results.length by
      rw [hlength q hq]; decide)
    rcases (hexchange 0).1 with hok | herror
    · obtain ⟨payload, hok⟩ := hok 0 (by decide) _ rfl
      cases hok
    · obtain ⟨e, he⟩ := herror q hq _ hx
      exact ⟨e, hx.trans (congrArg some he)⟩
  · intro q hq
    have hx := List.getElem?_eq_getElem (show 1 < (rejoining.rank q).results.length by
      rw [hlength q hq]; decide)
    obtain ⟨payload, hreply, hok⟩ := (hexchange 1).2.2 _ hagreed q hq _ hx
    rw [List.getElem?_replicate, if_pos hq] at hreply
    obtain rfl := Option.some.inj hreply
    rw [hx, hok]

end Assembly

end Lagmeter
