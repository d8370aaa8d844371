import Lagmeter.Proofs.Crew.Net
import Lagmeter.Proofs.Crew.Parts

/-!
# Networks in concert

The ranks of a whole group go through a part of their programs in which all of them make the same
requests. What the part gives one rank when its requests give what is due, it gives in the group.
-/

namespace Lagmeter.Net

variable {C : Carrier} {α : Type} {g : Roster}

/-- All ranks make the requests of the script, and `P` holds of what the part gives. -/
def concert (g : Roster) (script : List (Nat → Request)) (P : Nat → α → Prop) (base : Nat) :
    Charter (Except GroupError α × Nat) where
  roster := g
  missing := ∅
  base
  conduct _ := ⟨fun _ => .ok (), .ok (), .idle, {}⟩
  course r := script.map fun all => .ask (.ofRank true g.size all r)
  post r k x := x.2 = k ∧ ∃ a, x.1 = .ok a ∧ P r a

variable {script : List (Nat → Request)} {P : Nat → α → Prop} {base : Nat}

theorem asks_concert (r : Nat) : ((concert g script P base).course r).asks =
    script.map fun all => .ofRank true g.size all r := Course.asks_map_ask _ _

theorem concerted_concert (hgranted : ∀ all ∈ script, Request.Granted g all) :
    (concert g script P base).Concerted script where
  missing d hd := by cases hd
  asks r _ := asks_concert r
  granted _ := hgranted

theorem done_of_gives {lines : C.State → Lines} (hC : C.Faithful g.size lines) {t : C.State}
    (ht : (lines t).Fresh g.size) (hgranted : ∀ all ∈ script, Request.Granted g all)
    {part : Nat → Collective α}
    (hgives : ∀ r < g.size, ∀ conduct, Collective.Gives (g.member r) conduct
      (script.map fun all => .ask (.ofRank true g.size all r)) (P r) (part r))
    {n : Net C (Except GroupError α × Nat)}
    (hn : (⟨t, fun r => (part r).start base⟩ : Net C _).Reaches g.size n) :
    ((∃ n', n.Step g.size n') ∨ ∀ r < g.size, ∃ x, n.talk r = .done x) ∧
    ∀ r < g.size, ∀ x, n.talk r = .done x → ∃ a, P r a ∧ x = (.ok a, base + script.length) := by
  have hv : (concert g script P base).Concerted script := concerted_concert hgranted
  have hpresent {r : Nat} (hr : r < g.size) : (concert g script P base).Present r :=
    ⟨hr, Finset.notMem_empty r⟩
  obtain ⟨s, h, hs⟩ := Charter.aligned_of_reaches hC hv ((Lines.calm_empty (l := lines t)).mpr ht)
    (fun r hr => hgives r hr.1 _ base) (hn.crew _)
  constructor
  · rcases h.progress hC hv hs with ⟨_, hstep⟩ | hdone
    · exact .inl (step_of_crew hstep)
    · refine .inr fun r hr => ?_
      obtain ⟨x, hx⟩ := hdone r (hpresent hr)
      exact ⟨x, done_crew.mp hx⟩
  · intro r hr x hx
    obtain ⟨-, ⟨hk, a, ha, hP⟩, -⟩ := h.done hs (hpresent hr) (done_crew.mpr hx)
    rw [asks_concert, List.length_map] at hk
    exact ⟨a, hP, Prod.ext ha hk⟩

end Lagmeter.Net
