import Lagmeter.Proofs.Crew.Parts
import Lagmeter.Proofs.Cycle.Deliveries
import Lagmeter.Proofs.Group.Reference

/-!
# The steps of a collection

The ranks of a whole group make the same ten requests to bring their outcomes together, whatever the
outcomes are, and the root comes to have everything that its report is made of. Where somebody is
missing, the first request fails and the collection is over.
-/

namespace Lagmeter.Collection

variable {g : Roster} {conduct : Conduct}

/-- The word that the root announces: the greatest number of latencies that a rank has. -/
def commonWord (size : Nat) (o : Nat → Outcome) : Int64 :=
  Reduction.greatest.reference ((List.range size).map fun q => word (o q).latencies.length)

def common (size : Nat) (o : Nat → Outcome) : Nat := (commonWord size o).toInt.toNat

def header (o : Outcome) : List Int64 := word o.latencies.length :: roleWords o.role

/-- The requests of a collection, where rank `q` has the outcome `o q`. -/
def script (size slots : Nat) (o : Nat → Outcome) : List (Nat → Request) :=
  [fun q => .reduce .greatest (word (o q).latencies.length) 0,
    fun q => .broadcastValue
      (if q = 0 then commonWord size o else word (o q).latencies.length) 0,
    fun q => .gather (header (o q)) 0,
    fun q => .gather (padded (common size o) (o q).latencies) 0,
    fun q => .gather (padded slots (o q).times) 0,
    fun q => .reduce .least ((o q).start.elim Collective.maxWord word) 0,
    fun q => .reduce .greatest ((o q).finish.elim 0 word) 0,
    fun q => .reduce .sum (word (o q).invalid) 0,
    fun q => .reduce .sum (word (o q).missed) 0,
    fun q => .reduce .sum (word (o q).failures) 0]

def gathered (size slots : Nat) (o : Nat → Outcome) : Gathered :=
  let words (f : Outcome → Int64) := (List.range size).map fun q => f (o q)
  { common := common size o
    header := (List.range size).flatMap fun q => header (o q)
    samples := (List.range size).flatMap fun q => padded (common size o) (o q).latencies
    times := (List.range size).flatMap fun q => padded slots (o q).times
    earliest := Reduction.least.reference (words fun o => o.start.elim Collective.maxWord word)
    latest := Reduction.greatest.reference (words fun o => o.finish.elim 0 word)
    invalid := Reduction.sum.reference (words fun o => word o.invalid)
    missed := Reduction.sum.reference (words fun o => word o.missed)
    failures := Reduction.sum.reference (words fun o => word o.failures) }

theorem length_header (o : Outcome) : (header o).length = 3 := by
  rw [header, List.length_cons]
  cases o.role <;> rfl

theorem granted_script (hsize : 0 < g.size) (slots : Nat) (o : Nat → Outcome) :
    ∀ all ∈ script g.size slots o, Request.Granted g all := by
  simp only [script, List.forall_mem_cons]
  exact ⟨Request.granted_reduce _ _ _ hsize, Request.granted_broadcastValue _ hsize,
    Request.granted_gather _ fun _ _ => length_header _,
    Request.granted_gather _ fun _ _ => length_padded _ _,
    Request.granted_gather _ fun _ _ => length_padded _ _,
    Request.granted_reduce _ _ _ hsize, Request.granted_reduce _ _ _ hsize,
    Request.granted_reduce _ _ _ hsize, Request.granted_reduce _ _ _ hsize,
    Request.granted_reduce _ _ _ hsize, nofun⟩

open Collective

theorem gives_conclude (m : Member) (slots : Nat) (x : Gathered) :
    Gives m conduct [] (· = some (x.report m.size slots)) (conclude m slots x) := by
  unfold conclude
  simp only
  split
  · refine (gives_pure ?_).log
    rfl
  · exact gives_pure rfl

section

variable {m : Member} {o : Nat → Outcome} (hm : 0 < m.size)

include hm

theorem gives_agreeLength {size : Nat} (hcommon : 0 ≤ (commonWord size o).toInt) (length : Nat)
    (own : Int64) :
    Gives m conduct
      [.ask ⟨.reduce .greatest (word length) 0, some (.word own)⟩,
        .ask ⟨.broadcastValue own 0, some (.word (commonWord size o))⟩]
      (· = common size o) (agreeLength m length) := by
  unfold agreeLength
  refine (gives_reduce hm .greatest _ own).cons ?_
  rintro _ rfl
  refine (gives_broadcastValue hm _ (commonWord size o)).cons ?_
  rintro _ rfl
  simp only [if_neg (Int.not_lt.mpr hcommon)]
  exact gives_pure rfl

theorem fails_collect (slots : Nat) (o : Outcome) :
    Fails m conduct [.ask ⟨.reduce .greatest (word o.latencies.length) 0, none⟩]
      (collect m slots o) :=
  (((renders_reduce m .greatest _ 0).fails (if_pos hm)).bind _).bind _

end

theorem gives_collect (slots : Nat) {o : Nat → Outcome} {r : Nat} (hr : r < g.size)
    (hcommon : 0 ≤ (commonWord g.size o).toInt) :
    Gives (g.member r) conduct
      ((script g.size slots o).map fun all => .ask (.ofRank true g.size all r))
      (· = if r = 0 then some ((gathered g.size slots o).report g.size slots) else none)
      (collect (g.member r) slots (o r)) := by
  have hm : 0 < (g.member r).size := Nat.lt_of_le_of_lt (Nat.zero_le r) hr
  unfold collect
  refine (gives_agreeLength hm hcommon _ _).bind ?_
  rintro _ rfl
  refine Gives.log ?_
  refine (gives_gather hm _ _).cons ?_
  rintro _ rfl
  refine (gives_gather hm _ _).cons ?_
  rintro _ rfl
  refine (gives_gather hm _ _).cons ?_
  rintro _ rfl
  refine (gives_reduce hm .least _ _).cons ?_
  rintro _ rfl
  refine (gives_reduce hm .greatest _ _).cons ?_
  rintro _ rfl
  refine (gives_reduce hm .sum _ _).cons ?_
  rintro _ rfl
  refine (gives_reduce hm .sum _ _).cons ?_
  rintro _ rfl
  refine (gives_reduce hm .sum _ _).cons ?_
  rintro _ rfl
  by_cases hr0 : r = 0
  · subst hr0
    exact gives_conclude _ slots _
  · simp only [if_neg hr0]
    exact gives_pure rfl

end Lagmeter.Collection
