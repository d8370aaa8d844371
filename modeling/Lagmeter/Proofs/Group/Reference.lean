import Lagmeter.Proofs.Exchange.Agreement
import Lagmeter.Proofs.Group.Assembly
import Lagmeter.Proofs.Group.Combining
import Lagmeter.Proofs.Group.Request

/-!
# What requests give

If all ranks of a group make the same request, each with values of its own, then `reference` says
what each of them gets. The exchange of such a request is agreed, and its replies are read as the
reference.
-/

namespace Lagmeter

/-- The least word, the greatest, or the sum, which is cut off after each word. -/
def Reduction.reference : Reduction → List Int64 → Int64
  | .least, ws => Int64.ofInt ((ws.map Int64.toInt).min?.getD 0)
  | .greatest, ws => Int64.ofInt ((ws.map Int64.toInt).max?.getD 0)
  | .sum, ws =>
    if ws.all fun w => 0 ≤ w.toInt then
      Int64.ofInt (min ((ws.map Int64.toInt).foldr (· + ·) 0) Collective.maxWord.toInt)
    else ws.foldl Collective.saturatingAdd 0

namespace Request

/-- Two ranks make the same request, each with values of its own. What is put together has to be
equally long. -/
inductive Alike : Request → Request → Prop where
  | barrier : Alike .barrier .barrier
  | broadcast (values values' : List Int64) (source : Nat) :
    Alike (.broadcast values source) (.broadcast values' source)
  | broadcastValue (value value' : Int64) (source : Nat) :
    Alike (.broadcastValue value source) (.broadcastValue value' source)
  | gather (values values' : List Int64) (target : Nat) (h : values'.length = values.length) :
    Alike (.gather values target) (.gather values' target)
  | gatherReals (values values' : List Double) (target : Nat)
      (h : values'.length = values.length) :
    Alike (.gatherReals values target) (.gatherReals values' target)
  | allGather (values values' : List Int64) (h : values'.length = values.length) :
    Alike (.allGather values) (.allGather values')
  | reduce (how : Reduction) (value value' : Int64) (target : Nat) :
    Alike (.reduce how value target) (.reduce how value' target)
  | broadcastIdentifier (id id' : Option Identifier) (source : Nat) :
    Alike (.broadcastIdentifier id source) (.broadcastIdentifier id' source)
  | gatherIdentifiers (id id' : Option Identifier) (target : Nat) :
    Alike (.gatherIdentifiers id target) (.gatherIdentifiers id' target)
  | allGatherIdentifiers (id id' : Option Identifier) :
    Alike (.allGatherIdentifiers id) (.allGatherIdentifiers id')

/-! ## The values of a request -/

def words : Request → List Int64
  | .broadcast values _ | .gather values _ | .allGather values => values
  | _ => []

def reals : Request → List Double
  | .gatherReals values _ => values
  | _ => []

def value : Request → Int64
  | .broadcastValue value _ | .reduce _ value _ => value
  | _ => 0

def identifier : Request → Option Identifier
  | .broadcastIdentifier id _ | .gatherIdentifiers id _ | .allGatherIdentifiers id => id
  | _ => none

/-- The same request with the values of another one. -/
def fill (q data : Request) : Request :=
  match q with
  | .barrier => .barrier
  | .broadcast _ source => .broadcast data.words source
  | .broadcastValue _ source => .broadcastValue data.value source
  | .gather _ target => .gather data.words target
  | .gatherReals _ target => .gatherReals data.reals target
  | .allGather _ => .allGather data.words
  | .reduce how _ target => .reduce how data.value target
  | .broadcastIdentifier _ source => .broadcastIdentifier data.identifier source
  | .gatherIdentifiers _ target => .gatherIdentifiers data.identifier target
  | .allGatherIdentifiers _ => .allGatherIdentifiers data.identifier

theorem Alike.rank?_eq {q q' : Request} (h : Alike q q') : q'.rank? = q.rank? := by
  cases h <;> rfl

theorem Alike.eq_fill {q q' : Request} (h : Alike q q') : q' = q.fill q' := by
  cases h <;> rfl

/-- How long a list is that has to be as long on all ranks. -/
def width : Request → Nat
  | .gather values _ | .allGather values => values.length
  | .gatherReals values _ => values.length
  | _ => 0

theorem Alike.width_eq {q q' : Request} (h : Alike q q') : q'.width = q.width := by
  cases h with
  | gather _ _ _ h => exact h
  | gatherReals _ _ _ h => exact h
  | allGather _ _ h => exact h
  | _ => rfl

/-- What rank `r` of a group gets for its request, where rank `q` makes the request `all q`. -/
def reference (size : Nat) (all : Nat → Request) (r : Nat) : Request → Yield
  | .barrier => .nothing
  | .broadcast _ source => .words (all source).words
  | .broadcastValue _ source => .word (all source).value
  | .gather _ target =>
    .gathered (if r = target then some ((List.range size).flatMap fun q => (all q).words) else none)
  | .gatherReals _ target => .gatheredReals
    (if r = target then some ((List.range size).flatMap fun q => (all q).reals) else none)
  | .allGather _ => .words ((List.range size).flatMap fun q => (all q).words)
  | .reduce how own target => .word
    (if r = target then how.reference ((List.range size).map fun q => (all q).value) else own)
  | .broadcastIdentifier _ source => .identifier (Identifier.known (all source).identifier)
  | .gatherIdentifiers _ target => .gatheredIdentifiers (if r = target then
    some ((List.range size).map fun q => Identifier.known (all q).identifier) else none)
  | .allGatherIdentifiers _ =>
    .identifiers ((List.range size).map fun q => Identifier.known (all q).identifier)

end Request

/-! ## Replies -/

theorem Reduction.reference_sum (ws : List Int64) :
    Reduction.sum.reference ws = ws.foldl Collective.saturatingAdd 0 := by
  simp only [Reduction.reference]
  split <;> rename_i hall
  · have hwords : ∀ v ∈ ws, 0 ≤ v.toInt := by simpa using hall
    have hsum := Collective.toInt_foldl_saturatingAdd hwords (Int.le_refl 0)
      (show (0 : Int64).toInt = _ from rfl)
    rw [Int.zero_add] at hsum
    rw [← hsum, Int64.ofInt_toInt]
  · rfl

theorem Collective.reduced_eq_ok (how : Reduction) {ws : List Int64} (hws : ws ≠ []) :
    reduced how.operation ws = .ok (how.reference ws) := by
  cases ws with
  | nil => exact absurd rfl hws
  | cons w ws =>
    cases how with
    | least =>
      show Except.ok (ws.foldl lesser w) = .ok (Int64.ofInt _)
      rw [List.map_cons, List.min?_cons', Option.getD_some, ← toInt_foldl_lesser,
        Int64.ofInt_toInt]
    | greatest =>
      show Except.ok (ws.foldl greater w) = .ok (Int64.ofInt _)
      rw [List.map_cons, List.max?_cons', Option.getD_some, ← toInt_foldl_greater,
        Int64.ofInt_toInt]
    | sum => exact congrArg Except.ok (Reduction.reference_sum (w :: ws)).symm

namespace Offer

open Exchange

variable {g : Roster}

theorem agreed_meet : Agreed g.size (fun q => some (meet (g.member q)))
    (List.replicate g.size .empty) :=
  ⟨fun q => meet (g.member q), fun _ _ => rfl, fun _ _ => rfl, rfl, List.length_replicate⟩

theorem agreed_spread (values : Nat → List Int64) {source : Nat} (hsource : source < g.size) :
    Agreed g.size (fun q => some (spread (g.member q) (values q) source))
      (List.replicate g.size (.words (values source))) := by
  refine ⟨fun q => spread (g.member q) (values q) source, fun _ _ => rfl, fun _ _ => rfl, ?_,
    List.length_replicate⟩
  have hsaid : ((List.range g.size).map fun q =>
      (spread (g.member q) (values q) source).contribution).getD source .empty =
      .words (values source) := by
    simp [List.getD_eq_getElem?_getD, hsource, spread, Roster.member]
  simp only [spread] at hsaid ⊢
  rw [hsaid]
  rfl

theorem agreed_hand {values : Nat → List Int64} {count : Nat} (target : Nat)
    (hvalues : ∀ q < g.size, (values q).length = count) :
    Agreed g.size (fun q => some (hand (g.member q) (values q) target))
      (Collective.onlyFor g.size target (.words ((List.range g.size).flatMap values))) := by
  refine ⟨fun q => hand (g.member q) (values q) target, fun _ _ => rfl, fun _ _ => rfl, ?_, ?_⟩
  · simp only [hand, Collective.joined_range Collective.wordValues? .words (fun _ => rfl) hvalues]
    rfl
  · simp [Collective.onlyFor]

theorem agreed_handReals {values : Nat → List Double} {count : Nat} (target : Nat)
    (hvalues : ∀ q < g.size, (values q).length = count) :
    Agreed g.size (fun q => some (handReals (g.member q) (values q) target))
      (Collective.onlyFor g.size target (.reals ((List.range g.size).flatMap values))) := by
  refine ⟨fun q => handReals (g.member q) (values q) target, fun _ _ => rfl, fun _ _ => rfl, ?_, ?_⟩
  · simp only [handReals, Collective.joined_range Collective.realValues? .reals (fun _ => rfl) hvalues]
    rfl
  · simp [Collective.onlyFor]

theorem agreed_share {values : Nat → List Int64} {count : Nat}
    (hvalues : ∀ q < g.size, (values q).length = count) :
    Agreed g.size (fun q => some (share (g.member q) (values q)))
      (List.replicate g.size (.words ((List.range g.size).flatMap values))) := by
  refine ⟨fun q => share (g.member q) (values q), fun _ _ => rfl, fun _ _ => rfl, ?_,
    List.length_replicate⟩
  simp only [share, Collective.joined_range Collective.wordValues? .words (fun _ => rfl) hvalues]
  rfl

theorem agreed_reduce (how : Reduction) (value : Nat → Int64) (target : Nat)
    (hsize : 0 < g.size) :
    Agreed g.size (fun q => some (reduce (g.member q) how (value q) target))
      (Collective.onlyFor g.size target
        (.words [how.reference ((List.range g.size).map value)])) := by
  refine ⟨fun q => reduce (g.member q) how (value q) target, fun _ _ => rfl, fun _ _ => rfl, ?_, ?_⟩
  · have hne : (List.range g.size).map value ≠ [] := by
      simp only [ne_eq, List.map_eq_nil_iff, List.range_eq_nil]
      omega
    have hsingles := Collective.singles_map ((List.range g.size).map value) 0
    rw [List.map_map] at hsingles
    show (do
      return Collective.onlyFor g.size target (.words [← Collective.reduced how.operation
        (← Collective.singles 0 ((List.range g.size).map fun q => .words [value q]))])) = _
    rw [Function.comp_def] at hsingles
    rw [hsingles]
    show (do
      return Collective.onlyFor g.size target (.words [← Collective.reduced how.operation
        ((List.range g.size).map value)])) = _
    rw [Collective.reduced_eq_ok how hne]
    rfl
  · simp [Collective.onlyFor]

end Offer

namespace Request

open Exchange

variable {g : Roster}

/-! ## Every request -/

/-- The exchange to which the ranks come with the requests `all` is agreed, and each of them reads
its reply as the reference. -/
def Granted (g : Roster) (all : Nat → Request) : Prop :=
  ∃ replies, Agreed g.size (fun q => some ((all q).offer (g.member q))) replies ∧
    ∀ r < g.size, ∃ payload, replies[r]? = some payload ∧
      (all r).finish (g.member r) payload = .ok (reference g.size all r (all r))

theorem getElem?_onlyFor {size r target : Nat} (payload : Payload) (hr : r < size) :
    (Collective.onlyFor size target payload)[r]? =
      some (if r = target then payload else .empty) := by
  simp only [Collective.onlyFor, List.getElem?_set, List.length_replicate]
  by_cases h : target = r
  · subst h
    simp [hr]
  · simp [h, Ne.symm h, hr]

theorem granted_barrier : Granted g fun _ => .barrier :=
  ⟨_, Offer.agreed_meet, fun r hr => ⟨.empty, by simp [hr], rfl⟩⟩

theorem granted_broadcast (values : Nat → List Int64) {source : Nat} (hsource : source < g.size) :
    Granted g fun q => .broadcast (values q) source :=
  ⟨_, Offer.agreed_spread values hsource, fun r hr => ⟨.words (values source), by simp [hr], rfl⟩⟩

theorem granted_broadcastValue (value : Nat → Int64) {source : Nat} (hsource : source < g.size) :
    Granted g fun q => .broadcastValue (value q) source :=
  ⟨_, Offer.agreed_spread (fun q => [value q]) hsource,
    fun r hr => ⟨.words [value source], by simp [hr], rfl⟩⟩

theorem granted_gather {values : Nat → List Int64} {count : Nat} (target : Nat)
    (hvalues : ∀ q < g.size, (values q).length = count) :
    Granted g fun q => .gather (values q) target := by
  refine ⟨_, Offer.agreed_hand target hvalues, fun r hr => ⟨_, getElem?_onlyFor _ hr, ?_⟩⟩
  by_cases htarget : r = target
  · simp [finish, reference, Reply.gathered, Reply.words, words, Roster.member, htarget, Except.map]
  · simp [finish, reference, Reply.gathered, Roster.member, htarget, Except.map]

theorem granted_gatherReals {values : Nat → List Double} {count : Nat} (target : Nat)
    (hvalues : ∀ q < g.size, (values q).length = count) :
    Granted g fun q => .gatherReals (values q) target := by
  refine ⟨_, Offer.agreed_handReals target hvalues, fun r hr => ⟨_, getElem?_onlyFor _ hr, ?_⟩⟩
  by_cases htarget : r = target
  · simp [finish, reference, Reply.gatheredReals, reals, Roster.member, htarget, Except.map]
  · simp [finish, reference, Reply.gatheredReals, Roster.member, htarget, Except.map]

theorem granted_allGather {values : Nat → List Int64} {count : Nat}
    (hvalues : ∀ q < g.size, (values q).length = count) :
    Granted g fun q => .allGather (values q) :=
  ⟨_, Offer.agreed_share hvalues,
    fun r hr => ⟨.words ((List.range g.size).flatMap values), by simp [hr], rfl⟩⟩

theorem granted_reduce (how : Reduction) (value : Nat → Int64) (target : Nat)
    (hsize : 0 < g.size) : Granted g fun q => .reduce how (value q) target := by
  refine ⟨_, Offer.agreed_reduce how value target hsize,
    fun r hr => ⟨_, getElem?_onlyFor _ hr, ?_⟩⟩
  by_cases htarget : r = target
  · simp [finish, reference, Reply.reduced, Reply.words, Reply.firstOf, Request.value,
      Roster.member, htarget, Except.map, Except.bind]
  · simp [finish, reference, Reply.reduced, Roster.member, htarget, Except.map]

theorem granted_broadcastIdentifier (ids : Nat → Option Identifier) {source : Nat}
    (hsource : source < g.size) : Granted g fun q => .broadcastIdentifier (ids q) source := by
  refine ⟨_, Offer.agreed_spread (fun q => Identifier.toWords (ids q)) hsource, fun r hr =>
    ⟨.words (Identifier.toWords (ids source)), by simp [hr], ?_⟩⟩
  simp [finish, reference, Reply.words, Reply.identifierOf, identifier, Identifier.ofWords_toWords,
    Except.map, Except.bind]

theorem granted_gatherIdentifiers (ids : Nat → Option Identifier) (target : Nat) :
    Granted g fun q => .gatherIdentifiers (ids q) target := by
  refine ⟨_, Offer.agreed_hand target fun q _ => Identifier.length_toWords (ids q),
    fun r hr => ⟨_, getElem?_onlyFor _ hr, ?_⟩⟩
  by_cases htarget : r = target
  · simp [finish, reference, Reply.gathered, Reply.words, identifier, Roster.member, htarget,
      Identifier.ofWords_flatMap, Except.map, Except.bind]
  · simp [finish, reference, Reply.gathered, Roster.member, htarget, Except.map, Except.bind]

theorem granted_allGatherIdentifiers (ids : Nat → Option Identifier) :
    Granted g fun q => .allGatherIdentifiers (ids q) := by
  refine ⟨_, Offer.agreed_share fun q _ => Identifier.length_toWords (ids q), fun r hr =>
    ⟨.words ((List.range g.size).flatMap fun q => Identifier.toWords (ids q)), by simp [hr], ?_⟩⟩
  simp [finish, reference, Reply.words, identifier, Identifier.ofWords_flatMap, Except.map,
    Except.bind]

theorem reference_congr {size : Nat} {all all' : Nat → Request} {own : Request}
    (h : ∀ q < size, all q = all' q) (hown : ∀ rank, own.rank? = some rank → rank < size)
    (r : Nat) : reference size all r own = reference size all' r own := by
  have hmap {β : Type} (f : Request → β) :
      (List.range size).map (fun q => f (all q)) = (List.range size).map fun q => f (all' q) :=
    List.map_congr_left fun q hq => by rw [h q (List.mem_range.mp hq)]
  have hflat {β : Type} (f : Request → List β) : (List.range size).flatMap (fun q => f (all q)) =
      (List.range size).flatMap fun q => f (all' q) := by
    rw [List.flatMap_def, List.flatMap_def, hmap]
  cases own with
  | barrier => rfl
  | broadcast _ source | broadcastValue _ source | broadcastIdentifier _ source =>
    simp only [reference, h source (hown source rfl)]
  | gather _ _ | gatherReals _ _ | allGather _ => simp only [reference, hflat]
  | reduce _ _ _ => simp only [reference, hmap value]
  | gatherIdentifiers _ _ | allGatherIdentifiers _ =>
    simp only [reference, hmap fun q => Identifier.known q.identifier]

theorem Granted.congr {all all' : Nat → Request} (h' : Granted g all')
    (h : ∀ q < g.size, all q = all' q)
    (hrank : ∀ q < g.size, ∀ rank, (all q).rank? = some rank → rank < g.size) : Granted g all := by
  obtain ⟨replies, hagreed, hreplies⟩ := h'
  refine ⟨replies, hagreed.mono fun q hq ρ hρ => by rw [h q hq]; exact hρ, fun r hr => ?_⟩
  rw [reference_congr h (hrank r hr), h r hr]
  exact hreplies r hr

theorem granted_of_alike (all : Nat → Request) (hsize : 0 < g.size)
    (halike : ∀ q < g.size, (all 0).Alike (all q))
    (hrank : ∀ rank, (all 0).rank? = some rank → rank < g.size) : Granted g all := by
  -- Every request is that of the root with other values.
  have hfill : ∀ q < g.size, all q = (all 0).fill (all q) := fun q hq => (halike q hq).eq_fill
  have hwidth : ∀ q < g.size, ((all 0).fill (all q)).width = (all 0).width := by
    intro q hq
    rw [← hfill q hq]
    exact (halike q hq).width_eq
  refine Granted.congr ?_ hfill fun q hq rank hq' => hrank rank ((halike q hq).rank?_eq ▸ hq')
  cases h0 : all 0 with
  | barrier => exact granted_barrier
  | broadcast values source =>
    rw [h0] at hrank
    exact granted_broadcast (fun q => (all q).words) (hrank source rfl)
  | broadcastValue value source =>
    rw [h0] at hrank
    exact granted_broadcastValue (fun q => (all q).value) (hrank source rfl)
  | gather values target =>
    rw [h0] at hwidth
    exact granted_gather target hwidth
  | gatherReals values target =>
    rw [h0] at hwidth
    exact granted_gatherReals target hwidth
  | allGather values =>
    rw [h0] at hwidth
    exact granted_allGather hwidth
  | reduce how own target => exact granted_reduce how (fun q => (all q).value) target hsize
  | broadcastIdentifier id source =>
    rw [h0] at hrank
    exact granted_broadcastIdentifier (fun q => (all q).identifier) (hrank source rfl)
  | gatherIdentifiers id target =>
    exact granted_gatherIdentifiers (fun q => (all q).identifier) target
  | allGatherIdentifiers id => exact granted_allGatherIdentifiers fun q => (all q).identifier

end Request

end Lagmeter
