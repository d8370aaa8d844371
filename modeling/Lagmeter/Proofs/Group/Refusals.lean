import Lagmeter.Proofs.Group.History
import Lagmeter.Proofs.Group.Provenance
import Mathlib.Tactic.Choose

/-!
# Refused calls

A call that names a rank outside the group is refused before it has a number. So the exchanges of a
rank count those of its calls that were not refused. What an exchange gives is made of calls of one
number, and these stand at one place of all programs only where the ranks had equally many calls
refused before.
-/

namespace Lagmeter

section

variable {β : Type} {p : β → Bool} {x y : β} {xs : List β} {i j : Nat}

theorem exists_place_of_filter (h : (xs.filter p)[i]? = some x) :
    ∃ j, xs[j]? = some x ∧ p x = true ∧ (xs.take j).countP p = i := by
  induction xs generalizing i with
  | nil => cases h
  | cons z xs ih =>
    by_cases hz : p z = true
    · rw [List.filter_cons_of_pos hz] at h
      cases i with
      | zero =>
        cases h
        exact ⟨0, rfl, hz, rfl⟩
      | succ i =>
        obtain ⟨j, hj, hx, hcount⟩ := ih h
        exact ⟨j + 1, hj, hx, by rw [List.take_succ_cons, List.countP_cons_of_pos hz, hcount]⟩
    · rw [List.filter_cons_of_neg hz] at h
      obtain ⟨j, hj, hx, hcount⟩ := ih h
      exact ⟨j + 1, hj, hx, by rw [List.take_succ_cons, List.countP_cons_of_neg hz, hcount]⟩

theorem countP_take_lt (hx : xs[i]? = some x) (hp : p x = true) (hij : i < j) :
    (xs.take i).countP p < (xs.take j).countP p := by
  have hcount : (xs.take (i + 1)).countP p = (xs.take i).countP p + 1 := by
    rw [List.take_add_one, hx, List.countP_append, Option.toList_some, List.countP_singleton,
      if_pos hp]
  have hle := ((List.take_prefix_take_left (l := xs) (i := i + 1) (j := j) hij).sublist).countP_le (p := p)
  omega

theorem place_unique (hx : xs[i]? = some x) (hy : xs[j]? = some y) (hpx : p x = true)
    (hpy : p y = true) (hcount : (xs.take i).countP p = (xs.take j).countP p) : i = j := by
  rcases Nat.lt_trichotomy i j with hij | hij | hij
  · have := countP_take_lt hx hpx hij
    omega
  · exact hij
  · have := countP_take_lt hy hpy hij
    omega

end

/-! ## The calls of a program -/

/-- A call of a program, and what it gave if it is over. -/
structure Call where
  request : Request
  result : Option (Except GroupError Yield) := none

instance : Inhabited Call := ⟨⟨.barrier, none⟩⟩

/-- A request that is not refused at once. -/
def Request.admitted (m : Member) (q : Request) : Bool := (q.check m).toBool

/-- All calls that a program has come to where its exchanges so far gave `results`, refused ones
included. -/
def Program.calls {α : Type} (m : Member) : Program α → List (Except GroupError Payload) → List Call
  | .done _, _ => []
  | .ask q next, results => match q.check m with
    | .error e => ⟨q, some (.error e)⟩ :: calls m (next (.error e)) results
    | .ok () => match results with
      | [] => [⟨q, none⟩]
      | x :: rest =>
        ⟨q, some (x.bind (q.finish m))⟩ :: calls m (next (x.bind (q.finish m))) rest

namespace Call

def admitted (m : Member) (c : Call) : Bool := c.request.admitted m

/-- How many of the calls before place `k` were refused. -/
def refusals (m : Member) (calls : List Call) (k : Nat) : Nat :=
  (calls.take k).countP fun c => !c.admitted m

theorem countP_admitted_add_refusals {m : Member} {calls : List Call} {k : Nat} {c : Call}
    (h : calls[k]? = some c) :
    (calls.take k).countP (admitted m) + refusals m calls k = k := by
  obtain ⟨hlt, -⟩ := List.getElem?_eq_some_iff.mp h
  have hlength := List.length_eq_countP_add_countP (admitted m) (l := calls.take k)
  rw [List.length_take, Nat.min_eq_left (Nat.le_of_lt hlt)] at hlength
  simpa [refusals] using hlength.symm

end Call

namespace Program

variable {α : Type} {J : Interface} {m : Member} {entered : List Offer}
  {results : List (Except GroupError Payload)} {q : Request} {next : Except GroupError Yield → Program α}

theorem calls_refused {e : GroupError} (h : q.check m = .error e) :
    calls m (.ask q next) results = ⟨q, some (.error e)⟩ :: calls m (next (.error e)) results := by
  cases results <;> simp only [calls, h]

theorem calls_pending (h : q.check m = .ok ()) : calls m (.ask q next) [] = [⟨q, none⟩] := by
  simp only [calls, h]

theorem calls_over (h : q.check m = .ok ()) (x : Except GroupError Payload) :
    calls m (.ask q next) (x :: results) = ⟨q, some (x.bind (q.finish m))⟩ ::
      calls m (next (x.bind (q.finish m))) results := by
  simp only [calls, h]

theorem admitted_of_check {u : Unit} (h : q.check m = .ok u) (x : Option (Except GroupError Yield)) :
    Call.admitted m ⟨q, x⟩ = true := by
  rw [Call.admitted, Request.admitted, h]
  rfl

theorem not_admitted_of_check {e : GroupError} (h : q.check m = .error e)
    (x : Option (Except GroupError Yield)) : ¬ Call.admitted m ⟨q, x⟩ = true := by
  rw [Call.admitted, Request.admitted, h]
  exact Bool.false_ne_true

theorem entered_of_leads (p : Program α) {p' : Plan J α} (h : Plan.Leads (p.plan m) entered results p') :
    entered <+: ((p.calls m results).filter (Call.admitted m)).map (·.request.offer m) ∧
      ∀ ρ next, p' = .ask (PlanCall.exchange ρ) next → entered ++ [ρ] <+:
        ((p.calls m results).filter (Call.admitted m)).map (·.request.offer m) := by
  induction p generalizing entered results with
  | done a =>
    obtain ⟨rfl, rfl, rfl⟩ := h.of_done
    exact ⟨List.nil_prefix, nofun⟩
  | ask q next ih =>
    rw [plan] at h
    cases hcheck : q.check m with
    | error e =>
      rw [hcheck] at h
      rw [calls_refused hcheck, List.filter_cons_of_neg (not_admitted_of_check hcheck _)]
      exact ih _ h
    | ok u =>
      rw [hcheck] at h
      rcases h.of_exchange with ⟨rfl, rfl, rfl⟩ | ⟨x, entered', results', rfl, rfl, hleads⟩
      · rw [calls_pending hcheck, List.filter_cons_of_pos (admitted_of_check hcheck _)]
        refine ⟨List.nil_prefix, fun ρ next' hp => ?_⟩
        cases hp
        exact List.prefix_rfl
      · rw [calls_over hcheck, List.filter_cons_of_pos (admitted_of_check hcheck _), List.map_cons]
        obtain ⟨hentered, hnext⟩ := ih _ hleads
        exact ⟨(List.prefix_cons_inj _).mpr hentered,
          fun ρ next' hp => (List.prefix_cons_inj _).mpr (hnext ρ next' hp)⟩

/-- What a call gave that was not refused is what its request makes of the exchange of its number. -/
theorem result_of_calls (p : Program α) {k : Nat} {q : Request} {x : Except GroupError Yield}
    (h : (p.calls m results)[k]? = some ⟨q, some x⟩) :
    (∃ e, x = .error e) ∨ q.admitted m = true ∧
      ∃ y, results[((p.calls m results).take k).countP (Call.admitted m)]? = some y ∧
        x = y.bind (q.finish m) := by
  induction p generalizing results k with
  | done a => cases h
  | ask q' next ih =>
    cases hcheck : q'.check m with
    | error e =>
      rw [calls_refused hcheck] at h ⊢
      cases k with
      | zero =>
        cases h
        exact .inl ⟨e, rfl⟩
      | succ k =>
        rw [List.take_succ_cons, List.countP_cons_of_neg (not_admitted_of_check hcheck _)]
        exact ih _ h
    | ok u =>
      cases results with
      | nil =>
        rw [calls_pending hcheck] at h
        cases k <;> cases h
      | cons y rest =>
        rw [calls_over hcheck] at h ⊢
        cases k with
        | zero =>
          cases h
          exact .inr ⟨admitted_of_check hcheck none, y, rfl, rfl⟩
        | succ k =>
          rw [List.take_succ_cons, List.countP_cons_of_pos (admitted_of_check hcheck _)]
          exact ih _ h

end Program

/-! ## Calls that are combined -/

namespace Assembly

variable {C : Carrier} {α : Type} {g : Roster} {base : Nat} {t : C.State}
  {programs : Nat → Program α} {s : Assembly C Silent α}

/-- The calls that rank `q` has come to. -/
def calls (g : Roster) (programs : Nat → Program α) (s : Assembly C Silent α) (q : Nat) : List Call :=
  (programs q).calls (g.member q) (s.rank q).results

def refusals (g : Roster) (programs : Nat → Program α) (s : Assembly C Silent α) (q k : Nat) : Nat :=
  Call.refusals (g.member q) (s.calls g programs q) k

/-- Rank `r` got `y` from what the ranks brought with these requests, the calls at these places of
their programs. -/
structure Combined (g : Roster) (programs : Nat → Program α) (s : Assembly C Silent α) (r : Nat)
    (y : Yield) (place : Nat → Nat) (request : Nat → Request) : Prop where
  call : ∀ q < g.size, (request q).admitted (g.member q) = true ∧
    ∃ result, (s.calls g programs q)[place q]? = some ⟨request q, result⟩
  operation : ∀ q < g.size, ((request q).offer (g.member q)).operation =
    ((request r).offer (g.member r)).operation
  reply : ∃ replies payload, ((request 0).offer (g.member 0)).combine
      ((List.range g.size).map fun q => ((request q).offer (g.member q)).contribution) =
        .ok replies ∧ replies.length = g.size ∧ replies[r]? = some payload ∧
    (request r).finish (g.member r) payload = .ok y

theorem entered_prefix_calls
    (hs : Reaches g (start t (fun q => (programs q).plan (g.member q)) base) s) (q : Nat) :
    (s.rank q).entered <+: ((s.calls g programs q).filter (Call.admitted (g.member q))).map
      (·.request.offer (g.member q)) := by
  have hkeeps := keeps_of_reaches hs q
  unfold Rank.Keeps at hkeeps
  cases hstage : (s.rank q).stage with
  | free plan =>
    rw [hstage] at hkeeps
    exact ((programs q).entered_of_leads hkeeps).1
  | busy ρ talk next =>
    rw [hstage] at hkeeps
    obtain ⟨past, hentered, hleads⟩ := hkeeps
    rw [hentered]
    exact ((programs q).entered_of_leads hleads).2 ρ next rfl
  | gone result =>
    rw [hstage] at hkeeps
    obtain ⟨a, -, hleads⟩ := hkeeps
    exact ((programs q).entered_of_leads hleads).1

theorem exists_call_of_offer
    (hs : Reaches g (start t (fun q => (programs q).plan (g.member q)) base) s) {q i : Nat} {ρ : Offer}
    (hρ : (s.rank q).entered[i]? = some ρ) :
    ∃ (k : Nat) (c : Call), (s.calls g programs q)[k]? = some c ∧ c.admitted (g.member q) = true ∧
      ((s.calls g programs q).take k).countP (Call.admitted (g.member q)) = i ∧
      ρ = c.request.offer (g.member q) := by
  obtain ⟨hi, -⟩ := List.getElem?_eq_some_iff.mp hρ
  obtain ⟨more, hmore⟩ := entered_prefix_calls hs q
  have hoffer : (((s.calls g programs q).filter (Call.admitted (g.member q))).map
      (·.request.offer (g.member q)))[i]? = some ρ := by
    rw [← hmore, List.getElem?_append_left hi, hρ]
  rw [List.getElem?_map, Option.map_eq_some_iff] at hoffer
  obtain ⟨c, hc, rfl⟩ := hoffer
  obtain ⟨k, hk, hadmitted, hcount⟩ := exists_place_of_filter hc
  exact ⟨k, c, hk, hadmitted, hcount, rfl⟩

/-- Calls that are combined have had equally many calls before them that were not refused. -/
theorem combined_of_ok {transit : C.State → Nat → Nat → List Frame} (hC : C.Conveys g.size transit)
    (ht : ∀ a b, transit t a b = [])
    (hs : Reaches g (start t (fun q => (programs q).plan (g.member q)) base) s) {r k : Nat}
    (hr : r < g.size) {own : Request} {y : Yield}
    (hok : (s.calls g programs r)[k]? = some ⟨own, some (.ok y)⟩) :
    ∃ (place : Nat → Nat) (request : Nat → Request),
      Combined g programs s r y place request ∧ place r = k ∧ request r = own ∧
      ∀ q < g.size,
        place q + s.refusals g programs r k = k + s.refusals g programs q (place q) ∧
        (place q = k ↔ s.refusals g programs q k = s.refusals g programs r k ∧
          ∃ c, (s.calls g programs q)[k]? = some c ∧ c.admitted (g.member q) = true) := by
  have hown := (programs r).result_of_calls hok
  obtain ⟨hadmitted, x, hx, hread⟩ := hown.resolve_left nofun
  obtain ⟨payload, rfl, hfinish⟩ : ∃ payload, x = .ok payload ∧ own.finish (g.member r) payload = .ok y := by
    cases x with
    | error e => cases hread
    | ok payload => exact ⟨payload, rfl, hread.symm⟩
  obtain ⟨w, hw⟩ := traced_of_falters hC ht _ hs.falters
  obtain ⟨replies, ⟨offers, hoffers, hoperation, hcombine, hlength⟩, hreply⟩ := hw.awarded r hr _ _ hx
  -- Every rank came to the exchange with one of its calls, which has the number of the exchange.
  have hcalls (q : Nat) (hq : q < g.size) : ∃ (j : Nat) (c : Call),
      (s.calls g programs q)[j]? = some c ∧ c.admitted (g.member q) = true ∧
        ((s.calls g programs q).take j).countP (Call.admitted (g.member q)) =
          ((s.calls g programs r).take k).countP (Call.admitted (g.member r)) ∧
        offers q = c.request.offer (g.member q) := exists_call_of_offer hs (hoffers q hq)
  choose! place call hplace hcall hcount hoffer using hcalls
  have hk : place r = k := place_unique (hplace r hr) hok (hcall r hr) hadmitted (hcount r hr)
  have hcallr : call r = ⟨own, some (.ok y)⟩ := by
    have hplacer := hplace r hr
    rw [hk, hok] at hplacer
    exact (Option.some.inj hplacer).symm
  have hrequest : (call r).request = own := congrArg Call.request hcallr
  refine ⟨place, fun q => (call q).request, ⟨fun q hq => ⟨hcall q hq, (call q).result, hplace q hq⟩,
    fun q hq => ?_, replies, payload, ?_, hlength, hreply, hrequest ▸ hfinish⟩, hk, hrequest,
    fun q hq => ?_⟩
  · rw [← hoffer q hq, ← hoffer r hr, hoperation q hq, hoperation r hr]
  · have hcontributions : (List.range g.size).map (fun q => (offers q).contribution) =
        (List.range g.size).map fun q => ((call q).request.offer (g.member q)).contribution :=
      List.map_congr_left fun q hq => by rw [hoffer q (List.mem_range.mp hq)]
    rw [← hoffer 0 (by omega), ← hcontributions, hcombine]
  · have hnumber := Call.countP_admitted_add_refusals (m := g.member r) hok
    have hnumberq := Call.countP_admitted_add_refusals (m := g.member q) (hplace q hq)
    have hcountq := hcount q hq
    refine ⟨by rw [refusals, refusals]; omega, fun hqk => ?_, ?_⟩
    · rw [hqk] at hnumberq hcountq
      exact ⟨by rw [refusals, refusals]; omega, call q, hqk ▸ hplace q hq, hcall q hq⟩
    · rintro ⟨hrefusals, c, hc, hadmittedq⟩
      have hnumberc := Call.countP_admitted_add_refusals (m := g.member q) hc
      rw [refusals, refusals] at hrefusals
      exact place_unique (hplace q hq) hc (hcall q hq) hadmittedq (by omega)

end Assembly

/-! ## Ranks that drift apart -/

/-- What rank `r` gets from a request is made of what the ranks brought. -/
def Request.informs (r : Nat) : Request → Bool
  | .barrier => false
  | .gather _ target | .gatherReals _ target | .reduce _ _ target | .gatherIdentifiers _ target =>
    r = target
  | .broadcast _ _ | .broadcastValue _ _ | .allGather _ | .broadcastIdentifier _ _
  | .allGatherIdentifiers _ => true

namespace Assembly

/-- Two ranks that make as many calls. Both ask for sums, but the first call of rank 1 names a rank
outside the group. -/
def drifting (r : Nat) : Program (List (Except GroupError Yield)) :=
  if r = 0 then .ofList [.reduce .sum 3 0, .reduce .sum 5 0]
  else .ofList [.reduce .sum 4 7, .reduce .sum 6 0]

def drifted : Assembly (Mesh.carrier pair.size) Silent (List (Except GroupError Yield)) :=
  (inProcess pair drifting 0).turns pair (List.replicate 9 [1, 0]).flatten

set_option maxRecDepth 10000 in
theorem calls_drifted : drifted.calls pair drifting 1 =
    [⟨.reduce .sum 4 7, some (.error (.invalidRank 7 2))⟩,
      ⟨.reduce .sum 6 0, some (.ok (.word 6))⟩] := rfl

set_option maxRecDepth 10000 in
theorem combined_of_drifted :
    (drifted.calls pair drifting 0)[0]? = some ⟨.reduce .sum 3 0, some (.ok (.word 9))⟩ ∧
    ∃ (place : Nat → Nat) (request : Nat → Request),
      Combined pair drifting drifted 0 (.word 9) place request ∧ place 0 = 0 ∧ place 1 = 1 ∧
        request 1 = .reduce .sum 6 0 := by
  have hok : (drifted.calls pair drifting 0)[0]? =
      some ⟨.reduce .sum 3 0, some (.ok (.word 9))⟩ := rfl
  have hreach : Reaches pair (inProcess pair drifting 0) drifted := reaches_turns _ _
  obtain ⟨place, request, hcombined, h0, -, -⟩ :=
    combined_of_ok (Mesh.faithful 2).conveys (Mesh.queue_fresh 2) hreach (by decide) hok
  obtain ⟨hadmitted, result, hcall⟩ := hcombined.call 1 (by decide)
  rw [calls_drifted] at hcall
  match hplace : place 1 with
  | 0 =>
    rw [hplace] at hcall
    have hrequest : .reduce .sum 4 7 = request 1 := congrArg Call.request (Option.some.inj hcall)
    rw [← hrequest] at hadmitted
    cases hadmitted
  | 1 =>
    rw [hplace] at hcall
    exact ⟨hok, place, request, hcombined, h0, hplace, (congrArg Call.request (Option.some.inj hcall)).symm⟩
  | k + 2 =>
    rw [hplace] at hcall
    cases hcall

set_option maxRecDepth 10000 in
/-- Calls that are combined need not stand at one place of the programs. -/
theorem not_always_in_place :
    ¬ ∀ s, Reaches pair (inProcess pair drifting 0) s →
      ∀ r < 2, ∀ (k : Nat) (own : Request) (y : Yield),
        (s.calls pair drifting r)[k]? = some ⟨own, some (.ok y)⟩ → own.informs r = true →
        ∃ request, Combined pair drifting s r y (fun _ => k) request := by
  intro hplace
  obtain ⟨request, hcombined⟩ := hplace drifted (reaches_turns _ _) 0 (by decide) 0
    (.reduce .sum 3 0) (.word 9) rfl rfl
  -- The call of rank 1 at that place was refused.
  obtain ⟨hadmitted, result, hcall⟩ := hcombined.call 1 (by decide)
  rw [calls_drifted] at hcall
  have hrequest : .reduce .sum 4 7 = request 1 := congrArg Call.request (Option.some.inj hcall)
  rw [← hrequest] at hadmitted
  cases hadmitted

end Assembly

end Lagmeter
