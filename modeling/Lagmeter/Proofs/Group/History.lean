import Lagmeter.Proofs.Group.Program

/-!
# Histories

What a rank brings to its exchanges is what its plan brings there, given what the exchanges before
gave.
-/

namespace Lagmeter

variable {C : Carrier} {J : Interface} {α : Type}

/-- A plan that has come to exchanges with these offers, and got these results, is at another. -/
inductive Plan.Leads (p : Plan J α) :
    List Offer → List (Except GroupError Payload) → Plan J α → Prop where
  | refl : Leads p [] [] p
  | exchange {entered results} (ρ : Offer) (next : Except GroupError Payload → Plan J α)
      (x : Except GroupError Payload)
      (h : Leads p entered results (.ask (PlanCall.exchange ρ) next)) :
    Leads p (entered ++ [ρ]) (results ++ [x]) (next x)
  | other {entered results} (call : J.Call) (next : J.Answer call → Plan J α) (a : J.Answer call)
      (h : Leads p entered results (.ask (PlanCall.other call) next)) :
    Leads p entered results (next a)

/-- A rank does what its plan says. -/
def Rank.Keeps (p : Plan J α) (x : Rank J α) : Prop :=
  match x.stage with
  | .free plan => p.Leads x.entered x.results plan
  | .busy ρ _ next => ∃ past, x.entered = past ++ [ρ] ∧
      p.Leads past x.results (.ask (PlanCall.exchange ρ) next)
  | .gone result => ∃ a, result = some a ∧ p.Leads x.entered x.results (.done a)

namespace Assembly

variable {g : Roster} {base : Nat}

theorem Act.keeps {r : Nat} {t t' : C.State} {x x' : Rank J α} {p : Plan J α}
    (h : Act g r t x t' x') (hkeeps : x.Keeps p) : x'.Keeps p := by
  unfold Rank.Keeps at hkeeps
  cases h with
  | enter ρ next h =>
    rw [h] at hkeeps
    exact ⟨_, rfl, hkeeps⟩
  | talk ρ call go next a _ h _ =>
    rw [h] at hkeeps
    exact hkeeps
  | conclude ρ result sequence next h =>
    rw [h] at hkeeps
    obtain ⟨past, hentered, hleads⟩ := hkeeps
    show p.Leads x.entered _ _
    rw [hentered]
    exact .exchange ρ next result hleads
  | other call next a h =>
    rw [h] at hkeeps
    exact .other call next a hkeeps
  | leave a _ h _ =>
    rw [h] at hkeeps
    exact ⟨a, rfl, hkeeps⟩

theorem keeps_of_reaches {t : C.State} {plans : Nat → Plan J α} {s : Assembly C J α}
    (hs : Reaches g (start t plans base) s) (q : Nat) : (s.rank q).Keeps (plans q) := by
  induction hs with
  | refl => exact .refl
  | tail _ hstep ih =>
    obtain ⟨r, -, t', x', hact, rfl⟩ := hstep
    by_cases hq : q = r
    · subst hq
      rw [put_rank]
      exact hact.keeps ih
    · rw [put_rank_ne hq]
      exact ih

end Assembly

/-! ## Plans from their start -/

namespace Plan

variable {entered : List Offer} {results : List (Except GroupError Payload)} {p p' : Plan J α}

theorem Leads.of_done {a : α} (h : Leads (.done a) entered results p') :
    entered = [] ∧ results = [] ∧ p' = .done a := by
  induction h with
  | refl => exact ⟨rfl, rfl, rfl⟩
  | exchange _ _ _ _ ih => cases ih.2.2
  | other _ _ _ _ ih => cases ih.2.2

theorem Leads.of_exchange {ρ : Offer} {next : Except GroupError Payload → Plan J α}
    (h : Leads (.ask (PlanCall.exchange ρ) next) entered results p') :
    (entered = [] ∧ results = [] ∧ p' = .ask (PlanCall.exchange ρ) next) ∨
    ∃ x entered' results', entered = ρ :: entered' ∧ results = x :: results' ∧
      Leads (next x) entered' results' p' := by
  induction h with
  | refl => exact .inl ⟨rfl, rfl, rfl⟩
  | exchange ρ' next' x _ ih =>
    rcases ih with ⟨rfl, rfl, hp⟩ | ⟨y, entered', results', rfl, rfl, hleads⟩
    · cases hp
      exact .inr ⟨x, [], [], rfl, rfl, .refl⟩
    · exact .inr ⟨y, _, _, rfl, rfl, .exchange ρ' next' x hleads⟩
  | other call next' a _ ih =>
    rcases ih with ⟨-, -, hp⟩ | ⟨y, entered', results', rfl, rfl, hleads⟩
    · cases hp
    · exact .inr ⟨y, _, _, rfl, rfl, .other call next' a hleads⟩

end Plan

/-! ## Programs -/

namespace Program

variable {m : Member}

theorem offer_of_plan_eq (p : Program α) {ρ : Offer} {next : Except GroupError Payload → Plan J α}
    (h : p.plan m = .ask (PlanCall.exchange ρ) next) :
    (∃ q : Request, ρ = q.offer m) ∧ ∀ x, ∃ p' : Program α, next x = p'.plan m := by
  induction p with
  | done a => cases h
  | ask q rest ih =>
    rw [plan] at h
    cases hcheck : q.check m with
    | error e =>
      rw [hcheck] at h
      exact ih _ h
    | ok _ =>
      rw [hcheck] at h
      cases h
      exact ⟨⟨q, rfl⟩, fun x => ⟨_, rfl⟩⟩

theorem not_plan_eq_other (p : Program α) {call : J.Call} {next : J.Answer call → Plan J α} :
    p.plan m ≠ .ask (PlanCall.other call) next := by
  intro h
  induction p with
  | done a => cases h
  | ask q rest ih =>
    rw [plan] at h
    cases hcheck : q.check m with
    | error e =>
      rw [hcheck] at h
      exact ih _ h
    | ok _ =>
      rw [hcheck] at h
      cases h

theorem offers_of_leads {p : Program α} {entered : List Offer}
    {results : List (Except GroupError Payload)} {p' : Plan J α}
    (h : Plan.Leads (p.plan m) entered results p') :
    (∀ ρ ∈ entered, ∃ q : Request, ρ = q.offer m) ∧ ∃ rest : Program α, p' = rest.plan m := by
  induction h with
  | refl => exact ⟨nofun, p, rfl⟩
  | exchange ρ next x _ ih =>
    obtain ⟨hentered, rest, hrest⟩ := ih
    obtain ⟨hρ, hnext⟩ := rest.offer_of_plan_eq hrest.symm
    refine ⟨fun ρ' hρ' => ?_, hnext x⟩
    rcases List.mem_append.mp hρ' with hρ' | hρ'
    · exact hentered ρ' hρ'
    · rw [List.mem_singleton.mp hρ']
      exact hρ
  | other call next a _ ih =>
    obtain ⟨-, rest, hrest⟩ := ih
    exact absurd hrest.symm rest.not_plan_eq_other

theorem leads_ofList {β : Type} (requests : List Request)
    (hrequests : ∀ q ∈ requests, q.check m = .ok ())
    (f : List (Except GroupError Yield) → β) {entered : List Offer}
    {results : List (Except GroupError Payload)} {b : β}
    (h : Plan.Leads (plan (J := J) m ((ofList requests).bind fun xs => .done (f xs)))
      entered results (.done b)) :
    entered = requests.map (·.offer m) ∧ results.length = requests.length ∧
      b = f (List.zipWith (fun q x => x.bind (q.finish m)) requests results) := by
  induction requests generalizing f entered results with
  | nil =>
    obtain ⟨rfl, rfl, hb⟩ := Plan.Leads.of_done h
    cases hb
    exact ⟨rfl, rfl, rfl⟩
  | cons q rest ih =>
    have hq : q.check m = .ok () := hrequests q List.mem_cons_self
    simp only [ofList, Dialogue.bind, plan, hq, Dialogue.bind_assoc] at h
    rcases h.of_exchange with ⟨-, -, hp⟩ | ⟨x, entered', results', rfl, rfl, hleads⟩
    · cases hp
    · obtain ⟨rfl, hlength, rfl⟩ := ih (fun q' hq' => hrequests q' (List.mem_cons_of_mem _ hq'))
        (fun xs => f (x.bind (q.finish m) :: xs)) hleads
      exact ⟨rfl, by rw [List.length_cons, List.length_cons, hlength], rfl⟩

theorem offer_of_entered {g : Roster} {base r : Nat} {t : C.State} {programs : Nat → Program α}
    {s : Assembly C J α}
    (hs : Assembly.Reaches g (.start t (fun q => (programs q).plan (g.member q)) base) s)
    {i : Nat} {ρ : Offer} (hρ : s.offers i r = some ρ) : ∃ q : Request, ρ = q.offer (g.member r) := by
  have hmem : ρ ∈ (s.rank r).entered := List.mem_of_getElem? hρ
  have hkeeps := Assembly.keeps_of_reaches hs r
  unfold Rank.Keeps at hkeeps
  cases hstage : (s.rank r).stage with
  | free plan =>
    rw [hstage] at hkeeps
    exact (offers_of_leads hkeeps).1 ρ hmem
  | busy ρ' talk next =>
    rw [hstage] at hkeeps
    obtain ⟨past, hentered, hleads⟩ := hkeeps
    obtain ⟨hpast, rest, hrest⟩ := offers_of_leads hleads
    rw [hentered] at hmem
    rcases List.mem_append.mp hmem with hmem | hmem
    · exact hpast ρ hmem
    · rw [List.mem_singleton.mp hmem]
      exact (rest.offer_of_plan_eq hrest.symm).1
  | gone result =>
    rw [hstage] at hkeeps
    obtain ⟨a, -, hleads⟩ := hkeeps
    exact (offers_of_leads hleads).1 ρ hmem

end Program

end Lagmeter
