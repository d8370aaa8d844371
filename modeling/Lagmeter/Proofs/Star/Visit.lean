import Lagmeter.Proofs.Exchange.Agreement
import Lagmeter.Proofs.Group.Fate
import Lagmeter.Proofs.Group.Program

/-!
# Visits

A visit is a program of a rank that may also close its link, and that is told what its operations
gave or that they failed, but not why. Up to the first closing it is a plan. After the closing the
rank is on its own, and what its operations give is settled.
-/

namespace Lagmeter

inductive VisitCall where
  | request (q : Request)
  | close

def VisitCall.Answer : VisitCall → Type
  | .request _ => Option Yield
  | .close => Unit

abbrev Visits : Interface := ⟨VisitCall, VisitCall.Answer⟩

abbrev Visit (α : Type) := Dialogue Visits α

variable {α β : Type} {m : Member}

namespace Visit

/-- All that a rank asks of its link after operation number `k`. -/
def talk (m : Member) : Visit α → (k : Nat) → Dialogue Link α
  | .done a, _ => .ask LinkCall.leave fun _ => .done a
  | .ask (.request q) next, k =>
    ((q.perform m).start k).bind fun x => talk m (next x.1.toOption) x.2
  | .ask .close next, k => .ask LinkCall.close fun _ => talk m (next ()) k

/-- The same calls whatever they give. -/
def ofList : List VisitCall → Visit (List (Option Yield))
  | [] => .done []
  | .request q :: rest => .ask (.request q) fun x => (ofList rest).bind fun xs => .done (x :: xs)
  | .close :: rest => .ask .close fun _ => ofList rest

/-! ## Up to the closing -/

/-- How a rank comes to leave its group: at the end of its visit, or with some of it to come. -/
inductive Ending (α : Type) where
  | finished (a : α)
  | closed (rest : Visit α)

/-- The exchanges of a visit up to its first closing. -/
def plan (m : Member) : Visit α → Plan Silent (Ending α)
  | .done a => .done (.finished a)
  | .ask (.request q) next => match q.check m with
    | .error _ => plan m (next none)
    | .ok () => .ask (PlanCall.exchange (q.offer m)) fun x =>
      plan m (next (x.bind (q.finish m)).toOption)
  | .ask .close next => .done (.closed (next ()))

def Ending.talk (m : Member) : Ending α → (k : Nat) → Dialogue Link α
  | .finished a, _ => .ask LinkCall.leave fun _ => .done a
  | .closed rest, k => .ask LinkCall.close fun _ => rest.talk m k

def planTalk (m : Member) : Plan Silent (Ending α) → (k : Nat) → Dialogue Link α
  | .done b, k => b.talk m k
  | .ask (.exchange ρ) next, k => (ρ.dialogue m k).bind fun x => planTalk m (next x.1) x.2

theorem planTalk_plan (m : Member) (d : Visit α) (k : Nat) :
    planTalk m (d.plan m) k = d.talk m k := by
  induction d generalizing k with
  | done a => rfl
  | ask call next ih =>
    cases call with
    | close => rfl
    | request q =>
      rw [talk, q.reads_perform m k, plan]
      cases q.check m with
      | error e => exact ih _ k
      | ok _ =>
        simp only [planTalk, Dialogue.bind_assoc, Dialogue.bind]
        exact congrArg (Dialogue.bind _) (funext fun x => ih _ _)

end Visit

/-! ## After the closing -/

namespace Dialogue

/-- Every run of the dialogue that receives no frame comes to something of which `P` holds. -/
def Alone (P : α → Prop) : Dialogue Link α → Prop
  | .done a => P a
  | .ask call next => match call, next with
    | .receive _, next => ∀ e, (next (.error e)).Alone P
    | _, next => ∀ answer, (next answer).Alone P

variable {P : α → Prop} {Q : β → Prop}

theorem Alone.bind {d : Dialogue Link α} {f : α → Dialogue Link β} (h : d.Alone P)
    (hf : ∀ a, P a → (f a).Alone Q) : (d.bind f).Alone Q := by
  induction d with
  | done a => exact hf a h
  | ask call next ih =>
    cases call with
    | receive peer => exact fun e => ih _ (h e)
    | send | close | leave | log => exact fun answer => ih _ (h answer)

theorem Alone.mono {d : Dialogue Link α} {P' : α → Prop} (h : d.Alone P) (hP : ∀ a, P a → P' a) :
    d.Alone P' := by
  have hbind : (d.bind .done).Alone P' := h.bind hP
  rwa [bind_done] at hbind

end Dialogue

namespace Exchange

variable {step : Step} {size : Nat}

theorem alone_collect (step : Step) (ps : List Nat) : (collect step ps).Alone fun received =>
    received.length = ps.length ∧ ∀ x ∈ received, ∃ e, x = .error e := by
  induction ps with
  | nil => exact ⟨rfl, nofun⟩
  | cons p ps ih =>
    intro e
    refine ih.bind fun received hreceived => ⟨by simp [hreceived.1], fun x hx => ?_⟩
    rcases List.mem_cons.mp hx with rfl | hx
    · exact ⟨e, rfl⟩
    · exact hreceived.2 x hx

theorem alone_tell (step : Step) (e : GroupError) (ps : List Nat) :
    (tell step e ps).Alone fun _ => True := by
  induction ps with
  | nil => trivial
  | cons p ps ih =>
    intro answer
    cases answer with
    | ok _ => exact ih
    | error cause => exact fun _ => ih

theorem alone_abandon (step : Step) (size : Nat) (e : GroupError) :
    (abandon step size e).Alone (· = .error e) :=
  fun _ => (alone_tell step e (peers size)).bind fun _ _ => rfl

/-- What the root makes of its own contribution if it has no peers. -/
def lonely (size : Nat) (ρ : Offer) : Option Payload :=
  if size ≤ 1 then (Place.outcome size ρ []).toOption.map (·.headD .empty) else none

theorem alone_lead {ρ : Offer} (k : Nat) : (lead (ρ.step k) size ρ.contribution ρ.combine).Alone
    fun x => x.toOption = lonely size ρ := by
  refine (alone_collect _ _).bind fun received ⟨hlength, herrors⟩ => ?_
  cases received with
  | cons x rest =>
    obtain ⟨e, rfl⟩ := herrors x List.mem_cons_self
    have hsize : ¬ size ≤ 1 := by
      simp only [peers, List.length_range', List.length_cons] at hlength
      omega
    rw [lonely, if_neg hsize]
    exact (alone_abandon _ size e).mono fun _ h => h ▸ rfl
  | nil =>
    have hsize : size ≤ 1 := by
      simp only [peers, List.length_range', List.length_nil] at hlength
      omega
    have hpeers : peers size = [] := by simp [peers, show size - 1 = 0 by omega]
    rw [lonely, if_pos hsize, hpeers]
    have houtcome : combined size ρ.combine ((gathered []).map (ρ.contribution :: ·)) =
        Place.outcome size ρ [] := rfl
    rw [houtcome]
    cases Place.outcome size ρ [] with
    | error e => exact (alone_abandon _ size e).mono fun _ h => h ▸ rfl
    | ok replies => exact rfl

theorem alone_follow {ρ : Offer} (k : Nat) :
    (follow (ρ.step k) ρ.contribution).Alone fun x => x.toOption = none := by
  intro answer
  cases answer with
  | error e => rfl
  | ok _ => exact fun _ => rfl

end Exchange

def Offer.alone (m : Member) (ρ : Offer) : Option Payload :=
  if m.isRoot then Exchange.lonely m.size ρ else none

theorem Offer.alone_dialogue (ρ : Offer) (m : Member) (k : Nat) :
    (ρ.dialogue m k).Alone fun x => x.1.toOption = ρ.alone m := by
  rw [← Exchange.dialogue_entering]
  refine fun _ => Dialogue.Alone.bind
    (P := fun x : Except GroupError Payload => x.toOption = ρ.alone m) ?_ fun _ h => h
  unfold Offer.alone
  split
  · exact Exchange.alone_lead _
  · exact Exchange.alone_follow _

namespace Visit

/-- What a request gives to a rank that has closed its link. -/
def granted (m : Member) (q : Request) : Option Yield :=
  match q.check m with
  | .error _ => none
  | .ok () => ((q.offer m).alone m).bind fun reply => (q.finish m reply).toOption

/-- What a visit comes to for a rank that has closed its link. -/
def alone (m : Member) : Visit α → α
  | .done a => a
  | .ask (.request q) next => alone m (next (granted m q))
  | .ask .close next => alone m (next ())

def Ending.value (m : Member) : Ending α → α
  | .finished a => a
  | .closed rest => rest.alone m

theorem toOption_bind {ε γ δ : Type} (x : Except ε γ) (f : γ → Except ε δ) :
    (x.bind f).toOption = x.toOption.bind fun a => (f a).toOption := by
  cases x <;> rfl

theorem alone_talk (d : Visit α) (k : Nat) : (d.talk m k).Alone (· = d.alone m) := by
  induction d generalizing k with
  | done a => exact fun _ => rfl
  | ask call next ih =>
    cases call with
    | close => exact fun _ => ih _ k
    | request q =>
      rw [talk, q.reads_perform m k, alone, granted]
      cases q.check m with
      | error e => exact ih none k
      | ok _ =>
        refine (((q.offer m).alone_dialogue m k).bind (Q := fun x => x.1.toOption =
          ((q.offer m).alone m).bind fun reply => (q.finish m reply).toOption)
          fun x hx => ?_).bind fun x hx => ?_
        · show (x.1.bind (q.finish m)).toOption = _
          rw [toOption_bind, hx]
        · rw [← hx]
          exact ih _ _

end Visit

end Lagmeter
