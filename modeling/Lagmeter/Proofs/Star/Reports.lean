import Mathlib.Data.Nat.Digits.Defs
import Lagmeter.Proofs.Exchange.Agreement
import Lagmeter.Proofs.Group.Request
import Lagmeter.Proofs.Star.Stream

/-!
# Reports of failures

The frame in which the root reports a failure holds the text of an error. The texts of the errors
that an exchange can have are short, because they name ranks, numbers of operations and lengths,
and nothing that a rank has brought. So such a frame always fits.
-/

namespace Lagmeter

theorem Utf8.length_encode_le (s : String) : (Utf8.encode s).length ≤ 4 * s.length := by
  have hchar : ∀ c, (Utf8.encodeChar c).length ≤ 4 := by
    intro c
    unfold Utf8.encodeChar
    simp only
    split_ifs <;> simp
  have hlist : ∀ cs : List Char, (cs.flatMap Utf8.encodeChar).length ≤ 4 * cs.length := by
    intro cs
    induction cs with
    | nil => simp
    | cons c cs ih =>
      rw [List.flatMap_cons, List.length_append, List.length_cons]
      have := hchar c
      omega
  rw [Utf8.encode, ← String.length_toList]
  exact hlist s.toList

/-! ## Texts -/

/-- A number of at most twenty digits. Every number of eight octets is one. -/
def Small (n : Nat) : Prop := n < 10 ^ 20

theorem small_of_lt {n : Nat} (h : n < 256 ^ 8) : Small n := Nat.lt_trans h (by decide)

theorem Small.length_repr {n : Nat} (h : Small n) : n.repr.length ≤ 20 :=
  Nat.repr_length n 20 (by decide) h

theorem Payload.length_kind (p : Payload) : p.kind.length ≤ 7 := by
  cases p <;> simp only [kind] <;> decide

theorem Operation.length_name (o : Operation) : o.name.length ≤ 9 := by
  cases o <;> decide

def CombineError.Brief (e : CombineError) : Prop := e.message.length ≤ 150

def GroupError.Brief (e : GroupError) : Prop := e.message.length ≤ 200

namespace CombineError

variable {rank length first : Nat}

theorem brief_source (h : Small rank) (p : Payload) : Brief (.source rank p.kind) := by
  have hrank := h.length_repr
  have hkind := p.length_kind
  have h1 : "broadcast source ".length = 17 := rfl
  have h2 : " contributed ".length = 13 := rfl
  unfold Brief message
  simp only [String.length_append, toString]
  omega

theorem brief_contributed (h : Small rank) (p : Payload) : Brief (.contributed rank p.kind) := by
  have hrank := h.length_repr
  have hkind := p.length_kind
  have h1 : "rank ".length = 5 := rfl
  have h2 : " contributed ".length = 13 := rfl
  unfold Brief message
  simp only [String.length_append, toString]
  omega

theorem brief_uneven (h : Small rank) (hl : Small length) (hf : Small first) :
    Brief (.uneven rank length first) := by
  have hrank := h.length_repr
  have hlength := hl.length_repr
  have hfirst := hf.length_repr
  have h1 : "rank ".length = 5 := rfl
  have h2 : " contributed ".length = 13 := rfl
  have h3 : " values, rank 0 contributed ".length = 28 := rfl
  have h4 : " values".length = 7 := rfl
  unfold Brief message
  simp only [String.length_append, toString]
  omega

theorem brief_emptyGroup : Brief .emptyGroup := by unfold Brief; decide

end CombineError

namespace GroupError

variable {peer : Nat}

theorem brief_disconnected (h : Small peer) : Brief (.disconnected peer) := by
  have hpeer := h.length_repr
  have h1 : "peer ".length = 5 := rfl
  have h2 : " disconnected".length = 13 := rfl
  unfold Brief message
  simp only [String.length_append, toString]
  omega

theorem brief_brokenPipe : Brief (.transport "Broken pipe (os error 32)") := by
  unfold Brief
  decide

theorem brief_outOfStep {expected found : Step} (h : Small peer) (he : Small expected.sequence)
    (hf : Small found.sequence) : Brief (.outOfStep peer expected found) := by
  have hpeer := h.length_repr
  have hexpected := he.length_repr
  have hfound := hf.length_repr
  have hname := expected.operation.length_name
  have hname' := found.operation.length_name
  have h1 : "rank ".length = 5 := rfl
  have h2 : " is out of step: expected ".length = 26 := rfl
  have h3 : ", got ".length = 6 := rfl
  have h4 : " #".length = 2 := rfl
  unfold Brief message Step.text Frame.stepText
  simp only [String.length_append, toString]
  omega

theorem brief_collective {cause : CombineError} (h : cause.Brief) : Brief (.collective cause) := by
  have h1 : "collective failed: ".length = 19 := rfl
  unfold CombineError.Brief at h
  unfold Brief message
  simp only [String.length_append, toString]
  omega

theorem Brief.portable {e : GroupError} (h : e.Brief) {step : Step}
    (hstep : step.sequence < 256 ^ 8) :
    Star.Portable (Exchange.frame step (.failure e.message)) := by
  have hlength : (Utf8.encode e.message).length ≤ 800 := by
    have hencode := Utf8.length_encode_le e.message
    unfold Brief at h
    omega
  constructor
  · exact ⟨hstep, Nat.lt_of_le_of_lt hlength (by decide)⟩
  · have hwidth : (Exchange.frame step (.failure e.message)).width =
        12 + (12 + (Utf8.encode e.message).length) := rfl
    rw [hwidth, Star.maxFrame]
    omega

end GroupError

/-! ## Combining -/

namespace Collective

variable {α : Type} {values? : Payload → Option (List α)} {payloads : List Payload}
  {e : CombineError}

theorem brief_of_joined_go {length : Option Nat} {rank : Nat}
    (hlengths : ∀ p ∈ payloads, ∀ vs, values? p = some vs → Small vs.length)
    (hfirst : ∀ n, length = some n → Small n) (hrank : rank + payloads.length < 10 ^ 20)
    (h : joined.go values? length rank payloads = .error e) : e.Brief := by
  induction payloads generalizing length rank with
  | nil => cases h
  | cons p rest ih =>
    rw [List.length_cons] at hrank
    have hsmall : Small rank := by
      unfold Small
      omega
    rw [joined.go] at h
    split at h
    case h_1 =>
      cases h
      exact CombineError.brief_contributed hsmall p
    case h_2 vs hvs =>
      have hlength : Small vs.length := hlengths p List.mem_cons_self vs hvs
      have hexpected : Small (length.getD vs.length) := by
        cases length with
        | none => exact hlength
        | some n => exact hfirst n rfl
      simp only at h
      split at h
      case isTrue =>
        cases hrest : joined.go values? (some (length.getD vs.length)) (rank + 1) rest with
        | ok _ => simp [hrest, Except.map] at h
        | error e' =>
          rw [hrest] at h
          cases h
          refine ih (fun p' hp' => hlengths p' (List.mem_cons_of_mem _ hp')) ?_ (by omega) hrest
          rintro n ⟨⟩
          exact hexpected
      case isFalse =>
        cases h
        exact CombineError.brief_uneven hsmall hlength hexpected

theorem brief_of_singles {rank : Nat} (hrank : rank + payloads.length < 10 ^ 20)
    (h : singles rank payloads = .error e) : e.Brief := by
  induction payloads generalizing rank with
  | nil => cases h
  | cons p rest ih =>
    rw [List.length_cons] at hrank
    have hsmall : Small rank := by
      unfold Small
      omega
    have hrest : ∀ w, (singles (rank + 1) rest).map (w :: ·) = .error e → e.Brief := by
      intro w hw
      cases hs : singles (rank + 1) rest with
      | ok _ => simp [hs, Except.map] at hw
      | error e' =>
        rw [hs] at hw
        cases hw
        exact ih (by omega) hs
    unfold singles at h
    split at h
    case h_1 hnil => cases hnil
    case h_2 hcons =>
      obtain ⟨-, rfl⟩ := List.cons.inj hcons
      exact hrest _ h
    case h_3 hcons =>
      obtain ⟨rfl, -⟩ := List.cons.inj hcons
      cases h
      exact CombineError.brief_contributed hsmall p

theorem brief_of_reduced {how : Operation} {ws : List Int64} (h : reduced how ws = .error e) :
    e.Brief := by
  cases ws with
  | nil =>
    rw [reduced] at h
    split at h
    · cases h
    · cases h
      exact CombineError.brief_emptyGroup
  | cons w ws =>
    cases how <;> simp [reduced] at h

end Collective

namespace Request

variable {m : Member} {q : Request} {payloads : List Payload} {e : CombineError}
  {replies : List Payload}

theorem error_of_map {ε γ δ : Type} {x : Except ε γ} {f : γ → δ} {e : ε} (h : x.map f = .error e) :
    x = .error e := by
  cases x with
  | error e' =>
    cases h
    rfl
  | ok a => cases h

theorem error_of_bind {ε γ δ : Type} {x : Except ε γ} {f : γ → Except ε δ} {e : ε}
    (h : x.bind f = .error e) : x = .error e ∨ ∃ a, x = .ok a ∧ f a = .error e := by
  cases x with
  | error e' =>
    cases h
    exact .inl rfl
  | ok a => exact .inr ⟨a, rfl, h⟩

theorem combine_reduce (how : Reduction) (value : Int64) (target : Nat) :
    ((reduce how value target).offer m).combine payloads =
      ((Collective.singles 0 payloads).bind (Collective.reduced how.operation)).map fun w =>
        Collective.onlyFor m.size target (.words [w]) := by
  simp only [offer, Offer.reduce, bind, Except.bind]
  cases Collective.singles 0 payloads with
  | error e => rfl
  | ok ws => cases Collective.reduced how.operation ws <;> rfl

theorem brief_of_combine (hcheck : q.check m = .ok ()) (hsize : m.size < 256 ^ 8)
    (hlength : payloads.length ≤ m.size) (hfits : ∀ p ∈ payloads, p.Fits)
    (h : (q.offer m).combine payloads = .error e) : e.Brief := by
  have hwords : ∀ p ∈ payloads, ∀ ws, Collective.wordValues? p = some ws → Small ws.length := by
    intro p hp ws hws
    cases p with
    | words ws' =>
      obtain rfl := Option.some.inj hws
      exact small_of_lt (hfits _ hp)
    | empty | reals | failure => cases hws
  have hreals : ∀ p ∈ payloads, ∀ xs, Collective.realValues? p = some xs → Small xs.length := by
    intro p hp xs hxs
    cases p with
    | reals xs' =>
      obtain rfl := Option.some.inj hxs
      exact small_of_lt (hfits _ hp)
    | empty | words | failure => cases hxs
  have hcount : 0 + payloads.length < 10 ^ 20 := by omega
  have hspread (values : List Int64) (source : Nat)
      (hsource : (if source < m.size then Except.ok () else
        .error (.invalidRank source m.size) : Except GroupError Unit) = .ok ())
      (h : (Offer.spread m values source).combine payloads = .error e) : e.Brief := by
    simp only [Offer.spread] at h
    split at h
    · cases h
    · cases h
      split at hsource
      case isTrue hlt => exact CombineError.brief_source (small_of_lt (by omega)) _
      case isFalse => cases hsource
  cases q with
  | barrier => cases h
  | broadcast values source => exact hspread _ _ hcheck h
  | broadcastValue value source => exact hspread _ _ hcheck h
  | broadcastIdentifier id source => exact hspread _ _ hcheck h
  | gather values target | gatherIdentifiers id target =>
    exact Collective.brief_of_joined_go hwords (by rintro _ ⟨⟩) hcount (error_of_map h)
  | gatherReals values target =>
    exact Collective.brief_of_joined_go hreals (by rintro _ ⟨⟩) hcount (error_of_map h)
  | allGather values | allGatherIdentifiers id =>
    exact Collective.brief_of_joined_go hwords (by rintro _ ⟨⟩) hcount (error_of_map h)
  | reduce how value target =>
    rw [combine_reduce] at h
    rcases error_of_bind (error_of_map h) with hsingles | ⟨ws, -, hreduced⟩
    · exact Collective.brief_of_singles hcount hsingles
    · exact Collective.brief_of_reduced hreduced

theorem length_of_combine (h : (q.offer m).combine payloads = .ok replies) :
    replies.length = m.size := by
  have hmap {γ : Type} (x : Except CombineError γ) (f : γ → List Payload)
      (hf : ∀ a, (f a).length = m.size) (h : x.map f = .ok replies) : replies.length = m.size := by
    cases x with
    | error e => cases h
    | ok a =>
      cases h
      exact hf a
  have hreplicate (p : Payload) : (List.replicate m.size p).length = m.size := List.length_replicate
  have honly (target : Nat) (p : Payload) : (Collective.onlyFor m.size target p).length = m.size := by
    simp [Collective.onlyFor]
  have hspread (values : List Int64) (source : Nat)
      (h : (Offer.spread m values source).combine payloads = .ok replies) :
      replies.length = m.size := by
    simp only [Offer.spread] at h
    split at h
    · cases h
      exact hreplicate _
    · cases h
  cases q with
  | barrier =>
    cases h
    exact hreplicate _
  | broadcast | broadcastValue | broadcastIdentifier => exact hspread _ _ h
  | gather _ target | gatherIdentifiers _ target => exact hmap _ _ (fun _ => honly target _) h
  | gatherReals _ target => exact hmap _ _ (fun _ => honly target _) h
  | allGather | allGatherIdentifiers => exact hmap _ _ (fun _ => hreplicate _) h
  | reduce how value target =>
    rw [combine_reduce] at h
    exact hmap _ _ (fun _ => honly target _) h

end Request

namespace Exchange

theorem brief_of_outcome {m : Member} {q : Request} {received : List (Except GroupError Payload)}
    {e : GroupError} (hcheck : q.check m = .ok ()) (hsize : m.size < 256 ^ 8)
    (hlength : received.length < m.size) (hown : (q.offer m).contribution.Fits)
    (hfits : ∀ p, .ok p ∈ received → p.Fits) (hbrief : ∀ e, .error e ∈ received → e.Brief)
    (h : Place.outcome m.size (q.offer m) received = .error e) : e.Brief := by
  have hgathered : ∀ {xs : List (Except GroupError Payload)} {e : GroupError},
      gathered xs = .error e → .error e ∈ xs := by
    intro xs
    induction xs with
    | nil => exact fun h => by cases h
    | cons x xs ih =>
      intro e h
      cases x with
      | error e' =>
        cases h
        exact List.mem_cons_self
      | ok p => exact List.mem_cons_of_mem _ (ih (Request.error_of_map h))
  unfold Place.outcome at h
  cases hg : gathered received with
  | error e' =>
    rw [hg] at h
    cases h
    exact hbrief _ (hgathered hg)
  | ok payloads =>
    obtain rfl := eq_map_ok_of_gathered hg
    have hall : ∀ p ∈ (q.offer m).contribution :: payloads, p.Fits := by
      intro p hp
      rcases List.mem_cons.mp hp with rfl | hp
      · exact hown
      · exact hfits p (List.mem_map_of_mem hp)
    rw [hg] at h
    simp only [Except.map, combined, bind, Except.bind] at h
    cases hcombine : (q.offer m).combine ((q.offer m).contribution :: payloads) with
    | error ce =>
      rw [hcombine] at h
      cases h
      rw [List.length_map] at hlength
      have hcount : ((q.offer m).contribution :: payloads).length ≤ m.size := hlength
      exact GroupError.brief_collective
        (Request.brief_of_combine hcheck hsize hcount hall hcombine)
    | ok replies =>
      simp only [hcombine] at h
      rw [if_pos (Request.length_of_combine hcombine)] at h
      cases h

end Exchange

end Lagmeter
