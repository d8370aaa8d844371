import Lagmeter.Proofs.Feed.Basic

/-!
# Boards

A board is a replicated structure with the channels that are open on it. An errand fills or churns
the structure through a channel: it queues its changes one by one, waits until they are applied and
gives its reply. Samples are published meanwhile, and the dispatcher applies one change after the
other.
-/

namespace Lagmeter

open Sample

/-! ## Errands -/

inductive Errand where
  | populate (keys : List Int)
  | churn (operations : Nat)
  deriving DecidableEq

/-- All routes that the channel remembers are background. -/
def Channel.Clean (c : Channel) : Prop := ∀ r ∈ c.routes, r.isDefault = false

namespace Errand

def work (c : Channel) (d : Draws) (s : Structure) : Errand → Channel.Work s
  | .populate keys => Channel.populate s c d keys
  | .churn operations => Channel.churn c d operations s

def reply (s : Structure) : Errand → Nat
  | .populate keys => Channel.populated keys
  | .churn operations => Channel.churned s operations

/-- How many of the changes that were submitted have to be applied before the reply. Where nothing is
churned, nothing is waited for. -/
def mark (s : Structure) (submitted : Nat) : Errand → Nat
  | .populate _ => submitted
  | .churn _ => if s = .routingTable then submitted else 0

/-- The keys have 32 bits. -/
def Fits : Errand → Prop
  | .populate keys => ∀ key ∈ keys, 0 ≤ key ∧ key < 2 ^ 32
  | .churn _ => True

instance : (q : Errand) → Decidable q.Fits
  | .populate keys => inferInstanceAs (Decidable (∀ key ∈ keys, 0 ≤ key ∧ key < 2 ^ 32))
  | .churn _ => isTrue trivial

end Errand

/-! ### How many changes there are -/

namespace Channel

variable {s : Structure} {c : Channel}

theorem length_fill (c : Channel) (d : Draws) (key : Int) (s : Structure) :
    (c.fill d key s).changes.length = 1 := by
  cases s <;> rfl

theorem length_populate (s : Structure) (c : Channel) (d : Draws) (keys : List Int) :
    (populate s c d keys).changes.length = populated keys := by
  induction keys generalizing c d with
  | nil => rfl
  | cons key rest ih =>
    unfold populate populated
    by_cases hkey : key = 0
    · rw [if_pos hkey, List.filter_cons_of_neg (by simpa using hkey)]
      exact ih c d
    · rw [if_neg hkey, List.filter_cons_of_pos (by simpa using hkey), List.length_append, length_fill, ih,
        List.length_cons, Nat.add_comm]
      rfl

theorem length_swaps (n : Nat) (c : Channel) (d : Draws) : (swaps n c d).changes.length = 2 * n := by
  induction n generalizing c d with
  | zero => rfl
  | succ n ih =>
    have hfirst : (swap c d).changes.length = 2 := rfl
    rw [swaps, List.length_append, hfirst, ih]
    omega

theorem length_churn (s : Structure) (c : Channel) (d : Draws) (operations : Nat) :
    (churn c d operations s).changes.length = churned s operations := by
  cases s with
  | routingTable =>
    have hchurned : churned .routingTable operations = operations - operations % 2 := rfl
    rw [churn, length_swaps, hchurned]
    omega
  | macTable | arpTable | arpMergedMap => rfl

/-! ### Errands change the background alone -/

theorem background_fill (hc : c.Clean) (d : Draws) {key : Int} (hkey : key ≠ 0) (hlow : 0 ≤ key)
    (hhigh : key < 2 ^ 32) :
    (∀ change ∈ (c.fill d key s).changes, Background s change) ∧ (c.fill d key s).channel.Clean := by
  cases s with
  | macTable =>
    refine ⟨fun change hchange => ?_, hc⟩
    obtain rfl := List.mem_singleton.mp hchange
    intro (hzero : Mac.ofWord _ = Mac.zero)
    have hword : (key % 0x10000000000000000).toNat % Nat.pow 2 48 = 0 := congrArg Mac.raw hzero
    rw [show Nat.pow 2 48 = 281474976710656 from rfl] at hword
    omega
  | arpTable | arpMergedMap =>
    refine ⟨fun change hchange => ?_, hc⟩
    obtain rfl := List.mem_singleton.mp hchange
    intro (hzero : Address.ofKey key = .unspecified)
    have hvalue : (key % 0x100000000).toNat = 0 := congrArg Address.value hzero
    omega
  | routingTable =>
    refine ⟨fun change hchange => ?_, fun r hr => ?_⟩
    · obtain rfl := List.mem_singleton.mp hchange
      exact rfl
    · rcases List.mem_append.mp hr with hold | hnew
      · exact hc r hold
      · rw [List.mem_singleton.mp hnew]
        rfl

theorem background_populate (hc : c.Clean) (d : Draws) {keys : List Int}
    (hkeys : ∀ key ∈ keys, 0 ≤ key ∧ key < 2 ^ 32) :
    (∀ change ∈ (populate s c d keys).changes, Background s change) ∧
      (populate s c d keys).channel.Clean := by
  induction keys generalizing c d with
  | nil => exact ⟨nofun, hc⟩
  | cons key rest ih =>
    have hrest := fun k hk => hkeys k (List.mem_cons_of_mem key hk)
    unfold populate
    split
    case isTrue => exact ih hc d hrest
    case isFalse hkey =>
      obtain ⟨hlow, hhigh⟩ := hkeys key List.mem_cons_self
      obtain ⟨hfirst, hclean⟩ := background_fill (s := s) hc d hkey hlow hhigh
      obtain ⟨hothers, hcleaned⟩ := ih hclean (c.fill d key s).draws hrest
      refine ⟨fun change hchange => ?_, hcleaned⟩
      rcases List.mem_append.mp hchange with h | h
      · exact hfirst change h
      · exact hothers change h

theorem mem_swapRemove {α : Type} {x : α} {xs : List α} {i : Nat} (h : x ∈ swapRemove xs i) :
    x ∈ xs := by
  unfold swapRemove at h
  split at h
  case h_1 => exact h
  case h_2 last hlast =>
    rcases List.mem_or_eq_of_mem_set ((List.dropLast_sublist _).mem h) with hmem | rfl
    · exact hmem
    · exact List.mem_of_getLast? hlast

theorem mem_getD {α : Type} {x : α} {xs : List α} (h : x ∈ xs) (i : Nat) : xs.getD i x ∈ xs := by
  rw [List.getD_eq_getElem?_getD]
  cases hget : xs[i]? with
  | none => exact h
  | some y => exact List.mem_of_getElem? hget

theorem background_swap (hc : c.Clean) (d : Draws) :
    (∀ change ∈ (swap c d).changes, Background .routingTable change) ∧ (swap c d).channel.Clean := by
  have hroutes : ∀ r ∈ c.routes ++ [backgroundRoute (d.next.1 % (Nat.pow 2 32 - 1) + 1) d.next.2.next.1],
      r.isDefault = false := by
    intro r hr
    rcases List.mem_append.mp hr with hold | hnew
    · exact hc r hold
    · rw [List.mem_singleton.mp hnew]
      rfl
  refine ⟨fun change hchange => ?_, fun r hr => hroutes r (mem_swapRemove hr)⟩
  rcases List.mem_cons.mp hchange with rfl | hsecond
  · exact rfl
  · obtain rfl := List.mem_singleton.mp hsecond
    -- One of the remembered routes is withdrawn, the new one included.
    exact hroutes _ (mem_getD (List.mem_append_right _ (List.mem_singleton_self _)) _)

theorem background_swaps (hc : c.Clean) (n : Nat) (d : Draws) :
    (∀ change ∈ (swaps n c d).changes, Background .routingTable change) ∧
      (swaps n c d).channel.Clean := by
  induction n generalizing c d with
  | zero => exact ⟨nofun, hc⟩
  | succ n ih =>
    obtain ⟨hfirst, hclean⟩ := background_swap hc d
    obtain ⟨hothers, hcleaned⟩ := ih hclean (swap c d).draws
    refine ⟨fun change hchange => ?_, hcleaned⟩
    rcases List.mem_append.mp hchange with h | h
    · exact hfirst change h
    · exact hothers change h

end Channel

namespace Errand

variable {s : Structure} {c : Channel} {q : Errand}

theorem length_changes (q : Errand) (c : Channel) (d : Draws) :
    (q.work c d s).changes.length = q.reply s := by
  cases q with
  | populate keys => exact Channel.length_populate s c d keys
  | churn operations => exact Channel.length_churn s c d operations

theorem background_work (hc : c.Clean) (d : Draws) (hq : q.Fits) :
    (∀ change ∈ (q.work c d s).changes, Background s change) ∧ (q.work c d s).channel.Clean := by
  cases q with
  | populate keys => exact Channel.background_populate hc d hq
  | churn operations =>
    cases s with
    | routingTable => exact Channel.background_swaps hc _ d
    | macTable | arpTable | arpMergedMap => exact ⟨nofun, hc⟩

end Errand

/-! ## Boards -/

/-- A change that was submitted: a sample, or the background of the errand of a number. -/
inductive Posting (s : Structure) where
  | sample (p : Sample)
  | background (errand : Nat) (c : s.Change)

namespace Posting

variable {s : Structure}

def change : Posting s → s.Change
  | sample p => p.publication s
  | background _ c => c

def sample? : Posting s → Option Sample
  | sample p => some p
  | background .. => none

def isOf (errand : Nat) : Posting s → Bool
  | sample _ => false
  | background k _ => k = errand

end Posting

inductive Job.Stage (s : Structure) where
  | queueing (left : List s.Change)
  /-- Waits until so many of the submitted changes are applied. -/
  | waiting (mark : Nat)
  | finished (reply : Nat)

/-- An errand on a channel. -/
structure Job (s : Structure) where
  channel : Nat
  errand : Errand
  stage : Job.Stage s

def Job.reply? {s : Structure} (j : Job s) : Option Nat := match j.stage with
  | .finished n => some n
  | .queueing _ | .waiting _ => none

structure Board (s : Structure) where
  /-- How long a change is on its way at least. -/
  delay : Span
  replica : Replica s := {}
  channel : Nat → Channel
  /-- The errands by their numbers. -/
  jobs : List (Job s) := []
  submitted : List (Posting s) := []
  /-- How many of the submitted changes are applied. -/
  applied : Nat := 0

namespace Board

variable {s : Structure}

inductive Move where
  | begin (channel : Nat) (q : Errand) (draws : Draws)
  | queue (errand now : Nat)
  /-- The errand has queued all its changes, and waits until they are applied. -/
  | flush (errand : Nat)
  | reply (errand : Nat)
  /-- Publishes a sample. What is queued for it is the same on all channels. -/
  | publish (now : Nat) (p : Sample)
  | apply (now : Nat)

/-- What is read from the structure. -/
def observed (x : Board s) : Option Sample := latest? s x.replica.contents

/-- The changes that are applied. -/
def arrived (x : Board s) : List (Posting s) := x.submitted.take x.applied

/-- A channel that remembers routes does one errand after the other. -/
def engaged (x : Board s) (channel : Nat) : Bool :=
  s = .routingTable && x.jobs.any fun j => j.channel = channel && j.reply?.isNone

def act (x : Board s) : Move → Option (Board s)
  | .begin i q draws =>
    if x.engaged i then none
    else
      let work := q.work (x.channel i) draws s
      some { x with
        channel := Function.update x.channel i work.channel
        jobs := x.jobs ++ [⟨i, q, .queueing work.changes⟩] }
  | .queue k now => match x.jobs[k]? with
    | some ⟨i, q, .queueing (c :: left)⟩ => some { x with
        replica := x.replica.submit now x.delay c
        submitted := x.submitted ++ [.background k c]
        jobs := x.jobs.set k ⟨i, q, .queueing left⟩ }
    | _ => none
  | .flush k => match x.jobs[k]? with
    | some ⟨i, q, .queueing []⟩ =>
      some { x with jobs := x.jobs.set k ⟨i, q, .waiting (q.mark s x.submitted.length)⟩ }
    | _ => none
  | .reply k => match x.jobs[k]? with
    | some ⟨i, q, .waiting mark⟩ =>
      if mark ≤ x.applied then some { x with jobs := x.jobs.set k ⟨i, q, .finished (q.reply s)⟩ } else none
    | _ => none
  | .publish now p => some { x with
      replica := x.replica.submit now x.delay (p.publication s)
      submitted := x.submitted ++ [.sample p] }
  | .apply now => (x.replica.advance? now).map fun (replica, _) =>
      { x with replica, applied := x.applied + 1 }

/-- The versions of samples rise, and keys have 32 bits. -/
def Proper (x : Board s) : Move → Prop
  | .begin _ q _ => q.Fits
  | .publish _ p => p.Fits ∧ ∀ q ∈ x.submitted.filterMap Posting.sample?, q.version < p.version
  | .queue .. | .flush _ | .reply _ | .apply _ => True

instance (x : Board s) : (m : Move) → Decidable (x.Proper m)
  | .begin _ q _ => inferInstanceAs (Decidable q.Fits)
  | .publish _ p => inferInstanceAs
      (Decidable (p.Fits ∧ ∀ q ∈ x.submitted.filterMap Posting.sample?, q.version < p.version))
  | .queue .. | .flush _ | .reply _ | .apply _ => isTrue trivial

/-- A structure that nothing has happened to, and channels that were just opened on it. -/
def fresh (s : Structure) (delay : Span) (name : String) : Board s :=
  { delay, channel := fun _ => { name } }

/-! ## Moves -/

/-- What a move does to a board. -/
inductive Turn (x : Board s) : Move → Board s → Prop where
  | begin (i : Nat) (q : Errand) (draws : Draws) :
    Turn x (.begin i q draws) { x with
      channel := Function.update x.channel i (q.work (x.channel i) draws s).channel
      jobs := x.jobs ++ [⟨i, q, .queueing (q.work (x.channel i) draws s).changes⟩] }
  | queue (k now i : Nat) (q : Errand) (c : s.Change) (left : List s.Change)
      (hjob : x.jobs[k]? = some ⟨i, q, .queueing (c :: left)⟩) :
    Turn x (.queue k now) { x with
      replica := x.replica.submit now x.delay c
      submitted := x.submitted ++ [.background k c]
      jobs := x.jobs.set k ⟨i, q, .queueing left⟩ }
  | flush (k i : Nat) (q : Errand) (hjob : x.jobs[k]? = some ⟨i, q, .queueing []⟩) :
    Turn x (.flush k) { x with
      jobs := x.jobs.set k ⟨i, q, .waiting (q.mark s x.submitted.length)⟩ }
  | reply (k i mark : Nat) (q : Errand) (hjob : x.jobs[k]? = some ⟨i, q, .waiting mark⟩)
      (hmark : mark ≤ x.applied) :
    Turn x (.reply k) { x with jobs := x.jobs.set k ⟨i, q, .finished (q.reply s)⟩ }
  | publish (now : Nat) (p : Sample) :
    Turn x (.publish now p) { x with
      replica := x.replica.submit now x.delay (p.publication s)
      submitted := x.submitted ++ [.sample p] }
  | apply (now : Nat) (c : Submitted s) (rest : List (Submitted s)) (hqueue : x.replica.queue = c :: rest) :
    Turn x (.apply now) { x with
      replica := { x.replica with
        contents := (s.applied x.replica.contents c.change).1, queue := rest }
      applied := x.applied + 1 }

theorem turn_of_act {x y : Board s} {m : Move} (h : x.act m = some y) : x.Turn m y := by
  cases m with
  | begin i q draws =>
    simp only [act] at h
    split at h
    · cases h
    · cases h
      exact .begin i q draws
  | queue k now =>
    simp only [act] at h
    split at h
    case h_1 i q c left hjob =>
      cases h
      exact .queue k now i q c left hjob
    case h_2 => cases h
  | flush k =>
    simp only [act] at h
    split at h
    case h_1 i q hjob =>
      cases h
      exact .flush k i q hjob
    case h_2 => cases h
  | reply k =>
    simp only [act] at h
    split at h
    case h_1 i q mark hjob =>
      split at h
      case isTrue hmark =>
        cases h
        exact .reply k i mark q hjob hmark
      case isFalse => cases h
    case h_2 => cases h
  | publish now p =>
    cases h
    exact .publish now p
  | apply now =>
    obtain ⟨⟨replica, told⟩, hadvance, rfl⟩ := Option.map_eq_some_iff.mp h
    unfold Replica.advance? at hadvance
    split at hadvance
    case h_1 => cases hadvance
    case h_2 c rest hqueue =>
      split at hadvance
      case isTrue =>
        cases hadvance
        exact .apply now c rest hqueue
      case isFalse => cases hadvance

/-! ### What a job can do -/

section

variable {x : Board s} {k i : Nat} {q : Errand}

theorem act_queue {c : s.Change} {left : List s.Change} (now : Nat)
    (hjob : x.jobs[k]? = some ⟨i, q, .queueing (c :: left)⟩) :
    x.act (.queue k now) = some { x with
      replica := x.replica.submit now x.delay c
      submitted := x.submitted ++ [.background k c]
      jobs := x.jobs.set k ⟨i, q, .queueing left⟩ } := by
  simp only [act, hjob]

theorem act_flush (hjob : x.jobs[k]? = some ⟨i, q, .queueing []⟩) :
    x.act (.flush k) = some { x with
      jobs := x.jobs.set k ⟨i, q, .waiting (q.mark s x.submitted.length)⟩ } := by
  simp only [act, hjob]

theorem act_reply {mark : Nat} (hjob : x.jobs[k]? = some ⟨i, q, .waiting mark⟩)
    (hmark : mark ≤ x.applied) :
    x.act (.reply k) = some { x with jobs := x.jobs.set k ⟨i, q, .finished (q.reply s)⟩ } := by
  simp only [act, hjob, if_pos hmark]

theorem act_apply {c : Submitted s} {rest : List (Submitted s)} (hqueue : x.replica.queue = c :: rest) :
    x.act (.apply c.due) = some { x with
      replica := { x.replica with
        contents := (s.applied x.replica.contents c.change).1, queue := rest }
      applied := x.applied + 1 } := by
  simp only [act, Replica.advance?, hqueue, if_pos (Nat.le_refl c.due), Option.map_some]
  rfl

end

end Board

end Lagmeter
