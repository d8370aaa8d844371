import Lagmeter.Blocks
import Lagmeter.Proofs.Feed.Moves
import Lagmeter.Proofs.Feed.Reading
import Lagmeter.Proofs.Feed.Writing

/-!
# Presses

A press is a feed with the writer that publishes on it. The writer is at one of its calls. While a
helper fills or churns the structure for it, the writer waits. A call to the store may fail, and then
a sample was not published. Everything else goes on as it does on the feed.
-/

namespace Lagmeter

open Delivery Ledger Sample

namespace Feed

variable {s : Structure}

def ledger (f : Feed s) : Ledger := ⟨f.published, f.wall⟩

/-- The moves that are looked at for a writer: the clock stays in a word, and all readers have the
writer's numbers of versions. -/
def Fair (plan : WriterSettings) (f : Feed s) : Move s → Prop
  | .tick time => f.wall + time < 2 ^ 64
  | .subscribe _ _ _ settings => settings.writes = plan.writes ∧ settings.warmup = plan.warmup
  | _ => True

end Feed

structure Press (s : Structure) where
  feed : Feed s
  talk : Dialogue Work (Writer × Except Fault Unit)
  channel : Channel := { name := "" }
  /-- The changes that the helper still has to queue, while there is one. -/
  helper : Option (List s.Change) := none

namespace Press

variable {s : Structure}

inductive Move (s : Structure) where
  | feed (m : Feed.Move s)
  /-- A helper takes over, with the numbers that it will draw. -/
  | help (draws : Draws)
  | queue (now : Nat)
  /-- Everything that the helper has queued is applied. -/
  | settle
  | fail (e : StoreError)
  | publish (now : Nat)
  | work (clock : Nat)

/-- Changes and samples are queued by the writer alone. -/
def shared : Feed.Move s → Bool
  | .submit .. | .publish .. => false
  | _ => true

def act (x : Press s) : Move s → Option (Press s)
  | .feed m =>
    if shared m then (x.feed.act m).map fun feed => { x with feed } else none
  | .help draws => match x.talk, x.helper with
    | .ask (.store (.populate keys)) _, none =>
      let work := Channel.populate s x.channel draws keys
      some { x with channel := work.channel, helper := some work.changes }
    | .ask (.store (.churn operations)) _, none =>
      let work := Channel.churn x.channel draws operations s
      some { x with channel := work.channel, helper := some work.changes }
    | _, _ => none
  | .queue now => match x.helper with
    | some (c :: rest) =>
      (x.feed.act (.submit now c)).map fun feed => { x with feed, helper := some rest }
    | _ => none
  | .settle => match x.talk, x.helper, x.feed.replica.queue, x.feed.duty with
    | .ask (.store (.populate keys)) next, some [], [], ⟨[], none⟩ =>
      some { x with talk := next (.ok (Channel.populated keys)), helper := none }
    | .ask (.store (.churn operations)) next, some [], [], ⟨[], none⟩ =>
      some { x with talk := next (.ok (Channel.churned s operations)), helper := none }
    | _, _, _, _ => none
  | .fail e => match x.talk with
    | .ask (.store (.populate _)) next => some { x with talk := next (.error e), helper := none }
    | .ask (.store (.churn _)) next => some { x with talk := next (.error e), helper := none }
    | .ask (.store (.publish _)) next => some { x with talk := next (.error e) }
    | _ => none
  | .publish now => match x.talk with
    | .ask (.store (.publish p)) next =>
      (x.feed.act (.publish now p)).map fun feed => { x with feed, talk := next (.ok ()) }
    | _ => none
  | .work clock => match x.talk with
    | .ask call next =>
      (Desk.answer? x.feed.wall 0 clock call).map fun a => { x with talk := next a }
    | .done _ => none

def Fair (plan : WriterSettings) (x : Press s) : Move s → Prop
  | .feed m => x.feed.Fair plan m
  | _ => True

instance (plan : WriterSettings) (x : Press s) : (m : Move s) → Decidable (Fair plan x m)
  | .feed (.tick time) => inferInstanceAs (Decidable (x.feed.wall + time < 2 ^ 64))
  | .feed (.subscribe _ _ _ settings) =>
    inferInstanceAs (Decidable (settings.writes = plan.writes ∧ settings.warmup = plan.warmup))
  | .feed (.submit ..) | .feed (.publish ..) | .feed (.apply _) | .feed .record | .feed .call
  | .feed (.desk ..) | .help _ | .queue _ | .settle | .fail _ | .publish _ | .work _ => isTrue trivial

/-- A writer before its setup, on a structure that nothing has happened to. -/
def fresh (s : Structure) (wall : Nat) (delay : Span) (w : Writer) : Press s :=
  { feed := { wall, delay }, talk := w.work }

end Press

/-! ## Background changes -/

/-- A change that brings no sample, or one that is older than every version. -/
def Harmless (s : Structure) (c : s.Change) : Prop := ∀ p, carried? s c = some p → p.version = 0

/-- No key but the one that is skipped falls on the reserved entry of the table of hardware
addresses, whose entries are drawn. -/
def Channel.Clear (s : Structure) (keys : List Int) : Prop :=
  s = .macTable → ∀ key ∈ keys, key ≠ 0 → key % 2 ^ 48 ≠ 0

theorem clear_drawKeys (s : Structure) (b : Blocks) (d : Draws) : Channel.Clear s (b.drawKeys d).1 := by
  intro _ key hkey hne
  rcases List.mem_append.mp hkey with hdrawn | hpadding
  · obtain ⟨drawn, -, rfl⟩ := List.mem_map.mp hdrawn
    unfold Blocks.keyOf Blocks.maxKey
    omega
  · exact absurd (List.mem_replicate.mp hpadding).2 hne

/-- Keys that the ranks of a group drew are clear of the reserved entry. -/
theorem clear_dense (s : Structure) (b : Blocks) {shares : List (List Int)}
    (h : ∀ share ∈ shares, ∃ (b : Blocks) (d : Draws), share = (b.drawKeys d).1) :
    Channel.Clear s (b.dense shares.flatten) := by
  intro hs key hkey
  obtain ⟨r, -, hkey⟩ := List.mem_flatMap.mp hkey
  obtain ⟨share, hshare, hkey⟩ :=
    List.mem_flatten.mp (List.mem_of_mem_drop (List.mem_of_mem_take hkey))
  obtain ⟨b, d, rfl⟩ := h share hshare
  exact clear_drawKeys s b d hs key hkey

theorem harmless_of_background {s : Structure} {c : s.Change} (h : Background s c) : Harmless s c :=
  fun p hp => by
    rw [carried?_of_background h] at hp
    cases hp

theorem harmless_fill {s : Structure} (c : Channel) (d : Draws) {key : Int}
    (hkey : s = .macTable → key % 2 ^ 48 ≠ 0) :
    ∀ change ∈ (c.fill d key s).changes, Harmless s change := by
  intro change hchange
  cases s with
  | macTable =>
    obtain rfl := List.mem_singleton.mp hchange
    refine harmless_of_background fun (hzero : Mac.ofWord _ = Mac.zero) => hkey rfl ?_
    have hword : (key % 0x10000000000000000).toNat % Nat.pow 2 48 = 0 := congrArg Mac.raw hzero
    rw [show Nat.pow 2 48 = 281474976710656 from rfl] at hword
    omega
  | arpTable | arpMergedMap =>
    obtain rfl := List.mem_singleton.mp hchange
    intro p (hp : (if Address.ofKey key = .unspecified then some ⟨0, 0⟩ else none) = some p)
    rw [← Option.some.inj (Option.ite_none_right_eq_some.mp hp).2]
  | routingTable =>
    obtain rfl := List.mem_singleton.mp hchange
    exact harmless_of_background rfl

theorem harmless_populate {s : Structure} (c : Channel) (d : Draws) {keys : List Int}
    (h : Channel.Clear s keys) :
    ∀ change ∈ (Channel.populate s c d keys).changes, Harmless s change := by
  induction keys generalizing c d with
  | nil => nofun
  | cons key rest ih =>
    have hrest : Channel.Clear s rest := fun hs k hk => h hs k (List.mem_cons_of_mem _ hk)
    unfold Channel.populate
    split
    case isTrue => exact ih c d hrest
    case isFalse hkey =>
      intro change hchange
      rcases List.mem_append.mp hchange with hfirst | hothers
      · exact harmless_fill c d (fun hs => h hs key List.mem_cons_self hkey) change hfirst
      · exact ih _ _ hrest change hothers

theorem harmless_swaps (n : Nat) (c : Channel) (d : Draws) :
    ∀ change ∈ (Channel.swaps n c d).changes, Harmless .routingTable change := by
  induction n generalizing c d with
  | zero => nofun
  | succ n ih =>
    intro change hchange
    rcases List.mem_append.mp hchange with hfirst | hothers
    · rcases List.mem_cons.mp hfirst with rfl | hsecond
      · exact harmless_of_background rfl
      · obtain rfl := List.mem_singleton.mp hsecond
        exact nofun
    · exact ih _ _ change hothers

theorem harmless_churn (s : Structure) (c : Channel) (d : Draws) (operations : Nat) :
    ∀ change ∈ (Channel.churn c d operations s).changes, Harmless s change := by
  cases s with
  | routingTable => exact harmless_swaps _ _ _
  | macTable | arpTable | arpMergedMap => exact nofun

end Lagmeter
