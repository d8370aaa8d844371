import Lagmeter.Proofs.Feed.Desk

/-!
# Moves of a feed

What one move on a feed can do. As for desks, `Turn` lists the moves, and the invariants of feeds
follow from it.
-/

namespace Lagmeter

namespace Feed

variable {s : Structure}

/-- What a move does to a feed. -/
inductive Turn (f : Feed s) : Move s → Feed s → Prop where
  | tick (time : Nat) : Turn f (.tick time) { f with wall := f.wall + time }
  | subscribe (i map : Nat) (name : String) (settings : ReaderSettings)
      (habsent : (f.desk i).stage = .absent) :
    Turn f (.subscribe i map name settings)
      ({ f with replica := (f.replica.listen i).2 }.setDesk i
        { stage := .subscribed, reader := .new map name settings (f.replica.listen i).1 })
  | submit (now : Nat) (c : s.Change) :
    Turn f (.submit now c) { f with replica := f.replica.submit now f.delay c }
  | publish (now : Nat) (p : Sample) :
    Turn f (.publish now p) { f with
      replica := f.replica.submit now f.delay (p.publication s), published := f.published ++ [p] }
  | apply (now : Nat) (c : Submitted s) (rest : List (Submitted s)) (hduty : f.duty = {})
      (hqueue : f.replica.queue = c :: rest) :
    Turn f (.apply now) { f with
      replica := { f.replica with contents := (s.applied f.replica.contents c.change).1, queue := rest }
      applied := f.applied ++ [c.change]
      duty := ⟨if (s.applied f.replica.contents c.change).2 then f.replica.audience else [], none⟩ }
  | record (i : Nat) (left : List Nat) (hduty : f.duty = ⟨i :: left, none⟩) :
    Turn f .record
      ({ f with duty := ⟨left, some i⟩ }.setDesk i (onLatch (f.desk i) Latch.record))
  | call (i : Nat) (left : List Nat) (hduty : f.duty = ⟨left, some i⟩) :
    Turn f .call ({ f with duty := ⟨left, none⟩ }.setDesk i (onLatch (f.desk i) Latch.call))
  | desk (i : Nat) (m : Desk.Move) (k : Desk) (hk : (f.desk i).Turn f.wall f.latest m k) :
    Turn f (.desk i m) (f.setDesk i k)

variable {f f' : Feed s} {m : Move s}

theorem turn_of_act (h : f.act m = some f') : f.Turn m f' := by
  cases m with
  | tick time =>
    cases h
    exact .tick time
  | submit now c =>
    cases h
    exact .submit now c
  | publish now p =>
    cases h
    exact .publish now p
  | subscribe i map name settings =>
    simp only [act] at h
    split at h
    case isTrue habsent =>
      cases h
      exact .subscribe i map name settings habsent
    case isFalse => cases h
  | apply now =>
    simp only [act] at h
    split at h
    case h_1 c rest hduty hqueue =>
      have hturn := Turn.apply now c rest hduty hqueue
      unfold Replica.advance? at h
      rw [hqueue] at h
      by_cases hdue : c.due ≤ now
      · simp only [if_pos hdue, Option.map_some, Option.some.injEq] at h
        exact h ▸ hturn
      · simp only [if_neg hdue, Option.map_none] at h
        cases h
    case h_2 => cases h
  | record =>
    simp only [act] at h
    split at h
    case h_1 i left hduty =>
      cases h
      exact .record i left hduty
    case h_2 => cases h
  | call =>
    simp only [act] at h
    split at h
    case h_1 left i hduty =>
      cases h
      exact .call i left hduty
    case h_2 => cases h
  | desk i m =>
    obtain ⟨k, hk, rfl⟩ := Option.map_eq_some_iff.mp h
    exact .desk i m k (Desk.turn_of_act hk)

/-! ## Desks -/

@[simp]
theorem desk_setDesk_self (f : Feed s) (i : Nat) (k : Desk) : (f.setDesk i k).desk i = k :=
  Function.update_self ..

theorem desk_setDesk_of_ne {i j : Nat} (h : i ≠ j) (f : Feed s) (k : Desk) :
    (f.setDesk j k).desk i = f.desk i :=
  Function.update_of_ne h ..

end Feed

end Lagmeter
