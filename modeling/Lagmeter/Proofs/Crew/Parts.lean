import Lagmeter.Proofs.Crew.Course

/-!
# Parts of a program and their courses

A part that uses its group goes along a course of requests. If its requests give something then so
does the part, and at the first request that fails it ends with an error.
-/

namespace Lagmeter.Collective

variable {α β : Type} {m : Member} {conduct : Conduct}

section

variable (m : Member) (conduct : Conduct) (course : Course)

/-- The part goes along the course, and `P` holds of what comes of it. -/
def Takes (P : Except GroupError α → Prop) (c : Collective α) : Prop :=
  ∀ k, Goes m conduct (fun k' x => x.2 = k' ∧ P x.1) course k (Seat.link (c.start k))

def Gives (P : α → Prop) (c : Collective α) : Prop :=
  c.Takes m conduct course fun x => ∃ a, x = .ok a ∧ P a

def Fails (c : Collective α) : Prop :=
  c.Takes m conduct course fun x => ∃ e, x = .error e

end

theorem gives_pure {P : α → Prop} {a : α} (h : P a) : Gives m conduct [] P (pure a) :=
  fun k => .done k _ ⟨rfl, a, rfl, h⟩

theorem Gives.bind {course course' : Course} {P : α → Prop} {Q : β → Prop} {c : Collective α}
    {f : α → Collective β} (h : Gives m conduct course P c)
    (hf : ∀ a, P a → Gives m conduct course' Q (f a)) :
    Gives m conduct (course ++ course') Q (c >>= f) := by
  intro k
  rw [start_bind, Seat.link_bind]
  refine (h k).bind ?_
  rintro _ ⟨_, _⟩ ⟨rfl, a, rfl, ha⟩
  exact hf a ha _

theorem Gives.cons {item : Item} {course : Course} {P : α → Prop} {Q : β → Prop} {c : Collective α}
    {f : α → Collective β} (h : Gives m conduct [item] P c)
    (hf : ∀ a, P a → Gives m conduct course Q (f a)) :
    Gives m conduct (item :: course) Q (c >>= f) := h.bind hf

theorem Gives.log {course : Course} {Q : β → Prop} {level : Level} {text : String}
    {c : Collective β} (h : Gives m conduct course Q c) :
    Gives m conduct course Q (Collective.log level text >>= fun _ => c) := by
  intro k
  rw [start_bind, Seat.link_bind]
  exact .log _ _ course k (h k)

theorem Fails.bind {course : Course} {c : Collective α} (h : Fails m conduct course c)
    (f : α → Collective β) : Fails m conduct course (c >>= f) := by
  intro k
  rw [start_bind, Seat.link_bind, ← List.append_nil course]
  refine (h k).bind ?_
  rintro k' ⟨_, _⟩ ⟨rfl, e, rfl⟩
  exact .done _ _ ⟨rfl, e, rfl⟩

/-! ## One request -/

/-- The part makes one request, and `f` says what the request gives where the part gives
something. -/
def Renders (m : Member) (q : Request) (f : α → Yield) (c : Collective α) : Prop :=
  ∃ read, Reads m (q.check m) (q.offer m) read c ∧ ∀ reply, q.finish m reply = (read reply).map f

theorem Renders.takes {q : Request} {f : α → Yield} {c : Collective α} (h : Renders m q f c)
    (hq : q.check m = .ok ()) (due : Option Yield) :
    Takes m conduct [.ask ⟨q, due⟩] (fun x => Ask.Met ⟨q, due⟩ (x.map f)) c := by
  obtain ⟨read, hread, hfinish⟩ := h
  intro k
  rw [hread k, hq, Seat.link_bind]
  refine .ask ⟨q, due⟩ _ [] k fun x hx => .done _ _ ⟨rfl, ?_⟩
  cases x with
  | error e => exact hx
  | ok reply =>
    simp only [Except.bind, hfinish] at hx
    exact hx

theorem Renders.gives {q : Request} {f : α → Yield} {c : Collective α} (h : Renders m q f c)
    (hq : q.check m = .ok ()) (hf : Function.Injective f) (a : α) :
    Gives m conduct [.ask ⟨q, some (f a)⟩] (· = a) c := by
  refine fun k => (h.takes hq _ k).mono ?_
  rintro k' ⟨x, _⟩ ⟨rfl, hx⟩
  refine ⟨rfl, ?_⟩
  cases x with
  | error e => cases hx
  | ok b => exact ⟨b, rfl, hf (Except.ok.inj hx)⟩

theorem Renders.fails {q : Request} {f : α → Yield} {c : Collective α} (h : Renders m q f c)
    (hq : q.check m = .ok ()) : Fails m conduct [.ask ⟨q, none⟩] c := by
  refine fun k => (h.takes hq none k).mono ?_
  rintro k' ⟨x, _⟩ ⟨rfl, e, hx⟩
  cases x with
  | error e => exact ⟨rfl, e, rfl⟩
  | ok b => cases hx

/-! ## The operations of a cycle -/

theorem renders_barrier (m : Member) : Renders m .barrier (fun _ => .nothing) (barrier m) :=
  ⟨fun _ => .ok (), (reads_exchange m (.meet m)).bind fun _ _ => rfl, fun _ => rfl⟩

theorem renders_broadcastValue (m : Member) (value : Int64) (source : Nat) :
    Renders m (.broadcastValue value source) .word (broadcastValue m value source) :=
  ⟨_, (reads_broadcast m [value] source).bind (start_first _), fun _ => rfl⟩

theorem renders_reduce (m : Member) (how : Reduction) (value : Int64) (target : Nat) :
    Renders m (.reduce how value target) .word (reduce m how.operation value target) :=
  ⟨_, reads_reduce m how value target, fun _ => rfl⟩

theorem gives_barrier (m : Member) :
    Gives m conduct [.ask ⟨.barrier, some .nothing⟩] (fun _ => True) (barrier m) :=
  fun k => ((renders_barrier m).gives rfl (fun _ _ _ => rfl) () k).mono
    fun _ _ ⟨hk, a, ha, _⟩ => ⟨hk, a, ha, trivial⟩

theorem gives_broadcastValue {source : Nat} (hsource : source < m.size) (value due : Int64) :
    Gives m conduct [.ask ⟨.broadcastValue value source, some (.word due)⟩] (· = due)
      (broadcastValue m value source) :=
  (renders_broadcastValue m value source).gives (if_pos hsource) (fun _ _ => Yield.word.inj) due

theorem gives_gather {target : Nat} (htarget : target < m.size) (values : List Int64)
    (due : Option (List Int64)) :
    Gives m conduct [.ask ⟨.gather values target, some (.gathered due)⟩] (· = due)
      (gather m values target) :=
  Renders.gives ⟨_, reads_gather m values target, fun _ => rfl⟩ (if_pos htarget)
    (fun _ _ => Yield.gathered.inj) due

theorem gives_allGather (values due : List Int64) :
    Gives m conduct [.ask ⟨.allGather values, some (.words due)⟩] (· = due) (allGather m values) :=
  Renders.gives ⟨_, reads_allGather m values, fun _ => rfl⟩ rfl (fun _ _ => Yield.words.inj) due

theorem gives_reduce {target : Nat} (htarget : target < m.size) (how : Reduction)
    (value due : Int64) :
    Gives m conduct [.ask ⟨.reduce how value target, some (.word due)⟩] (· = due)
      (reduce m how.operation value target) :=
  (renders_reduce m how value target).gives (if_pos htarget) (fun _ _ => Yield.word.inj) due

end Lagmeter.Collective
