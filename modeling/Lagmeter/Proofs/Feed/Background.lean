import Lagmeter.Proofs.Feed.Board
import Lagmeter.Proofs.Store.Turnover

/-!
# The background of a routing table

One channel fills and churns a routing table while samples are published on it. The table lags behind
the channel: the edits that are owed turn what it holds into what the channel remembers. Between two
errands nothing is owed. Then the routes that carry no sample are those that the channel remembers.
-/

namespace Lagmeter

open Sample

/-! ## What is owed -/

/-- The edit that an errand made. -/
def Posting.edit? : Posting .routingTable → Option (Structure.Edit Route)
  | sample _ => none
  | background _ e => some e

/-- What a job still has to queue. -/
def Job.left (j : Job .routingTable) : List (Structure.Edit Route) := match j.stage with
  | .queueing left => left
  | .waiting _ | .finished _ => []

namespace Errand

variable {c : Channel}

/-- How many routes an errand adds for good. -/
def growth : Errand → Nat
  | .populate keys => keys.countP (· ≠ 0)
  | .churn _ => 0

theorem length_routes_work (q : Errand) (c : Channel) (d : Draws) :
    (q.work c d .routingTable).channel.routes.length = c.routes.length + q.growth := by
  cases q with
  | populate keys =>
    rw [growth, List.countP_eq_length_filter]
    exact Channel.length_routes_populate c d keys
  | churn operations => exact Channel.length_routes_swaps _ c d

theorem turns_work (q : Errand) (c : Channel) (d : Draws) :
    Channel.Turns (q.work c d .routingTable).changes c.routes (q.work c d .routingTable).channel.routes := by
  cases q with
  | populate keys => exact Channel.turns_populate c d keys
  | churn operations => exact Channel.turns_swaps _ c d

theorem background_populate (hc : c.Clean) (d : Draws) (keys : List Int) :
    (∀ e ∈ (Channel.populate .routingTable c d keys).changes, Background .routingTable e) ∧
      (Channel.populate .routingTable c d keys).channel.Clean := by
  induction keys generalizing c d with
  | nil => exact ⟨nofun, hc⟩
  | cons key rest ih =>
    unfold Channel.populate
    split
    case isTrue => exact ih hc d
    case isFalse =>
      have hclean : (c.fill d key .routingTable).channel.Clean := by
        intro r hr
        rcases List.mem_append.mp hr with hold | hnew
        · exact hc r hold
        · rw [List.mem_singleton.mp hnew]
          rfl
      obtain ⟨hothers, hcleaned⟩ := ih hclean (c.fill d key .routingTable).draws
      refine ⟨fun e he => ?_, hcleaned⟩
      rcases List.mem_append.mp he with hfirst | hothers'
      · rw [List.mem_singleton.mp hfirst]
        rfl
      · exact hothers e hothers'

theorem background_routes (hc : c.Clean) (q : Errand) (d : Draws) :
    (∀ e ∈ (q.work c d .routingTable).changes, Background .routingTable e) ∧
      (q.work c d .routingTable).channel.Clean := by
  cases q with
  | populate keys => exact background_populate hc d keys
  | churn operations => exact Channel.background_swaps hc _ d

end Errand

namespace Board

def routes (x : Board .routingTable) : List Route := x.replica.contents

/-- The routes that carry no sample. -/
def background (x : Board .routingTable) : List Route := x.routes.filter fun r => !r.isDefault

/-- The edits of errands among some postings. -/
def edits (postings : List (Posting .routingTable)) : List (Structure.Edit Route) :=
  postings.filterMap Posting.edit?

/-- What the job that was begun last still has to queue. -/
def left (jobs : List (Job .routingTable)) : List (Structure.Edit Route) :=
  (jobs.getLast?.map Job.left).getD []

/-- The edits that the table has not seen yet. -/
def owed (x : Board .routingTable) : List (Structure.Edit Route) :=
  edits (x.submitted.drop x.applied) ++ left x.jobs

/-- The route that is added to the background next, if that is what is applied next. -/
def added? (x : Board .routingTable) : Option Route := match x.submitted[x.applied]?.bind Posting.edit? with
  | some (.add r) => some r
  | some (.remove _) | none => none

/-- Only channel 0 has errands, and a route is not there yet when it is added to the background. -/
def Novel (x : Board .routingTable) : Move → Prop
  | .begin i _ _ => i = 0
  | .apply _ => ∀ r ∈ x.added?, r ∉ x.routes
  | .queue .. | .flush _ | .reply _ | .publish .. => True

instance (x : Board .routingTable) : (m : Move) → Decidable (x.Novel m)
  | .begin i _ _ => inferInstanceAs (Decidable (i = 0))
  | .apply _ => inferInstanceAs (Decidable (∀ r ∈ x.added?, r ∉ x.routes))
  | .queue .. | .flush _ | .reply _ | .publish .. => isTrue trivial

/-! ## Edits of a set -/

section

variable {routes : List Route} {r : Route}

theorem nodup_edited (h : routes.Nodup) (e : Structure.Edit Route) : (Structure.edited routes e).1.Nodup := by
  cases e with
  | add r =>
    rw [Structure.edited]
    split
    case isTrue => exact h
    case isFalse hfresh =>
      refine h.append (List.nodup_singleton r) fun r' hr' hr => ?_
      exact hfresh (List.mem_singleton.mp hr ▸ hr')
  | remove r =>
    rw [Structure.edited]
    split
    · exact h.filter _
    · exact h

theorem mem_edited_add {r' : Route} :
    r' ∈ (Structure.edited routes (.add r)).1 ↔ r' ∈ routes ∨ r' = r := by
  rw [Structure.edited]
  split
  case isTrue hr =>
    refine ⟨.inl, ?_⟩
    rintro (h | rfl)
    · exact h
    · exact hr
  case isFalse => rw [List.mem_append, List.mem_singleton]

theorem background_add_default (hr : r.isDefault = true) :
    (Structure.edited routes (.add r)).1.filter (fun r => !r.isDefault) =
      routes.filter fun r => !r.isDefault := by
  rw [Structure.edited]
  split
  · rfl
  · simp [hr]

theorem background_add (hr : r.isDefault = false) (hfresh : r ∉ routes) :
    (Structure.edited routes (.add r)).1.filter (fun r => !r.isDefault) =
      (routes.filter fun r => !r.isDefault) ++ [r] := by
  rw [Structure.edited, if_neg hfresh, List.filter_append]
  simp [hr]

theorem background_remove (h : routes.Nodup) (hr : r ∈ routes) :
    (Structure.edited routes (.remove r)).1.filter (fun r => !r.isDefault) =
      (routes.filter fun r => !r.isDefault).erase r := by
  rw [Structure.edited, if_pos hr, (h.filter _).erase_eq_filter, List.filter_filter, List.filter_filter]
  refine List.filter_congr fun r' _ => ?_
  rw [Bool.and_comm]
  by_cases heq : r' = r <;> simp [heq]

end

/-! ## The table -/

variable {x y : Board .routingTable} {m : Move}

/-- The table and what is queued for it. -/
structure Stocked (x : Board .routingTable) : Prop where
  bound : x.applied ≤ x.submitted.length
  queue : x.replica.queue.map Submitted.change = (x.submitted.drop x.applied).map Posting.change
  nodup : x.routes.Nodup
  defaults : ∀ r, r.isDefault = true → (r ∈ x.routes ↔ ∃ p, .sample p ∈ x.arrived ∧ p.toRoute = r)
  sound : ∀ e ∈ edits x.submitted, Background .routingTable e
  left : ∀ e ∈ left x.jobs, Background .routingTable e
  clean : (x.channel 0).Clean

theorem stocked_fresh (delay : Span) (name : String) : Stocked (fresh .routingTable delay name) where
  bound := Nat.le_refl 0
  queue := rfl
  nodup := List.nodup_nil
  defaults _ _ := ⟨nofun, nofun⟩
  sound := nofun
  left := nofun
  clean := nofun

theorem Stocked.exists_next (h : x.Stocked) {c : Submitted .routingTable}
    {rest : List (Submitted .routingTable)} (hqueue : x.replica.queue = c :: rest) :
    ∃ e, x.submitted[x.applied]? = some e ∧ e.change = c.change ∧
      x.submitted.drop x.applied = e :: x.submitted.drop (x.applied + 1) ∧
      rest.map Submitted.change = (x.submitted.drop (x.applied + 1)).map Posting.change := by
  have hmap := h.queue
  rw [hqueue, List.map_cons] at hmap
  obtain ⟨e, later, hdrop, hchange, hlater⟩ := List.map_eq_cons_iff.mp hmap.symm
  have hnext : x.submitted[x.applied]? = some e := by
    rw [← List.head?_drop, hdrop]
    rfl
  have hrest : x.submitted.drop (x.applied + 1) = later := by rw [← List.drop_drop, hdrop]; rfl
  exact ⟨e, hnext, hchange, by rw [hrest, hdrop], by rw [hrest, hlater]⟩

theorem edits_append (postings : List (Posting .routingTable)) (e : Posting .routingTable) :
    edits (postings ++ [e]) = edits postings ++ e.edit?.toList := by
  cases h : e.edit? <;> simp [edits, h]

theorem Stocked.submit (h : x.Stocked) (e : Posting .routingTable) (now : Nat)
    (jobs : List (Job .routingTable)) (he : ∀ c ∈ e.edit?, Background .routingTable c)
    (hleft : ∀ c ∈ Board.left jobs, Background .routingTable c) :
    Stocked { x with
      replica := x.replica.submit now x.delay e.change, submitted := x.submitted ++ [e], jobs } where
  bound := by
    rw [List.length_append]
    exact Nat.le_add_right_of_le h.bound
  queue := by
    show List.map _ (x.replica.queue ++ [_]) = _
    rw [List.map_append, h.queue, List.drop_append_of_le_length h.bound, List.map_append]
    rfl
  nodup := h.nodup
  defaults r hr := by
    have harrived : (x.submitted ++ [e]).take x.applied = x.arrived := List.take_append_of_le_length h.bound
    show r ∈ x.routes ↔ ∃ p, .sample p ∈ (x.submitted ++ [e]).take x.applied ∧ _
    rw [harrived]
    exact h.defaults r hr
  sound c hc := by
    rw [edits_append, List.mem_append, Option.mem_toList] at hc
    exact hc.elim (h.sound c) (he c)
  left := hleft
  clean := h.clean

theorem Stocked.apply (h : x.Stocked) {c : Submitted .routingTable}
    {rest : List (Submitted .routingTable)} (hqueue : x.replica.queue = c :: rest) :
    Stocked { x with
      replica := { x.replica with
        contents := (Structure.routingTable.applied x.replica.contents c.change).1, queue := rest }
      applied := x.applied + 1 } := by
  obtain ⟨e, hnext, hchange, -, hrest⟩ := h.exists_next hqueue
  obtain ⟨hlt, -⟩ := List.getElem?_eq_some_iff.mp hnext
  have harrived : x.submitted.take (x.applied + 1) = x.arrived ++ [e] := by
    rw [List.take_add_one, hnext]
    rfl
  refine ⟨hlt, hrest, nodup_edited h.nodup c.change, fun r hr => ?_, h.sound, h.left, h.clean⟩
  show r ∈ (Structure.edited x.routes c.change).1 ↔ ∃ p, .sample p ∈ x.submitted.take (x.applied + 1) ∧ _
  rw [harrived, ← hchange]
  cases e with
  | sample p =>
    show r ∈ (Structure.edited x.routes (.add p.toRoute)).1 ↔ _
    rw [mem_edited_add, h.defaults r hr]
    simp only [List.mem_append, List.mem_singleton, Posting.sample.injEq, or_and_right, exists_or,
      exists_eq_left]
    rw [eq_comm (a := r)]
  | background k c =>
    have hc : Background .routingTable c := h.sound c
      (List.mem_filterMap.mpr ⟨_, List.mem_of_getElem? hnext, rfl⟩)
    have hfilter := congrArg (r ∈ ·) (filter_edited hc : _ = x.routes.filter Route.isDefault)
    simp only [List.mem_filter, hr, and_true, eq_iff_iff] at hfilter
    refine (hfilter.trans (h.defaults r hr)).trans ?_
    simp

/-! ## The errands -/

section

variable {jobs : List (Job .routingTable)} {k : Nat} {j next : Job .routingTable}

theorem left_concat : left (jobs ++ [j]) = j.left := by simp [left]

theorem left_eq (hjob : jobs[k]? = some j) (hlast : k + 1 = jobs.length) : left jobs = j.left := by
  rw [left, List.getLast?_eq_getElem?, ← hlast, Nat.add_sub_cancel, hjob]
  rfl

theorem left_set (hlast : k + 1 = jobs.length) : left (jobs.set k next) = next.left :=
  left_eq (List.getElem?_set_self (by omega)) (by rw [List.length_set, hlast])

theorem map_errand_set (hjob : jobs[k]? = some j) (herrand : next.errand = j.errand) :
    (jobs.set k next).map Job.errand = jobs.map Job.errand := by
  refine List.ext_getElem? fun i => ?_
  rw [List.getElem?_map, List.getElem?_map]
  rcases eq_or_ne k i with rfl | hne
  · obtain ⟨hlt, -⟩ := List.getElem?_eq_some_iff.mp hjob
    rw [List.getElem?_set_self hlt, hjob, Option.map_some, Option.map_some, herrand]
  · rw [List.getElem?_set_ne hne]

end

/-- The errands come one after the other, and one that has its reply is owed nothing. -/
structure Ordered (jobs : List (Job .routingTable)) (submitted : List (Posting .routingTable))
    (applied : Nat) : Prop where
  channel : ∀ j ∈ jobs, j.channel = 0
  last : ∀ (k : Nat) (j : Job .routingTable), jobs[k]? = some j → j.reply? = none → k + 1 = jobs.length
  waiting : ∀ j ∈ jobs, ∀ mark, j.stage = .waiting mark → edits (submitted.drop mark) = []
  settled : (∀ j ∈ jobs, j.reply?.isSome) → edits (submitted.drop applied) = []
  replies : ∀ j ∈ jobs, ∀ n, j.reply? = some n → n = j.errand.reply .routingTable

section

variable {jobs : List (Job .routingTable)} {submitted : List (Posting .routingTable)} {applied k : Nat}
  {j : Job .routingTable}

theorem Ordered.mem_set (h : Ordered jobs submitted applied) (hjob : jobs[k]? = some j)
    (hopen : j.reply? = none) {next a : Job .routingTable} (ha : a ∈ jobs.set k next) :
    a = next ∨ (a ∈ jobs ∧ a.reply?.isSome) := by
  obtain ⟨i, hi⟩ := List.mem_iff_getElem?.mp ha
  rcases eq_or_ne k i with rfl | hne
  · obtain ⟨hlt, -⟩ := List.getElem?_eq_some_iff.mp hjob
    rw [List.getElem?_set_self hlt] at hi
    exact .inl (Option.some.inj hi).symm
  · rw [List.getElem?_set_ne hne] at hi
    refine .inr ⟨List.mem_of_getElem? hi, ?_⟩
    cases hreply : a.reply? with
    | some n => rfl
    | none =>
      have hk := h.last k j hjob hopen
      have hi := h.last i a hi hreply
      omega

theorem Ordered.setJob (h : Ordered jobs submitted applied) (hjob : jobs[k]? = some j)
    (hopen : j.reply? = none) (next : Job .routingTable) (hchannel : next.channel = j.channel)
    {submitted' : List (Posting .routingTable)}
    (hwaiting : ∀ mark, next.stage = .waiting mark → edits (submitted'.drop mark) = [])
    (hreply : ∀ n, next.reply? = some n →
      edits (submitted'.drop applied) = [] ∧ n = next.errand.reply .routingTable) :
    Ordered (jobs.set k next) submitted' applied where
  channel a ha := by
    rcases h.mem_set hjob hopen ha with rfl | ⟨hold, -⟩
    · exact hchannel.trans (h.channel j (List.mem_of_getElem? hjob))
    · exact h.channel a hold
  last i a hi ha := by
    rw [List.length_set]
    rcases eq_or_ne k i with rfl | hne
    · exact h.last k j hjob hopen
    · rw [List.getElem?_set_ne hne] at hi
      exact h.last i a hi ha
  waiting a ha mark hmark := by
    rcases h.mem_set hjob hopen ha with rfl | ⟨-, hsome⟩
    · exact hwaiting mark hmark
    · simp [Job.reply?, hmark] at hsome
  settled hall := by
    obtain ⟨hlt, -⟩ := List.getElem?_eq_some_iff.mp hjob
    obtain ⟨n, hn⟩ := Option.isSome_iff_exists.mp (hall next (List.mem_set hlt next))
    exact (hreply n hn).1
  replies a ha n hn := by
    rcases h.mem_set hjob hopen ha with rfl | ⟨hold, -⟩
    · exact (hreply n hn).2
    · exact h.replies a hold n hn

theorem edits_drop_succ (h : edits (submitted.drop applied) = []) :
    edits (submitted.drop (applied + 1)) = [] := by
  rw [edits, List.filterMap_eq_nil_iff] at h ⊢
  intro e he
  rw [← List.drop_drop] at he
  exact h e (List.mem_of_mem_drop he)

theorem edits_drop_of_le {mark : Nat} (h : edits (submitted.drop mark) = []) (hle : mark ≤ applied) :
    edits (submitted.drop applied) = [] := by
  induction applied, hle using Nat.le_induction with
  | base => exact h
  | succ n _ ih => exact edits_drop_succ ih

theorem Ordered.apply (h : Ordered jobs submitted applied) : Ordered jobs submitted (applied + 1) :=
  { h with settled := fun hall => edits_drop_succ (h.settled hall) }

theorem edits_drop_append_sample (n : Nat) (p : Sample) :
    edits ((submitted ++ [Posting.sample p]).drop n) = edits (submitted.drop n) := by
  rw [List.drop_append, edits, List.filterMap_append]
  cases n - submitted.length <;> simp [edits, Posting.edit?]

theorem Ordered.publish (h : Ordered jobs submitted applied) (p : Sample) :
    Ordered jobs (submitted ++ [Posting.sample p]) applied :=
  { h with
    waiting := fun j hj mark hmark => (edits_drop_append_sample mark p).trans (h.waiting j hj mark hmark)
    settled := fun hall => (edits_drop_append_sample applied p).trans (h.settled hall) }

theorem Ordered.begin (h : Ordered jobs submitted applied) (hidle : ∀ j ∈ jobs, j.reply?.isSome)
    (q : Errand) (left : List (Structure.Edit Route)) :
    Ordered (jobs ++ [⟨0, q, .queueing left⟩]) submitted applied where
  channel j hj := by
    rcases List.mem_append.mp hj with hold | hnew
    · exact h.channel j hold
    · rw [List.mem_singleton.mp hnew]
  last k j hj hopen := by
    rw [List.length_append, List.length_singleton]
    rcases Nat.lt_or_ge k jobs.length with hk | hk
    · rw [List.getElem?_append_left hk] at hj
      have hsome := hidle j (List.mem_of_getElem? hj)
      rw [hopen] at hsome
      cases hsome
    · obtain ⟨hlt, -⟩ := List.getElem?_eq_some_iff.mp hj
      rw [List.length_append, List.length_singleton] at hlt
      omega
  waiting j hj mark hmark := by
    rcases List.mem_append.mp hj with hold | hnew
    · exact h.waiting j hold mark hmark
    · rw [List.mem_singleton.mp hnew] at hmark
      cases hmark
  settled hall := by
    have hnew := hall ⟨0, q, .queueing left⟩ (List.mem_append_right _ (List.mem_singleton_self _))
    cases hnew
  replies j hj n hn := by
    rcases List.mem_append.mp hj with hold | hnew
    · exact h.replies j hold n hn
    · rw [List.mem_singleton.mp hnew] at hn
      cases hn

end

/-! ## Both together -/

/-- The table comes to what the channel remembers. -/
structure Tended (x : Board .routingTable) : Prop where
  stocked : x.Stocked
  ordered : Ordered x.jobs x.submitted x.applied
  turns : Channel.Turns x.owed x.background (x.channel 0).routes
  growth : (x.channel 0).routes.length = ((x.jobs.map Job.errand).map Errand.growth).sum

theorem tended_fresh (delay : Span) (name : String) : Tended (fresh .routingTable delay name) where
  stocked := stocked_fresh delay name
  ordered := ⟨nofun, nofun, nofun, fun _ => rfl, nofun⟩
  turns := rfl
  growth := rfl

theorem left_eq_nil (hidle : ∀ j ∈ x.jobs, j.reply?.isSome) : left x.jobs = [] := by
  unfold left
  cases hlast : x.jobs.getLast? with
  | none => rfl
  | some j =>
    have hsome := hidle j (List.mem_of_getLast? hlast)
    obtain ⟨i, q, stage⟩ := j
    cases stage with
    | finished n => rfl
    | queueing | waiting => cases hsome

theorem Tended.owed_eq_nil (h : x.Tended) (hidle : ∀ j ∈ x.jobs, j.reply?.isSome) : x.owed = [] := by
  rw [owed, h.ordered.settled hidle, left_eq_nil hidle]
  rfl

theorem Tended.begin (h : x.Tended) (hidle : ∀ j ∈ x.jobs, j.reply?.isSome) (q : Errand) (draws : Draws) :
    Tended { x with
      channel := Function.update x.channel 0 (q.work (x.channel 0) draws .routingTable).channel
      jobs := x.jobs ++ [⟨0, q, .queueing (q.work (x.channel 0) draws .routingTable).changes⟩] } := by
  obtain ⟨hchanges, hclean⟩ := Errand.background_routes h.stocked.clean q draws
  have hturns := h.turns
  rw [h.owed_eq_nil hidle] at hturns
  have hbefore : (x.background : Multiset Route) = (x.channel 0).routes := hturns
  refine ⟨{ h.stocked with left := ?_, clean := ?_ }, h.ordered.begin hidle q _, ?_, ?_⟩
  · rw [left_concat]
    exact hchanges
  · simp only [Function.update_self]
    exact hclean
  · simp only [owed, h.ordered.settled hidle, left_concat, Function.update_self]
    show Channel.Turns _ (x.background : Multiset Route) _
    rw [hbefore]
    exact q.turns_work (x.channel 0) draws
  · simp only [Function.update_self]
    rw [Errand.length_routes_work, h.growth]
    simp

theorem Tended.setJob (h : x.Tended) {k : Nat} {j : Job .routingTable} (hjob : x.jobs[k]? = some j)
    (hopen : j.reply? = none) (next : Job .routingTable) (hchannel : next.channel = j.channel)
    (herrand : next.errand = j.errand)
    (hleft : next.left = j.left)
    (hwaiting : ∀ mark, next.stage = .waiting mark → edits (x.submitted.drop mark) = [])
    (hreply : ∀ n, next.reply? = some n →
      edits (x.submitted.drop x.applied) = [] ∧ n = next.errand.reply .routingTable) :
    Tended { x with jobs := x.jobs.set k next } := by
  have hlast := h.ordered.last k j hjob hopen
  have hsame : left (x.jobs.set k next) = left x.jobs := by rw [left_set hlast, hleft, left_eq hjob hlast]
  refine ⟨{ h.stocked with left := ?_ }, h.ordered.setJob hjob hopen next hchannel hwaiting hreply, ?_, ?_⟩
  · rw [hsame]
    exact h.stocked.left
  · rw [owed, hsame]
    exact h.turns
  · rw [map_errand_set hjob herrand]
    exact h.growth

theorem Tended.queue (h : x.Tended) {k i : Nat} (now : Nat) {q : Errand}
    {c : Structure.Change .routingTable} {more : List (Structure.Change .routingTable)}
    (hjob : x.jobs[k]? = some ⟨i, q, .queueing (c :: more)⟩) :
    Tended { x with
      replica := x.replica.submit now x.delay c
      submitted := x.submitted ++ [.background k c]
      jobs := x.jobs.set k ⟨i, q, .queueing more⟩ } := by
  have hlast := h.ordered.last k _ hjob rfl
  have hsound := h.stocked.left
  rw [left_eq hjob hlast] at hsound
  have hordered : Ordered (x.jobs.set k ⟨i, q, .queueing more⟩) (x.submitted ++ [.background k c]) x.applied :=
    h.ordered.setJob hjob rfl ⟨i, q, .queueing more⟩ rfl nofun nofun
  refine ⟨h.stocked.submit (.background k c) now _ ?_ ?_, hordered, ?_, ?_⟩
  · rintro c' ⟨⟩
    exact hsound c List.mem_cons_self
  · rw [left_set hlast]
    exact fun c' hc' => hsound c' (List.mem_cons_of_mem c hc')
  · have howed : x.owed = edits ((x.submitted ++ [Posting.background k c]).drop x.applied) ++
        left (x.jobs.set k ⟨i, q, .queueing more⟩) := by
      rw [owed, left_eq hjob hlast, left_set hlast, List.drop_append_of_le_length h.stocked.bound,
        edits_append, List.append_assoc]
      rfl
    have hturns := h.turns
    rw [howed] at hturns
    exact hturns
  · have herrands : (x.jobs.set k ⟨i, q, .queueing more⟩).map Job.errand = x.jobs.map Job.errand :=
      map_errand_set hjob rfl
    exact herrands ▸ h.growth

theorem Tended.publish (h : x.Tended) (now : Nat) (p : Sample) : Tended { x with
    replica := x.replica.submit now x.delay (p.publication .routingTable)
    submitted := x.submitted ++ [.sample p] } := by
  refine ⟨h.stocked.submit (.sample p) now x.jobs nofun h.stocked.left, h.ordered.publish p, ?_, h.growth⟩
  rw [owed, edits_drop_append_sample]
  exact h.turns

theorem Tended.apply (h : x.Tended) {c : Submitted .routingTable}
    {rest : List (Submitted .routingTable)} (hqueue : x.replica.queue = c :: rest)
    (hnovel : ∀ r ∈ x.added?, r ∉ x.routes) :
    Tended { x with
      replica := { x.replica with
        contents := (Structure.routingTable.applied x.replica.contents c.change).1, queue := rest }
      applied := x.applied + 1 } := by
  refine ⟨h.stocked.apply hqueue, h.ordered.apply, ?_, h.growth⟩
  obtain ⟨e, hnext, hchange, hdrop, -⟩ := h.stocked.exists_next hqueue
  have hturns := h.turns
  rw [owed, hdrop] at hturns
  show Channel.Turns (edits (x.submitted.drop (x.applied + 1)) ++ left x.jobs)
    ((Structure.edited x.routes c.change).1.filter fun r => !r.isDefault : List Route) _
  rw [← hchange]
  cases e with
  | sample p =>
    have hbackground : (Structure.edited x.routes (.add p.toRoute)).1.filter (fun r => !r.isDefault) =
        x.background := background_add_default rfl
    exact hbackground ▸ hturns
  | background k edit =>
    have hsound : Background .routingTable edit := h.stocked.sound edit
      (List.mem_filterMap.mpr ⟨_, List.mem_of_getElem? hnext, rfl⟩)
    cases edit with
    | add r =>
      have hfresh := hnovel r (by rw [added?, hnext]; rfl)
      show Channel.Turns _ ((Structure.edited x.routes (.add r)).1.filter fun r => !r.isDefault : List Route) _
      rw [background_add hsound hfresh, Channel.coe_concat]
      exact hturns
    | remove r =>
      obtain ⟨hmem, hturns⟩ : r ∈ (x.background : Multiset Route) ∧ _ := hturns
      have hthere : r ∈ x.routes := (List.mem_filter.mp (Multiset.mem_coe.mp hmem)).1
      show Channel.Turns _ ((Structure.edited x.routes (.remove r)).1.filter fun r => !r.isDefault : List Route) _
      rw [background_remove h.stocked.nodup hthere, ← Multiset.coe_erase]
      exact hturns

theorem edits_drop_length (submitted : List (Posting .routingTable)) :
    edits (submitted.drop submitted.length) = [] := by
  rw [List.drop_length]
  rfl

theorem not_engaged_of_begin {i : Nat} {q : Errand} {draws : Draws} (h : x.act (.begin i q draws) = some y) :
    x.engaged i = false := by
  simp only [act] at h
  split at h
  case isTrue => cases h
  case isFalse hengaged => exact Bool.not_eq_true _ ▸ hengaged

theorem Tended.idle_of_not_engaged (h : x.Tended) (hengaged : x.engaged 0 = false) :
    ∀ j ∈ x.jobs, j.reply?.isSome := by
  intro j hj
  have hjob := List.any_eq_false.mp ((Bool.and_eq_false_iff.mp hengaged).resolve_left (by decide)) j hj
  simp only [h.ordered.channel j hj, decide_true, Bool.true_and, Bool.not_eq_true, Option.isNone_eq_false_iff]
    at hjob
  exact hjob

theorem Tended.act (h : x.Tended) (hm : x.Novel m) (hact : x.act m = some y) : y.Tended := by
  have hturn := turn_of_act hact
  cases hturn with
  | begin i q draws =>
    obtain rfl : i = 0 := hm
    exact h.begin (h.idle_of_not_engaged (not_engaged_of_begin hact)) q draws
  | queue k now i q c left hjob => exact h.queue now hjob
  | flush k i q hjob =>
    have hmark : q.mark .routingTable x.submitted.length = x.submitted.length := by cases q <;> rfl
    refine h.setJob hjob rfl ⟨i, q, .waiting _⟩ rfl rfl rfl (fun mark hwaiting => ?_) nofun
    cases hwaiting
    rw [hmark, edits_drop_length]
  | reply k i mark q hjob hmark =>
    have hsettled := h.ordered.waiting _ (List.mem_of_getElem? hjob) mark rfl
    refine h.setJob hjob rfl ⟨i, q, .finished _⟩ rfl rfl rfl nofun fun n hn => ?_
    cases hn
    exact ⟨edits_drop_of_le hsettled hmark, rfl⟩
  | publish now p => exact h.publish now p
  | apply now c rest hqueue => exact h.apply hqueue hm

theorem tended_of_lead {delay : Span} {name : String}
    (hx : Moves.Lead act Novel (fresh .routingTable delay name) x) : x.Tended := by
  induction hx with
  | refl => exact tended_fresh delay name
  | tail _ hstep ih =>
    obtain ⟨m, hm, hact⟩ := hstep
    exact ih.act hm hact

/-! ## Between two errands -/

/-- What the errands of one channel leave in a routing table. -/
structure Balanced (x : Board .routingTable) : Prop where
  /-- An errand comes to its reply alone. -/
  returned : ∀ k y, x.act (.reply k) = some y → ∀ j ∈ y.jobs, j.reply?.isSome
  /-- When all errands have their replies, the channel remembers the routes that carry no sample. -/
  settled : (∀ j ∈ x.jobs, j.reply?.isSome) → x.background.Perm (x.channel 0).routes ∧
    x.background.Nodup ∧ (x.channel 0).routes.Nodup ∧
      x.background.length = ((x.jobs.map Job.errand).map Errand.growth).sum
  filled : ∀ j ∈ x.jobs, ∀ keys n, j.errand = .populate keys → j.reply? = some n →
    n = keys.countP (· ≠ 0)
  churned : ∀ j ∈ x.jobs, ∀ operations n, j.errand = .churn operations → j.reply? = some n →
    n = operations - operations % 2
  /-- A churn leaves the channel with as many routes as it had. -/
  steady : ∀ i operations draws y, x.act (.begin i (.churn operations) draws) = some y →
    (y.channel i).routes.length = (x.channel i).routes.length
  /-- A churn that makes one operation after the other always has a route to draw. -/
  drawn : ∀ (c : Channel) (draws : Draws) (operations : Nat), Channel.churnLoop? c draws operations =
    some ((Errand.churn operations).work c draws .routingTable)
  /-- The samples in the table are those that were published. -/
  samples : ∀ r, r.isDefault = true → (r ∈ x.routes ↔ ∃ p, .sample p ∈ x.arrived ∧ p.toRoute = r)
  /-- An edit of an errand leaves all samples in their places. -/
  untouched : ∀ now y, x.act (.apply now) = some y →
    (x.submitted[x.applied]?.bind Posting.edit?).isSome →
      y.routes.filter Route.isDefault = x.routes.filter Route.isDefault

theorem Tended.returned (h : x.Tended) {k : Nat} (hact : x.act (.reply k) = some y) :
    ∀ j ∈ y.jobs, j.reply?.isSome := by
  cases turn_of_act hact with
  | reply k i mark q hjob hmark =>
    intro j hj
    rcases h.ordered.mem_set hjob rfl hj with rfl | ⟨-, hsome⟩
    · rfl
    · exact hsome

theorem length_routes_of_churn {i operations : Nat} {draws : Draws}
    (hact : x.act (.begin i (.churn operations) draws) = some y) :
    (y.channel i).routes.length = (x.channel i).routes.length := by
  cases turn_of_act hact with
  | begin i q draws =>
    simp only [Function.update_self]
    exact Errand.length_routes_work _ _ _

theorem Tended.perm (h : x.Tended) (hidle : ∀ j ∈ x.jobs, j.reply?.isSome) :
    x.background.Perm (x.channel 0).routes := by
  have hturns := h.turns
  rw [h.owed_eq_nil hidle] at hturns
  exact Multiset.coe_eq_coe.mp hturns

theorem Tended.untouched (h : x.Tended) {now : Nat} (hact : x.act (.apply now) = some y)
    (hedit : (x.submitted[x.applied]?.bind Posting.edit?).isSome) :
    y.routes.filter Route.isDefault = x.routes.filter Route.isDefault := by
  cases turn_of_act hact with
  | apply now c rest hqueue =>
    obtain ⟨e, hnext, hchange, -, -⟩ := h.stocked.exists_next hqueue
    show (Structure.edited x.routes c.change).1.filter Route.isDefault = _
    rw [← hchange]
    rw [hnext] at hedit
    cases e with
    | sample p => cases hedit
    | background k edit =>
      exact filter_edited (h.stocked.sound edit (List.mem_filterMap.mpr ⟨_, List.mem_of_getElem? hnext, rfl⟩))

/-- The table and the channel agree whenever an errand has come to its reply. -/
theorem balanced {delay : Span} {name : String}
    (hx : Moves.Lead act Novel (fresh .routingTable delay name) x) : x.Balanced := by
  have h := tended_of_lead hx
  refine ⟨fun k y hact => h.returned hact, fun hidle => ?_, fun j hj keys n herrand hn => ?_,
    fun j hj operations n herrand hn => ?_, fun i operations draws y hact => length_routes_of_churn hact,
    Channel.churnLoop?_eq, h.stocked.defaults, fun now y hact hedit => h.untouched hact hedit⟩
  · have hperm := h.perm hidle
    have hnodup : x.background.Nodup := h.stocked.nodup.filter _
    exact ⟨hperm, hnodup, hperm.nodup_iff.mp hnodup, hperm.length_eq.trans h.growth⟩
  · rw [h.ordered.replies j hj n hn, herrand, List.countP_eq_length_filter]
    rfl
  · rw [h.ordered.replies j hj n hn, herrand]
    rfl

/-- Three routes are filled in, with a sample in between. Then two of three operations of a churn are
made. -/
def changeOver : List Move :=
  [.begin 0 (.populate [21, 22, 0, 23]) (.ofSeed 1), .queue 0 0, .publish 0 ⟨1, 7⟩, .queue 0 0, .apply 0,
    .queue 0 0, .flush 0, .apply 0, .apply 0, .apply 0, .reply 0, .begin 0 (.churn 3) (.ofSeed 2),
    .queue 1 0, .queue 1 0, .apply 0, .flush 1, .apply 0, .reply 1]

theorem balanced_changeOver : ∃ x : Board .routingTable,
    Moves.Lead act Novel (fresh .routingTable ⟨0⟩ "routes") x ∧ x.Balanced ∧
      x.jobs.map Job.reply? = [some 3, some 2] ∧ x.background.length = 3 ∧ x.routes.length = 4 := by
  have hplayed : ((Moves.play? act Novel (fresh .routingTable ⟨0⟩ "routes") changeOver).any fun x =>
      decide (x.jobs.map Job.reply? = [some 3, some 2] ∧ x.background.length = 3 ∧ x.routes.length = 4)) =
        true := by
    decide +kernel
  obtain ⟨x, hplay, hfacts⟩ := (Option.any_eq_true ..).mp hplayed
  have hlead := Moves.lead_of_play hplay
  exact ⟨x, hlead, balanced hlead, of_decide_eq_true hfacts⟩

end Board

end Lagmeter
