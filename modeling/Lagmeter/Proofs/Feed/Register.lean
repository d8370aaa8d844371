import Lagmeter.Proofs.Feed.Board
import Lagmeter.Proofs.Feed.Notification
import Mathlib.Data.List.Basic
import Mathlib.Data.Prod.Lex

/-!
# A structure as a register

Where samples of rising versions are published, a structure of any kind is a register: what is read
is the sample that was applied last, whatever fills and churns the structure meanwhile. An errand
gets its reply when all its changes are applied, and the reply is how many they are.
-/

namespace Lagmeter

open Sample

/-! ## What is read -/

namespace Feed.Flow

variable {s : Structure} {published : List Sample} {applied queue : List s.Change}
  {contents : s.Contents}

theorem latest?_eq_getLast? (h : Flow published applied queue contents) :
    latest? s contents = (carried applied).getLast? := by
  cases hlast : (carried applied).getLast? with
  | none =>
    rw [List.getLast?_eq_none_iff] at hlast
    cases hread : latest? s contents with
    | none => rfl
    | some q =>
      have hq := h.held q (held_of_latest hread)
      rw [hlast] at hq
      cases hq
  | some p =>
    obtain ⟨before, hbefore⟩ := List.getLast?_eq_some_iff.mp hlast
    have hp : p ∈ carried applied := List.mem_of_getLast? hlast
    obtain ⟨q, hread, hle⟩ := h.newest p hp
    have hq := h.held q (held_of_latest hread)
    rw [hread]
    rw [hbefore] at hq
    rcases List.mem_append.mp hq with hold | hnew
    · -- A sample before the last one is of a lower version.
      have hrising := h.rising
      rw [h.order, hbefore] at hrising
      have hlt := (List.pairwise_append.mp (List.pairwise_append.mp hrising).1).2.2 q hold p
        (List.mem_singleton_self p)
      omega
    · rw [List.mem_singleton.mp hnew]

end Feed.Flow

/-! ## Postings -/

namespace Posting

variable {s : Structure}

/-- A sample fits, and the rest is background. -/
def Sound : Posting s → Prop
  | sample p => p.Fits
  | background _ c => Background s c

theorem isOf_background (k : Nat) (c : s.Change) : (background k c).isOf k = true := decide_eq_true rfl

theorem carried?_change {e : Posting s} (h : e.Sound) : carried? s e.change = e.sample? := by
  cases e with
  | sample p => exact carried?_publication h s
  | background k c => exact carried?_of_background h

theorem carried_change {postings : List (Posting s)} (h : ∀ e ∈ postings, e.Sound) :
    Feed.carried (postings.map change) = postings.filterMap sample? := by
  rw [Feed.carried, List.filterMap_map]
  exact List.filterMap_congr fun e he => carried?_change (h e he)

end Posting

/-! ## Jobs -/

namespace Job

variable {s : Structure} {j : Job s} {submitted : List (Posting s)} {applied k : Nat} {e : Posting s}

/-- The changes of job `k` are those that it has queued and those that it still has to queue. -/
def Sound (submitted : List (Posting s)) (applied k : Nat) (j : Job s) : Prop :=
  match j.stage with
  | .queueing left =>
    submitted.countP (Posting.isOf k) + left.length = j.errand.reply s ∧ ∀ c ∈ left, Background s c
  | .waiting mark => submitted.countP (Posting.isOf k) = j.errand.reply s ∧ mark ≤ submitted.length ∧
      (submitted.take mark).countP (Posting.isOf k) = j.errand.reply s
  | .finished n => n = j.errand.reply s ∧ submitted.countP (Posting.isOf k) = n ∧
      (submitted.take applied).countP (Posting.isOf k) = n

theorem countP_append_other (h : e.isOf k = false) :
    (submitted ++ [e]).countP (Posting.isOf k) = submitted.countP (Posting.isOf k) := by
  rw [List.countP_append, List.countP_singleton, h, if_neg Bool.false_ne_true, Nat.add_zero]

theorem take_append_of_le {n : Nat} (h : n ≤ submitted.length) (e : Posting s) :
    (submitted ++ [e]).take n = submitted.take n := List.take_append_of_le_length h

theorem Sound.append (h : j.Sound submitted applied k) (hbound : applied ≤ submitted.length)
    (he : e.isOf k = false) : j.Sound (submitted ++ [e]) applied k := by
  unfold Sound at *
  rw [countP_append_other he]
  cases hstage : j.stage with
  | queueing left =>
    rw [hstage] at h
    exact h
  | waiting mark =>
    rw [hstage] at h
    obtain ⟨hcount, hmark, htake⟩ := h
    refine ⟨hcount, ?_, ?_⟩
    · rw [List.length_append]
      exact Nat.le_add_right_of_le hmark
    · rw [take_append_of_le hmark, htake]
  | finished n =>
    rw [hstage] at h
    obtain ⟨hreply, hcount, htake⟩ := h
    exact ⟨hreply, hcount, by rw [take_append_of_le hbound, htake]⟩

theorem countP_take_of_le {n m count : Nat} (hle : n ≤ m)
    (hall : submitted.countP (Posting.isOf k) = count)
    (hpart : (submitted.take n).countP (Posting.isOf k) = count) :
    (submitted.take m).countP (Posting.isOf k) = count := by
  have hlow := ((List.take_prefix_take_left (l := submitted) hle).sublist).countP_le
    (p := Posting.isOf k)
  have hhigh := ((List.take_prefix m submitted).sublist).countP_le (p := Posting.isOf k)
  omega

theorem Sound.apply (h : j.Sound submitted applied k) : j.Sound submitted (applied + 1) k := by
  unfold Sound at *
  cases hstage : j.stage with
  | queueing left | waiting mark =>
    rw [hstage] at h
    exact h
  | finished n =>
    rw [hstage] at h
    obtain ⟨hreply, hcount, htake⟩ := h
    exact ⟨hreply, hcount, countP_take_of_le (Nat.le_succ applied) hcount htake⟩

theorem Sound.of_reply (h : j.Sound submitted applied k) {n : Nat} (hn : j.reply? = some n) :
    n = j.errand.reply s ∧ (submitted.take applied).countP (Posting.isOf k) = n := by
  unfold Sound at h
  unfold reply? at hn
  cases hstage : j.stage with
  | queueing left | waiting mark =>
    rw [hstage] at hn
    cases hn
  | finished n' =>
    rw [hstage] at h hn
    cases hn
    exact ⟨h.1, h.2.2⟩

/-- How far a job is from its reply: changes to be queued, then changes to be applied. -/
def rest (applied : Nat) (j : Job s) : Nat ×ₗ Nat :=
  match j.stage with
  | .queueing left => toLex (left.length + 1, 0)
  | .waiting mark => toLex (0, mark - applied + 1)
  | .finished _ => toLex (0, 0)

theorem rest_apply_le (j : Job s) (applied : Nat) : j.rest (applied + 1) ≤ j.rest applied := by
  unfold rest
  cases j.stage with
  | queueing left | finished n => exact le_refl _
  | waiting mark =>
    refine Prod.Lex.toLex_le_toLex.mpr (.inr ⟨rfl, ?_⟩)
    show mark - (applied + 1) + 1 ≤ mark - applied + 1
    omega

end Job

/-! ## What a board keeps -/

namespace Board

variable {s : Structure} {x y : Board s} {m : Move}

structure Kept (x : Board s) : Prop where
  bound : x.applied ≤ x.submitted.length
  queue : x.replica.queue.map Submitted.change = (x.submitted.drop x.applied).map Posting.change
  sound : ∀ e ∈ x.submitted, e.Sound
  flow : Feed.Flow (x.submitted.filterMap Posting.sample?) (x.arrived.map Posting.change)
    (x.replica.queue.map Submitted.change) x.replica.contents
  clean : ∀ i, (x.channel i).Clean
  numbered : ∀ e ∈ x.submitted, ∀ k, e.isOf k = true → k < x.jobs.length
  jobs : ∀ (k : Nat) (j : Job s), x.jobs[k]? = some j → j.Sound x.submitted x.applied k

theorem kept_fresh (s : Structure) (delay : Span) (name : String) : Kept (fresh s delay name) where
  bound := Nat.le_refl 0
  queue := rfl
  sound := nofun
  flow := Feed.Flow.start s
  clean _ := nofun
  numbered := nofun
  jobs k j h := by cases h

theorem Kept.isOf_length (h : x.Kept) {e : Posting s} (he : e ∈ x.submitted) :
    e.isOf x.jobs.length = false := by
  cases hof : e.isOf x.jobs.length with
  | false => rfl
  | true => exact absurd (h.numbered e he _ hof) (Nat.lt_irrefl _)

theorem Kept.submit (h : x.Kept) {e : Posting s} (now : Nat) (jobs : List (Job s)) (he : e.Sound)
    (hflow : Feed.Flow ((x.submitted ++ [e]).filterMap Posting.sample?) (x.arrived.map Posting.change)
      (x.replica.queue.map Submitted.change ++ [e.change]) x.replica.contents)
    (hlength : jobs.length = x.jobs.length) (hnumber : ∀ k, e.isOf k = true → k < x.jobs.length)
    (hjobs : ∀ (k : Nat) (j : Job s), jobs[k]? = some j → j.Sound (x.submitted ++ [e]) x.applied k) :
    Kept { x with
      replica := x.replica.submit now x.delay e.change, submitted := x.submitted ++ [e], jobs } where
  bound := by
    rw [List.length_append]
    exact Nat.le_add_right_of_le h.bound
  queue := by
    show List.map _ (x.replica.queue ++ [_]) = _
    rw [List.map_append, h.queue, List.drop_append_of_le_length h.bound, List.map_append]
    rfl
  sound e' he' := by
    rcases List.mem_append.mp he' with hold | hnew
    · exact h.sound e' hold
    · exact List.mem_singleton.mp hnew ▸ he
  flow := by
    show Feed.Flow _ (((x.submitted ++ [e]).take x.applied).map _) ((x.replica.queue ++ [_]).map _) _
    rw [List.map_append, List.take_append_of_le_length h.bound]
    exact hflow
  clean := h.clean
  numbered e' he' k hof := by
    show k < jobs.length
    rw [hlength]
    rcases List.mem_append.mp he' with hold | hnew
    · exact h.numbered e' hold k hof
    · exact hnumber k (List.mem_singleton.mp hnew ▸ hof)
  jobs := hjobs

theorem Kept.begin (h : x.Kept) (i : Nat) (q : Errand) (draws : Draws) (hq : q.Fits) :
    Kept { x with
      channel := Function.update x.channel i (q.work (x.channel i) draws s).channel
      jobs := x.jobs ++ [⟨i, q, .queueing (q.work (x.channel i) draws s).changes⟩] } := by
  obtain ⟨hchanges, hclean⟩ := Errand.background_work (s := s) (h.clean i) draws hq
  refine ⟨h.bound, h.queue, h.sound, h.flow, fun i' => ?_, fun e he k hof => ?_, fun k j hj => ?_⟩
  · show Channel.Clean (Function.update x.channel i _ i')
    by_cases hi : i' = i
    · rw [hi, Function.update_self]
      exact hclean
    · rw [Function.update_of_ne hi]
      exact h.clean i'
  · show k < (x.jobs ++ [_]).length
    rw [List.length_append]
    exact Nat.lt_add_right _ (h.numbered e he k hof)
  · rcases Nat.lt_or_ge k x.jobs.length with hk | hk
    · rw [List.getElem?_append_left hk] at hj
      exact h.jobs k j hj
    · obtain ⟨hlt, -⟩ := List.getElem?_eq_some_iff.mp hj
      rw [List.length_append, List.length_singleton] at hlt
      obtain rfl : k = x.jobs.length := by omega
      rw [List.getElem?_concat_length] at hj
      cases hj
      -- Nothing of a new job has been submitted.
      have hnone : x.submitted.countP (Posting.isOf x.jobs.length) = 0 :=
        List.countP_eq_zero.mpr fun e he => by simp [h.isOf_length he]
      exact ⟨by rw [hnone, Nat.zero_add]; exact q.length_changes _ _, hchanges⟩

theorem Kept.setJob (h : x.Kept) {k : Nat} {j : Job s} (hj : j.Sound x.submitted x.applied k) :
    Kept { x with jobs := x.jobs.set k j } := by
  refine ⟨h.bound, h.queue, h.sound, h.flow, h.clean, fun e he k' hof => ?_, fun k' j' hj' => ?_⟩
  · show k' < (x.jobs.set k j).length
    rw [List.length_set]
    exact h.numbered e he k' hof
  · rcases eq_or_ne k k' with rfl | hk
    · obtain ⟨hlt, hget⟩ := List.getElem?_eq_some_iff.mp hj'
      rw [List.getElem_set_self] at hget
      exact hget ▸ hj
    · rw [List.getElem?_set_ne hk] at hj'
      exact h.jobs k' j' hj'

theorem Kept.queue_job (h : x.Kept) {k i : Nat} (now : Nat) {q : Errand} {c : s.Change}
    {left : List s.Change} (hjob : x.jobs[k]? = some ⟨i, q, .queueing (c :: left)⟩) :
    Kept { x with
      replica := x.replica.submit now x.delay c
      submitted := x.submitted ++ [.background k c]
      jobs := x.jobs.set k ⟨i, q, .queueing left⟩ } := by
  obtain ⟨hcount, hbackground⟩ := h.jobs k _ hjob
  have hc : Background s c := hbackground c List.mem_cons_self
  obtain ⟨hk, -⟩ := List.getElem?_eq_some_iff.mp hjob
  refine h.submit (e := .background k c) now _ hc ?_ List.length_set (fun k' hof => ?_)
    fun k' j hj => ?_
  · rw [List.filterMap_append, List.filterMap_cons_none rfl, List.filterMap_nil, List.append_nil]
    exact h.flow.submit hc
  · exact of_decide_eq_true hof ▸ hk
  · rcases eq_or_ne k k' with rfl | hne
    · rw [List.getElem?_set_self hk] at hj
      cases hj
      refine ⟨?_, fun c' hc' => hbackground c' (List.mem_cons_of_mem c hc')⟩
      rw [List.countP_append, List.countP_singleton, if_pos (Posting.isOf_background k c), ← hcount,
        List.length_cons]
      omega
    · rw [List.getElem?_set_ne hne] at hj
      exact (h.jobs k' j hj).append h.bound (decide_eq_false hne)

theorem Kept.turn (h : x.Kept) (hm : x.Proper m) (hturn : x.Turn m y) : y.Kept := by
  cases hturn with
  | begin i q draws => exact h.begin i q draws hm
  | queue k now i q c left hjob => exact h.queue_job now hjob
  | flush k i q hjob =>
    obtain ⟨hcount, -⟩ := h.jobs k _ hjob
    refine h.setJob ⟨hcount, ?_⟩
    cases q with
    | populate keys => exact ⟨Nat.le_refl _, (congrArg _ (List.take_length)).trans hcount⟩
    | churn operations =>
      by_cases hs : s = .routingTable
      · rw [Errand.mark, if_pos hs]
        exact ⟨Nat.le_refl _, (congrArg _ (List.take_length)).trans hcount⟩
      · rw [Errand.mark, if_neg hs, List.take_zero]
        exact ⟨Nat.zero_le _, (if_neg hs).symm⟩
  | reply k i mark q hjob hmark =>
    obtain ⟨hcount, -, hpart⟩ := h.jobs k _ hjob
    exact h.setJob ⟨rfl, hcount, Job.countP_take_of_le hmark hcount hpart⟩
  | publish now p =>
    refine h.submit (e := .sample p) now x.jobs hm.1 ?_ rfl nofun fun k j hj =>
      (h.jobs k j hj).append h.bound rfl
    rw [List.filterMap_append]
    exact h.flow.publish hm.1 hm.2
  | apply now c rest hqueue =>
    have hmap := h.queue
    rw [hqueue, List.map_cons] at hmap
    obtain ⟨e, later, hdrop, hchange, hlater⟩ := List.map_eq_cons_iff.mp hmap.symm
    have hnext : x.submitted[x.applied]? = some e := by
      rw [← List.head?_drop, hdrop]
      rfl
    obtain ⟨hlt, -⟩ := List.getElem?_eq_some_iff.mp hnext
    refine ⟨hlt, ?_, h.sound, ?_, h.clean, h.numbered, fun k j hj => (h.jobs k j hj).apply⟩
    · rw [← List.drop_drop, hdrop]
      exact hlater.symm
    · have hflow := h.flow
      rw [hqueue, List.map_cons] at hflow
      show Feed.Flow _ ((x.submitted.take (x.applied + 1)).map _) _ _
      rw [List.take_add_one, hnext, Option.toList_some, List.map_append, List.map_singleton, hchange]
      exact hflow.apply

variable {delay : Span} {name : String}

theorem kept_of_lead (hx : Moves.Lead act Proper (fresh s delay name) x) : x.Kept := by
  induction hx with
  | refl => exact kept_fresh s delay name
  | tail _ hstep ih =>
    obtain ⟨m, hm, hact⟩ := hstep
    exact ih.turn hm (turn_of_act hact)

theorem Kept.observed_eq (h : x.Kept) :
    x.observed = (x.arrived.filterMap Posting.sample?).getLast? := by
  have harrived : ∀ e ∈ x.arrived, e.Sound := fun e he => h.sound e (List.mem_of_mem_take he)
  rw [observed, h.flow.latest?_eq_getLast?, Posting.carried_change harrived]

/-! ## Replies -/

theorem rest_set {k k' : Nat} {j j' : Job s} (hk : x.jobs[k]? = some j) (hk' : x.jobs[k']? = some j')
    {next : Job s} (hchannel : next.channel = j.channel) (herrand : next.errand = j.errand)
    (hrest : next.rest x.applied < j.rest x.applied) :
    ∃ j'', (x.jobs.set k next)[k']? = some j'' ∧ j''.channel = j'.channel ∧ j''.errand = j'.errand ∧
      j''.rest x.applied ≤ j'.rest x.applied := by
  rcases eq_or_ne k k' with rfl | hne
  · obtain ⟨hlt, -⟩ := List.getElem?_eq_some_iff.mp hk
    obtain rfl : j = j' := Option.some.inj (hk.symm.trans hk')
    exact ⟨next, List.getElem?_set_self hlt, hchannel, herrand, le_of_lt hrest⟩
  · exact ⟨j', (List.getElem?_set_ne hne).trans hk', rfl, rfl, le_refl _⟩

section

variable {applied i : Nat} {q : Errand}

theorem rest_queue (c : s.Change) (left : List s.Change) :
    (⟨i, q, .queueing left⟩ : Job s).rest applied <
      (⟨i, q, .queueing (c :: left)⟩ : Job s).rest applied :=
  Prod.Lex.toLex_lt_toLex.mpr (.inl (Nat.lt_succ_self _))

theorem rest_flush (mark : Nat) :
    (⟨i, q, .waiting mark⟩ : Job s).rest applied < (⟨i, q, .queueing []⟩ : Job s).rest applied :=
  Prod.Lex.toLex_lt_toLex.mpr (.inl Nat.one_pos)

theorem rest_reply (mark n : Nat) :
    (⟨i, q, .finished n⟩ : Job s).rest applied < (⟨i, q, .waiting mark⟩ : Job s).rest applied :=
  Prod.Lex.toLex_lt_toLex.mpr (.inr ⟨rfl, Nat.succ_pos _⟩)

theorem rest_apply (i : Nat) (q : Errand) {mark : Nat} (h : applied < mark) :
    (⟨i, q, .waiting mark⟩ : Job s).rest (applied + 1) < (⟨i, q, .waiting mark⟩ : Job s).rest applied :=
  Prod.Lex.toLex_lt_toLex.mpr (.inr ⟨rfl, by simp only; omega⟩)

end

/-- Errand `k` has its reply as soon as all its changes are applied, and always comes nearer to it. -/
structure Served (x : Board s) (k : Nat) (j : Job s) : Prop where
  reply : ∀ n, j.reply? = some n →
    n = j.errand.reply s ∧ x.arrived.countP (Posting.isOf k) = n ∧
      ∀ keys, j.errand = .populate keys → n = keys.countP (· ≠ 0)
  steady : ∀ m y, x.act m = some y → ∃ j', y.jobs[k]? = some j' ∧ j'.channel = j.channel ∧
    j'.errand = j.errand ∧ j'.rest y.applied ≤ j.rest x.applied
  nearer : j.reply? = none → ∃ m y j', x.Proper m ∧ x.act m = some y ∧ y.jobs[k]? = some j' ∧
    j'.rest y.applied < j.rest x.applied

theorem steady_of_turn {k : Nat} {j : Job s} (hj : x.jobs[k]? = some j) (hturn : x.Turn m y) :
    ∃ j', y.jobs[k]? = some j' ∧ j'.channel = j.channel ∧ j'.errand = j.errand ∧
      j'.rest y.applied ≤ j.rest x.applied := by
  cases hturn with
  | begin i q draws =>
    obtain ⟨hlt, -⟩ := List.getElem?_eq_some_iff.mp hj
    exact ⟨j, (List.getElem?_append_left hlt).trans hj, rfl, rfl, le_refl _⟩
  | queue k' now i q c left hjob => exact rest_set hjob hj rfl rfl (rest_queue c left)
  | flush k' i q hjob => exact rest_set hjob hj rfl rfl (rest_flush _)
  | reply k' i mark q hjob hmark => exact rest_set hjob hj rfl rfl (rest_reply mark _)
  | publish now p => exact ⟨j, hj, rfl, rfl, le_refl _⟩
  | apply now c rest hqueue => exact ⟨j, hj, rfl, rfl, j.rest_apply_le x.applied⟩

theorem Kept.nearer (h : x.Kept) {k : Nat} {j : Job s} (hj : x.jobs[k]? = some j)
    (hover : j.reply? = none) : ∃ m y j', x.Proper m ∧ x.act m = some y ∧ y.jobs[k]? = some j' ∧
      j'.rest y.applied < j.rest x.applied := by
  obtain ⟨hlt, -⟩ := List.getElem?_eq_some_iff.mp hj
  obtain ⟨i, q, stage⟩ := j
  cases stage with
  | finished n => cases hover
  | queueing left =>
    cases left with
    | nil => exact ⟨.flush k, _, _, trivial, act_flush hj, List.getElem?_set_self hlt, rest_flush _⟩
    | cons c left =>
      exact ⟨.queue k 0, _, _, trivial, act_queue 0 hj, List.getElem?_set_self hlt, rest_queue c left⟩
  | waiting mark =>
    by_cases hmark : mark ≤ x.applied
    · exact ⟨.reply k, _, _, trivial, act_reply hj hmark, List.getElem?_set_self hlt, rest_reply mark _⟩
    · -- Something that the job waits for is still queued.
      obtain ⟨-, hbound, -⟩ := h.jobs k _ hj
      have hlength := congrArg List.length h.queue
      rw [List.length_map, List.length_map, List.length_drop] at hlength
      obtain ⟨c, rest, hqueue⟩ := List.exists_cons_of_length_pos (l := x.replica.queue) (by omega)
      exact ⟨.apply c.due, _, _, trivial, act_apply hqueue, hj, rest_apply i q (Nat.lt_of_not_le hmark)⟩

theorem Kept.served (h : x.Kept) {k : Nat} {j : Job s} (hj : x.jobs[k]? = some j) :
    x.Served k j where
  reply n hn := by
    obtain ⟨hreply, hcount⟩ := (h.jobs k j hj).of_reply hn
    refine ⟨hreply, hcount, fun keys hkeys => ?_⟩
    rw [hreply, hkeys, List.countP_eq_length_filter]
    rfl
  steady m y hact := steady_of_turn hj (turn_of_act hact)
  nearer hover := h.nearer hj hover

/-! ## Registers -/

/-- What is read is the sample among the applied changes that was submitted last. -/
theorem register (hx : Moves.Lead act Proper (fresh s delay name) x) :
    x.replica.queue.map Submitted.change = (x.submitted.drop x.applied).map Posting.change ∧
    x.observed = (x.arrived.filterMap Posting.sample?).getLast? ∧
    (∀ m y, x.Proper m → x.act m = some y → y.observed ≠ x.observed →
      ∃ now p, m = .apply now ∧ x.submitted[x.applied]? = some (.sample p) ∧ y.observed = some p) ∧
    ∀ (k : Nat) (j : Job s), x.jobs[k]? = some j → x.Served k j := by
  have hkept := kept_of_lead hx
  refine ⟨hkept.queue, hkept.observed_eq, fun m y hm hact hchanged => ?_, fun k j hj => hkept.served hj⟩
  have hturn := turn_of_act hact
  have hnext := hkept.turn hm hturn
  cases hturn with
  | begin | queue | flush | reply | publish => exact absurd rfl hchanged
  | apply now c rest hqueue =>
    rw [hnext.observed_eq, hkept.observed_eq] at hchanged
    rw [hnext.observed_eq]
    have harrived : x.submitted.take (x.applied + 1) = x.arrived ++ (x.submitted[x.applied]?).toList :=
      List.take_add_one
    have hlt : x.applied < x.submitted.length := hnext.bound
    simp only [arrived, harrived, List.getElem?_eq_getElem hlt, Option.toList_some,
      List.filterMap_append] at hchanged ⊢
    cases he : x.submitted[x.applied] with
    | background k c =>
      rw [he] at hchanged
      exact absurd (congrArg List.getLast? (List.append_nil _)) hchanged
    | sample p =>
      exact ⟨now, p, rfl, rfl, List.getLast?_concat⟩

/-- Two channels on a routing table, one of which fills it while the other one churns it. -/
def busyHour : List Move :=
  [.begin 0 (.populate [11, 0]) (.ofSeed 1), .queue 0 0, .flush 0, .begin 1 (.churn 3) (.ofSeed 2),
    .queue 1 0, .publish 0 ⟨0, 7⟩, .queue 1 0, .publish 0 ⟨5, 9⟩, .apply 0, .apply 0, .apply 0, .apply 0,
    .flush 1, .reply 0]

theorem register_busyHour : ∃ x : Board .routingTable,
    Moves.Lead act Proper (fresh .routingTable ⟨0⟩ "routes") x ∧ x.observed = some ⟨0, 7⟩ ∧
      ∃ j, x.jobs[0]? = some j ∧ j.reply? = some 1 ∧ x.arrived.countP (Posting.isOf 0) = 1 := by
  have hplayed : ((Moves.play? act Proper (fresh .routingTable ⟨0⟩ "routes") busyHour).any fun x =>
      decide (x.arrived.filterMap Posting.sample? = [⟨0, 7⟩] ∧ x.jobs.map Job.reply? = [some 1, none])) =
        true := by
    decide +kernel
  obtain ⟨x, hplay, hfacts⟩ := (Option.any_eq_true ..).mp hplayed
  obtain ⟨hsamples, hreplies⟩ := of_decide_eq_true hfacts
  have hlead := Moves.lead_of_play hplay
  obtain ⟨-, hobserved, -, hserved⟩ := register hlead
  have hreply : (x.jobs.map Job.reply?)[0]? = some (some 1) := by rw [hreplies]; rfl
  obtain ⟨j, hj, hone⟩ := Option.map_eq_some_iff.mp ((List.getElem?_map ..).symm.trans hreply)
  exact ⟨x, hlead, by rw [hobserved, hsamples]; rfl, j, hj, hone, ((hserved 0 j hj).reply 1 hone).2.1⟩

end Board

end Lagmeter
