import Lagmeter.Proofs.Delivery.Counting
import Lagmeter.Proofs.Feed.Records

/-!
# From the writer to the readers

The writer and its readers keep their records apart from each other, and yet they agree: a reader
records a time for a version only after the writer did, its latencies are the differences of the two,
and the report of the deliveries counts them all.
-/

namespace Lagmeter

open Delivery Ledger Sample

variable {plan : WriterSettings} {l : Ledger}

/-! ## Both records -/

/-- The latencies that follow from two lists of times. -/
def latenciesOf (slots : Nat) (sent seen : List Nat) : List Nat :=
  (List.range slots).filterMap fun v =>
    if recorded seen v = 0 then none else some (recorded seen v - recorded sent v)

section

variable {w : Writer} {r : Reader}

theorem slot_lt (h : r.Honest plan l) {v : Nat} (hv : recorded r.times v ≠ 0) : v < plan.writes := by
  by_contra hlate
  rw [recorded, List.getD_eq_getElem?_getD, List.getElem?_eq_none (by rw [h.length]; omega)] at hv
  exact hv rfl

theorem recorded_of_seen (hw : w.Tracks plan l.published (plan.warmup + plan.writes + 1))
    (hr : r.Honest plan l) (hsound : l.Sound (plan.warmup + plan.writes)) {v : Nat}
    (hv : recorded r.times v ≠ 0) :
    recorded w.times v ≠ 0 ∧ recorded w.times v ≤ recorded r.times v := by
  obtain ⟨-, p, hp, hversion, hwritten, -⟩ := hr.slot v hv
  rw [hw.times v (slot_lt hr hv), ← hversion, timeOf_of_mem hsound.rising hp]
  exact ⟨Nat.ne_of_gt (hsound.timely p hp).1, hwritten⟩

theorem latencies_eq (hw : w.Tracks plan l.published (plan.warmup + plan.writes + 1))
    (hr : r.Honest plan l) : r.latencies = latenciesOf plan.writes w.times r.times := by
  rw [hr.latencies]
  refine List.filterMap_congr fun v hv => ?_
  rw [Reader.delay?, hw.times v (List.mem_range.mp hv)]

theorem length_latencies (hr : r.Honest plan l) {slots : Nat} (hslots : plan.writes ≤ slots) :
    ((List.range slots).filter fun v => recorded r.times v ≠ 0).length = r.latencies.length := by
  obtain ⟨more, rfl⟩ := Nat.exists_eq_add_of_le hslots
  have hlate : ((List.range more).map (plan.writes + ·)).filter
      (fun v => recorded r.times v ≠ 0) = [] := by
    simp only [List.filter_eq_nil_iff, List.forall_mem_map, decide_eq_true_eq]
    intro v _ hv
    have hlt := slot_lt hr hv
    omega
  rw [List.range_add, List.filter_append, hlate, List.append_nil, hr.latencies,
    List.length_filterMap_eq_countP, List.countP_eq_length_filter]
  congr 1
  refine List.filter_congr fun v _ => ?_
  unfold Reader.delay?
  by_cases hv : recorded r.times v = 0 <;> simp [hv]

end

/-! ## The report -/

section

variable {size slots map : Nat} {o : Nat → Outcome} {w : Writer} {d : Delivery}

/-- What every rank brings to the deliveries: its role, and its times as words. -/
def rowsFrom (size slots : Nat) (o : Nat → Outcome) : List (Role × List Int64) :=
  (List.range size).map fun q => ((o q).role, Collection.padded slots (o q).times)

def readersOf (size map : Nat) (o : Nat → Outcome) : List Nat :=
  (List.range size).filter fun q => (o q).role = .reader map

theorem delivery_of_mem (hd : d ∈ ofRanks slots (rowsFrom size slots o)) (hmap : d.map = map) :
    ∃ q < size, (o q).role = .writer map ∧ d = ofTimes map slots (Collection.padded slots (o q).times)
      ((readersOf size map o).map fun q => Collection.padded slots (o q).times) := by
  obtain ⟨⟨role, sent⟩, hrow, hd⟩ := List.mem_filterMap.mp hd
  obtain ⟨q, hq, hrow⟩ := List.mem_map.mp hrow
  cases hrow
  cases hrole : (o q).role with
  | idle | reader =>
    rw [hrole] at hd
    cases hd
  | writer map' =>
    rw [hrole] at hd
    have hd := Option.some.inj hd
    obtain rfl : map' = map := by rw [← hmap, ← hd]; rfl
    refine ⟨q, List.mem_range.mp hq, hrole, ?_⟩
    rw [← hd, rowsFrom, rowsOf, List.filter_map, List.map_map]
    rfl

theorem sum_delivery (hsound : l.Sound (plan.warmup + plan.writes)) (hclock : l.wall < 2 ^ 64)
    (hw : w.Tracks plan l.published (plan.warmup + plan.writes + 1)) (hslots : plan.writes ≤ slots)
    (hwriter : ∀ q < size, (o q).role = .writer map → o q = w.outcome)
    (hreaders : ∀ q < size, (o q).role = .reader map →
      ∃ r : Reader, r.Honest plan l ∧ o q = r.outcome)
    (hd : d ∈ ofRanks slots (rowsFrom size slots o)) (hmap : d.map = map) :
    (d.histogram.map fun x => x.1 * x.2).sum =
      ((readersOf size map o).map fun q => (o q).latencies.length).sum := by
  have hreader {q : Nat} (hq : q ∈ readersOf size map o) :
      ∃ r : Reader, r.Honest plan l ∧ o q = r.outcome := by
    obtain ⟨hsize, hrole⟩ := List.mem_filter.mp hq
    exact hreaders q (List.mem_range.mp hsize) (of_decide_eq_true hrole)
  -- A place in a row is zero exactly where the reader recorded nothing.
  have hplace {r : Reader} (hr : r.Honest plan l) {v : Nat} (hv : v < slots) :
      timeAt (Collection.padded slots r.times) v ≠ 0 ↔ recorded r.times v ≠ 0 := by
    have hlt : recorded r.times v < 2 ^ 64 := by
      by_cases hzero : recorded r.times v = 0
      · omega
      · exact Nat.lt_of_le_of_lt (hr.slot v hzero).1 hclock
    rw [timeAt_padded hv, ne_eq, Collection.word_eq_zero hlt]
  have hwritten : ∀ row ∈ (readersOf size map o).map (fun q => Collection.padded slots (o q).times),
      ∀ v < slots, timeAt row v ≠ 0 → timeAt (Collection.padded slots w.times) v ≠ 0 := by
    simp only [List.forall_mem_map]
    intro p hp v hv hseen
    obtain ⟨r, hr, hp⟩ := hreader hp
    rw [hp] at hseen
    have hslot := (hplace hr hv).mp hseen
    obtain ⟨hwritten, hle⟩ := recorded_of_seen hw hr hsound hslot
    have hlt := (hr.slot v hslot).1
    rwa [timeAt_padded hv, ne_eq, Collection.word_eq_zero (by omega)]
  obtain ⟨q, hq, hrole, rfl⟩ := delivery_of_mem hd hmap
  have hlength := Nat.le_of_eq (Collection.length_padded slots w.times).symm
  rw [hwriter q hq hrole]
  refine (sum_histogram hlength hwritten).trans ?_
  rw [List.map_map]
  refine congrArg List.sum (List.map_congr_left fun p hp => ?_)
  obtain ⟨r, hr, hp⟩ := hreader hp
  simp only [Function.comp_apply, hp]
  show _ = r.latencies.length
  rw [← length_latencies hr hslots]
  refine congrArg List.length (List.filter_congr fun v hv => ?_)
  exact decide_eq_decide.mpr (hplace hr (List.mem_range.mp hv))

end

/-! ## The whole -/

/-- When the writer is done, its records, those of all readers and the report agree. -/
theorem Press.end_to_end {s : Structure} {wall map : Nat} {delay : Span} {name : String}
    {keys : List Int} {x : Press s} {w : Writer} {result : Except Fault Unit} (hstart : 0 < wall)
    (hwall : wall < 2 ^ 64) (hkeys : Channel.Clear s keys) (hlimit : plan.warmup + plan.writes < 2 ^ 64)
    (hrun : Moves.Lead Press.act (Fair plan) (fresh s wall delay (.new map name keys plan)) x)
    (hdone : x.talk = .done (w, result)) :
    (∀ i, (x.feed.desk i).stage ≠ .absent →
      (x.feed.desk i).reader.invalid = 0 ∧
      (∀ v, recorded (x.feed.desk i).reader.times v ≠ 0 → recorded w.times v ≠ 0 ∧
        recorded w.times v ≤ recorded (x.feed.desk i).reader.times v) ∧
      (x.feed.desk i).reader.latencies =
        latenciesOf plan.writes w.times (x.feed.desk i).reader.times) ∧
    ∀ size slots (o : Nat → Outcome), plan.writes ≤ slots →
      (∀ q < size, (o q).role = .writer map → o q = w.outcome) →
      (∀ q < size, (o q).role = .reader map →
        ∃ i, (x.feed.desk i).stage ≠ .absent ∧ o q = (x.feed.desk i).reader.outcome) →
      ∀ d ∈ ofRanks slots (rowsFrom size slots o), d.map = map →
        (d.histogram.map fun x => x.1 * x.2).sum =
          ((readersOf size map o).map fun q => (o q).latencies.length).sum := by
  have hsound := sound_of_lead hstart hwall hkeys hlimit hrun
  have hw : w.Tracks plan x.feed.published (plan.warmup + plan.writes + 1) := by
    have hwriter := hsound.writer
    rw [hdone] at hwriter
    exact hwriter
  refine ⟨fun i hpresent => ?_, fun size slots o hslots hwriter hreaders d hd hmap => ?_⟩
  · have hr := (hsound.readers i hpresent).reader
    exact ⟨hr.invalid, fun v hv => recorded_of_seen hw hr hsound.ledger hv, latencies_eq hw hr⟩
  · refine sum_delivery hsound.ledger hsound.clock hw hslots hwriter (fun q hq hrole => ?_) hd hmap
    obtain ⟨i, hpresent, ho⟩ := hreaders q hq hrole
    exact ⟨_, (hsound.readers i hpresent).reader, ho⟩

/-! ## Two versions and two readers -/

namespace Press

/-- One version that is not measured, and one burst of two that are. -/
def brief : WriterSettings := { writes := 2, warmup := 1, rate := .ofNat 3, interval := .ofMillis 1000 }

def idle : Press .macTable := fresh .macTable 1 ⟨0⟩ (.new 0 "mac" [5] brief)

def writing (calls : Nat) : List (Move .macTable) := List.replicate calls (.work 0)

/-- A queued change is applied, and both readers are told. -/
def applied : List (Move .macTable) :=
  [.feed (.apply 0), .feed .record, .feed .call, .feed .record, .feed .call]

def reading (i calls : Nat) : List (Move .macTable) := List.replicate calls (.feed (.desk i (.work 0)))

/-- The setup of a reader, which then waits. -/
def draining (i : Nat) : List (Move .macTable) :=
  [.feed (.desk i .start)] ++ reading i 1 ++ [.feed (.desk i .observe)] ++ reading i 2 ++
    [.feed (.desk i .next), .feed (.desk i .start)] ++ reading i 1 ++ [.feed (.desk i .next)]

/-- A reader is woken, looks, and makes further calls. -/
def looking (i calls : Nat) : List (Move .macTable) :=
  List.replicate 3 (.feed (.desk i (.wait 0))) ++ [.feed (.desk i .observe)] ++ reading i calls ++
    [.feed (.desk i .next)]

def preparation : List (Move .macTable) :=
  [.feed (.subscribe 0 0 "mac" ⟨2, 1, ⟨0⟩, false⟩), .feed (.subscribe 1 0 "mac" ⟨2, 1, ⟨0⟩, false⟩),
    .help (.ofSeed 1), .queue 0] ++ applied ++ [.settle] ++ writing 1 ++ [.help (.ofSeed 1), .settle] ++
    writing 4 ++ [.publish 0] ++ applied ++ draining 0 ++ draining 1 ++ writing 2

/-- The first reader sees both versions. The second one is late and sees only the last. -/
def measurement : List (Move .macTable) :=
  writing 4 ++ [.feed (.tick 1), .publish 0] ++ applied ++ [.feed (.tick 1)] ++ looking 0 1 ++ writing 1 ++
    [.publish 0] ++ applied ++ [.feed (.tick 4)] ++ looking 0 3 ++ looking 1 3 ++ writing 3

def course : List (Move .macTable) := preparation ++ measurement

theorem isSome_course : (Moves.play? act (Fair brief) idle course).isSome := by
  decide +kernel

def ended : Press .macTable := (Moves.play? act (Fair brief) idle course).get isSome_course

/-- The writer at the end of the course. -/
def author : Writer :=
  match ended.talk with
  | .done (w, _) => w
  | .ask .. => default

theorem talk_ended : ∃ result, ended.talk = .done (author, result) := by
  have hdone : (match ended.talk with | .done _ => true | .ask .. => false) = true := by
    decide +kernel
  unfold author
  cases htalk : ended.talk with
  | done y => exact ⟨y.2, rfl⟩
  | ask =>
    rw [htalk] at hdone
    cases hdone

/-- The writer on the first rank, and its readers on the others. -/
def outcomes (q : Nat) : Outcome :=
  if q = 0 then author.outcome else (ended.feed.desk (q - 1)).reader.outcome

theorem writer_of_outcomes {q : Nat} (hrole : (outcomes q).role = .writer 0) :
    outcomes q = author.outcome := by
  by_cases hq : q = 0
  · exact if_pos hq
  · rw [outcomes, if_neg hq] at hrole
    cases hrole

theorem present_of_outcomes {q : Nat} (hq : q < 3) (hrole : (outcomes q).role = .reader 0) :
    ∃ i, (ended.feed.desk i).stage ≠ .absent ∧ outcomes q = (ended.feed.desk i).reader.outcome := by
  have hpresent : ∀ i < 2, (ended.feed.desk i).stage ≠ .absent := by decide +kernel
  by_cases hzero : q = 0
  · rw [outcomes, if_pos hzero] at hrole
    cases hrole
  · exact ⟨q - 1, hpresent (q - 1) (by omega), if_neg hzero⟩

theorem end_to_end_brief : Moves.Lead act (Fair brief) idle ended ∧
    (∃ result, ended.talk = .done (author, result)) ∧ author.times = [1, 3] ∧
    (ended.feed.desk 0).reader.times = [3, 7] ∧ (ended.feed.desk 0).reader.latencies = [2, 4] ∧
    (ended.feed.desk 1).reader.times = [0, 7] ∧ (ended.feed.desk 1).reader.latencies = [4] ∧
    (∀ i < 2, (ended.feed.desk i).stage = .finished ∧ (ended.feed.desk i).reader.invalid = 0 ∧
      (ended.feed.desk i).reader.latencies =
        latenciesOf 2 author.times (ended.feed.desk i).reader.times) ∧
    ∃ d ∈ ofRanks 2 (rowsFrom 3 2 outcomes), d.histogram = [(1, 1), (2, 1)] ∧
      (d.histogram.map fun x => x.1 * x.2).sum =
        ((readersOf 3 0 outcomes).map fun q => (outcomes q).latencies.length).sum := by
  have hlead : Moves.Lead act (Fair brief) idle ended :=
    Moves.lead_of_play (Option.some_get isSome_course).symm
  have hclear : Channel.Clear .macTable [5] := fun _ => by decide
  obtain ⟨result, hdone⟩ := talk_ended
  obtain ⟨hrecords, hreport⟩ := end_to_end (by decide) (by decide) hclear (by decide) hlead hdone
  have hfinished : ∀ i < 2, (ended.feed.desk i).stage = .finished := by decide +kernel
  have hreaders : ∀ i < 2, (ended.feed.desk i).stage = .finished ∧
      (ended.feed.desk i).reader.invalid = 0 ∧ (ended.feed.desk i).reader.latencies =
        latenciesOf 2 author.times (ended.feed.desk i).reader.times := by
    intro i hi
    obtain ⟨hinvalid, -, hlatencies⟩ := hrecords i (by rw [hfinished i hi]; decide)
    exact ⟨hfinished i hi, hinvalid, hlatencies⟩
  have hdeliveries : (ofRanks 2 (rowsFrom 3 2 outcomes)).map (fun d => (d.map, d.histogram)) =
      [(0, [(1, 1), (2, 1)])] := by
    decide +kernel
  obtain ⟨d, hd, hshown⟩ := List.mem_map.mp (hdeliveries ▸ List.mem_cons_self)
  obtain ⟨hmap, hhistogram⟩ := Prod.mk.inj hshown
  have hsum := hreport 3 2 outcomes (Nat.le_refl 2) (fun _ _ => writer_of_outcomes)
    (fun _ => present_of_outcomes) d hd hmap
  exact ⟨hlead, ⟨result, hdone⟩, by decide +kernel, by decide +kernel, by decide +kernel, by decide +kernel,
    by decide +kernel, hreaders, d, hd, hhistogram, hsum⟩

end Press

end Lagmeter
