import Lagmeter.Proofs.Codec.Utf8
import Lagmeter.Proofs.Files.Places
import Lagmeter.Proofs.Json.Records
import Lagmeter.Proofs.Time.Stamps
import Lagmeter.Report.Run

/-!
# Reports read back

A report is read as it was written: its metrics in their order, each as the kind of value it was, and all
figures of the group. What is relied on is that a finite number of the report is read as it was written. That
it comes back as a number with a point, and not as a whole one, is not relied on but shown.
-/

namespace Lagmeter

open Json

/-! ## Metrics -/

namespace MetricValue

def doubles : MetricValue → List Double
  | .real x => [x]
  | _ => []

theorem ofJson?_real {x : Double} (hfinite : x.isFinite = true) :
    ofJson? (toJson (.real x)) = (ofDouble x).double?.map .real := by
  have htext : (ofDouble x).text? = none := by
    rw [ofDouble, if_pos hfinite]
    rfl
  rw [toJson, ofJson?, integer?_ofDouble hfinite, htext]
  cases (ofDouble x).double? <;> rfl

theorem survives {v : MetricValue} (h : ∀ x ∈ v.doubles, Lasting x) : Survives toJson ofJson? v := by
  cases v with
  | integer n =>
    refine ⟨.number (isNumber_int n.toInt), ?_⟩
    rw [toJson, ofJson?, integer?_ofInt, Option.map_some, Int64.ofInt_toInt]
    rfl
  | real x =>
    have hx := h x List.mem_cons_self
    refine ⟨(survives_double hx).readable, ?_⟩
    rw [ofJson?_real hx.finite, hx.faithful, Option.map_some]
  | text s =>
    refine ⟨(survives_text s).readable, ?_⟩
    rw [toJson, ofJson?, (survives_text s).read_eq]
    rfl

end MetricValue

theorem Metric.survives {m : Metric} (h : ∀ x ∈ m.value.doubles, Lasting x) :
    Survives toJson ofJson? m := by
  have hname := survives_text m.name
  have hvalue := MetricValue.survives h
  refine ⟨readable_record (by simp [hname.readable, hvalue.readable]), ?_⟩
  have hfields : (toJson m).fields? ["name", "value"] = some _ := fields?_record (by simp)
  simp only [List.map_cons, List.map_nil] at hfields
  simp only [ofJson?, hfields, required?, Option.bind_eq_bind, Option.bind_some, hname.read_eq,
    hvalue.read_eq, Option.pure_def]

/-! ## Figures -/

namespace Summary

def words (s : Summary) : List Nat := [s.count, s.min, s.max, s.p50, s.p90, s.p95, s.p99, s.p9999]

def doubles (s : Summary) : List Double := [s.mean, s.deviation]

theorem survives {s : Summary} (hwords : ∀ n ∈ s.words, n ≤ Numeral.maxWord)
    (hdoubles : ∀ x ∈ s.doubles, Lasting x) : Survives toJson ofJson? s := by
  have hword : ∀ n ∈ s.words, Survives ofNat word? n := fun n hn => survives_word (hwords n hn)
  have hdouble : ∀ x ∈ s.doubles, Survives ofDouble double? x := fun x hx => survives_double (hdoubles x hx)
  simp only [words, doubles, List.forall_mem_cons, List.not_mem_nil, false_implies, implies_true,
    and_true] at hword hdouble
  obtain ⟨hcount, hmin, hmax, hp50, hp90, hp95, hp99, hp9999⟩ := hword
  obtain ⟨hmean, hdeviation⟩ := hdouble
  refine ⟨readable_record ?_, ?_⟩
  · simp [hcount.readable, hmean.readable, hdeviation.readable, hmin.readable, hmax.readable, hp50.readable,
      hp90.readable, hp95.readable, hp99.readable, hp9999.readable]
  · have hfields : (toJson s).fields? names = some _ := fields?_record (by simp)
    simp only [List.map_cons, List.map_nil] at hfields
    simp only [ofJson?, hfields, required?, Option.bind_eq_bind, Option.bind_some, hcount.read_eq,
      hmean.read_eq, hdeviation.read_eq, hmin.read_eq, hmax.read_eq, hp50.read_eq, hp90.read_eq, hp95.read_eq,
      hp99.read_eq, hp9999.read_eq, Option.pure_def]

theorem survives_option {o : Option Summary} (hwords : ∀ n ∈ o.toList.flatMap words, n ≤ Numeral.maxWord)
    (hdoubles : ∀ x ∈ o.toList.flatMap doubles, Lasting x) :
    Survives (ofOption toJson) (optional? ofJson?) o :=
  Json.survives_option (fun s hs => survives
    (fun n hn => hwords n (List.mem_flatMap.mpr ⟨s, Option.mem_toList.mpr hs, hn⟩))
    fun x hx => hdoubles x (List.mem_flatMap.mpr ⟨s, Option.mem_toList.mpr hs, hx⟩)) fun _ => nofun

end Summary

namespace Delivery

def words (d : Delivery) : List Nat :=
  [d.map, d.readers, d.written] ++ d.histogram.flatMap (fun e => [e.1, e.2]) ++
    d.full.toList.flatMap Summary.words

def doubles (d : Delivery) : List Double := d.full.toList.flatMap Summary.doubles

theorem survives {d : Delivery} (hsorted : d.histogram.Pairwise (·.1 < ·.1))
    (hwords : ∀ n ∈ d.words, n ≤ Numeral.maxWord) (hdoubles : ∀ x ∈ d.doubles, Lasting x) :
    Survives toJson ofJson? d := by
  have hmap : Survives ofNat word? d.map := survives_word (hwords _ (by simp [words]))
  have hreaders : Survives ofNat word? d.readers := survives_word (hwords _ (by simp [words]))
  have hwritten : Survives ofNat word? d.written := survives_word (hwords _ (by simp [words]))
  have hhistogram : Survives (ofNumbered ofNat) (numbered? word?) d.histogram := by
    have hentry : ∀ e ∈ d.histogram, e.1 ∈ d.words ∧ e.2 ∈ d.words := by
      intro e he
      have hmem : ∀ n ∈ [e.1, e.2], n ∈ d.words := fun n hn =>
        List.mem_append_left _ (List.mem_append_right _ (List.mem_flatMap.mpr ⟨e, he, hn⟩))
      exact ⟨hmem _ (by simp), hmem _ (by simp)⟩
    exact survives_numbered hsorted (fun e he => hwords _ (hentry e he).1)
      fun e he => survives_word (hwords _ (hentry e he).2)
  have hfull : Survives (ofOption Summary.toJson) (optional? Summary.ofJson?) d.full :=
    Summary.survives_option (fun n hn => hwords n (List.mem_append_right _ hn)) hdoubles
  refine ⟨readable_record ?_, ?_⟩
  · simp [hmap.readable, hreaders.readable, hwritten.readable, hhistogram.readable, hfull.readable]
  · have hfields : (toJson d).fields? names = some _ := fields?_record (by simp)
    simp only [List.map_cons, List.map_nil] at hfields
    simp only [ofJson?, hfields, required?, absent?, Option.bind_eq_bind, Option.bind_some, hmap.read_eq,
      hreaders.read_eq, hwritten.read_eq, hhistogram.read_eq, hfull.read_eq, Option.pure_def]

end Delivery

namespace Aggregate

def words (a : Aggregate) : List Nat :=
  [a.participants, a.invalid, a.missed, a.failures] ++ a.samplesPerRank ++ a.wallClock.toList ++
    a.latency.toList.flatMap Summary.words ++ a.deliveries.flatMap Delivery.words

def doubles (a : Aggregate) : List Double :=
  a.latency.toList.flatMap Summary.doubles ++ a.deliveries.flatMap Delivery.doubles

theorem survives {a : Aggregate} (hsorted : ∀ d ∈ a.deliveries, d.histogram.Pairwise (·.1 < ·.1))
    (hwords : ∀ n ∈ a.words, n ≤ Numeral.maxWord) (hdoubles : ∀ x ∈ a.doubles, Lasting x) :
    Survives toJson ofJson? a := by
  have hparticipants : Survives ofNat word? a.participants := survives_word (hwords _ (by simp [words]))
  have hsamples : Survives (ofList ofNat) (items? word?) a.samplesPerRank :=
    survives_list fun n hn => survives_word (hwords n (by simp [words, hn]))
  have hlatency : Survives (ofOption Summary.toJson) (optional? Summary.ofJson?) a.latency :=
    Summary.survives_option (fun n hn => hwords n (List.mem_append_left _ (List.mem_append_right _ hn)))
      fun x hx => hdoubles x (List.mem_append_left _ hx)
  have hdeliveries : Survives (ofList Delivery.toJson) (items? Delivery.ofJson?) a.deliveries :=
    survives_list fun d hd => Delivery.survives (hsorted d hd)
      (fun n hn => hwords n (List.mem_append_right _ (List.mem_flatMap.mpr ⟨d, hd, hn⟩)))
      fun x hx => hdoubles x (List.mem_append_right _ (List.mem_flatMap.mpr ⟨d, hd, hx⟩))
  have hwallClock : Survives (ofOption ofNat) (optional? word?) a.wallClock :=
    survives_option (fun n hn => survives_word (hwords n (by simp [words, Option.mem_def.mp hn])))
      fun _ => nofun
  have hinvalid : Survives ofNat word? a.invalid := survives_word (hwords _ (by simp [words]))
  have hmissed : Survives ofNat word? a.missed := survives_word (hwords _ (by simp [words]))
  have hfailures : Survives ofNat word? a.failures := survives_word (hwords _ (by simp [words]))
  refine ⟨readable_record ?_, ?_⟩
  · simp [hparticipants.readable, hsamples.readable, hlatency.readable, hdeliveries.readable,
      hwallClock.readable, hinvalid.readable, hmissed.readable, hfailures.readable]
  · have hfields : (toJson a).fields? names = some _ := fields?_record (by simp)
    simp only [List.map_cons, List.map_nil] at hfields
    simp only [ofJson?, hfields, required?, absent?, Option.bind_eq_bind, Option.bind_some,
      hparticipants.read_eq, hsamples.read_eq, hlatency.read_eq, hdeliveries.read_eq, hwallClock.read_eq,
      hinvalid.read_eq, hmissed.read_eq, hfailures.read_eq, Option.pure_def]

end Aggregate

/-! ## Reports -/

namespace Report

def doubles (r : Report) : List Double :=
  r.metrics.flatMap (·.value.doubles) ++ r.aggregate.toList.flatMap Aggregate.doubles

/-- What the types of a report's fields promise: words of 64 bits, maps by number, and a time of the
calendar. -/
structure IsTyped (r : Report) : Prop where
  words : ∀ a ∈ r.aggregate, ∀ n ∈ a.words, n ≤ Numeral.maxWord
  histograms : ∀ a ∈ r.aggregate, ∀ d ∈ a.deliveries, d.histogram.Pairwise (·.1 < ·.1)
  time : r.time.IsTime

variable {r : Report}

theorem readable_and_ofJson? (htyped : r.IsTyped) (hdoubles : ∀ x ∈ r.doubles, Lasting x) :
    Json.Readable r.toJson ∧ ofJson? r.toJson = some { r with time := r.time.shown } := by
  have htag := survives_text r.tag
  have hversion := survives_text r.version
  have htime := survives_text r.time.stamp
  have hdegraded := survives_bool r.degraded
  have hmetrics : Survives (ofList Metric.toJson) (items? Metric.ofJson?) r.metrics :=
    survives_list fun m hm => Metric.survives fun x hx =>
      hdoubles x (List.mem_append_left _ (List.mem_flatMap.mpr ⟨m, hm, hx⟩))
  have haggregate : Survives (ofOption Aggregate.toJson) (optional? Aggregate.ofJson?) r.aggregate :=
    survives_option (fun a ha => Aggregate.survives (htyped.histograms a ha) (htyped.words a ha)
      fun x hx => hdoubles x
        (List.mem_append_right _ (List.mem_flatMap.mpr ⟨a, Option.mem_toList.mpr ha, hx⟩)))
      fun _ => nofun
  refine ⟨readable_record ?_, ?_⟩
  · simp [htag.readable, hversion.readable, htime.readable, hdegraded.readable, hmetrics.readable,
      haggregate.readable]
  · have hfields : (toJson r).fields? names = some _ := fields?_record (by simp)
    simp only [List.map_cons, List.map_nil] at hfields
    simp only [ofJson?, hfields, required?, absent?, Option.bind_eq_bind, Option.bind_some, htag.read_eq,
      hversion.read_eq, htime.read_eq, hdegraded.read_eq, hmetrics.read_eq, haggregate.read_eq,
      Moment.read?_stamp htyped.time, Option.pure_def]

theorem read?_text (htyped : r.IsTyped) (hdoubles : ∀ x ∈ r.doubles, Lasting x) :
    read? r.text = some { r with time := r.time.shown } := by
  obtain ⟨hreadable, hread⟩ := readable_and_ofJson? htyped hdoubles
  rw [read?, text, hreadable.read?_prettyText, Option.bind_some, hread]

theorem readText_of_write {files : Files} {path : String} (h : (r.write files path).result = .ok ()) :
    (r.write files path).files.readText path = .ok r.text := by
  have hread : (r.write files path).files.read path = .ok (Utf8.encode r.text) := by
    cases hprepare : prepare files path with
    | error f => simp [write, hprepare] at h
    | ok prepared =>
      cases hwrite : prepared.write path (Utf8.encode r.text) with
      | error e => simp [write, hprepare, hwrite] at h
      | ok files' => simp only [write, hprepare, hwrite, Files.read_of_write hwrite]
  simp only [Files.readText, hread, Utf8.decode_encode, bind, Except.bind, pure, Except.pure]

/-- How a report comes back from its text, and from any file that it was written to. -/
structure Restored (r : Report) : Prop where
  /-- Every field comes back as it was, but the time as it was shown. -/
  read : read? r.text = some { r with time := r.time.shown }
  /-- Only a leap second at the end of no minute is shown as another moment. -/
  time : r.time.nanos < 1000000000 ∨ r.time.seconds % 60 = 59 → r.time.shown = r.time
  file : ∀ files path, (r.write files path).result = .ok () →
    (r.write files path).files.readText path = .ok r.text

/-- A report with finite numbers only reads back, if each of these numbers does. -/
theorem reads_back (htyped : r.IsTyped) (hfinite : ∀ x ∈ r.doubles, x.isFinite = true)
    (hfaithful : ∀ x ∈ r.doubles, Json.Faithful x) : Restored r where
  read := read?_text htyped fun x hx => ⟨hfinite x hx, hfaithful x hx⟩
  time h := by
    rw [Moment.shown, if_neg]
    omega
  file _ _ := readText_of_write

/-- Values that look like values of another kind, and counts at their bounds. -/
def lookalikes : Report where
  tag := "\"tag\"\n"
  version := ""
  time := ⟨1700000000, 120000000⟩
  degraded := true
  metrics := [⟨"integral", .real 3.0⟩, ⟨"numeric", .text "3.0"⟩, ⟨"least", .integer Int64.minValue⟩,
    ⟨"least", .real (Double.negate 1e300)⟩, ⟨"nothing", .text "null"⟩, ⟨"zero", .integer 0⟩]
  aggregate := some {
    participants := 3
    samplesPerRank := [0, Numeral.maxWord]
    latency := none
    deliveries := [⟨0, 2, 8, [(0, 1), (2, 7)], some ⟨7, 0.1, 2.5, 1, 2, 3, 4, 5, 6, 7⟩⟩, ⟨1, 0, 0, [], none⟩]
    wallClock := some Numeral.maxWord
    invalid := 0
    missed := 0
    failures := 0 }

theorem reads_back_lookalikes : read? lookalikes.text = some lookalikes := by
  have htyped : lookalikes.IsTyped := {
    words := by decide +kernel
    histograms := by decide +kernel
    time := ⟨by decide +kernel, by decide +kernel⟩ }
  have hrestored := reads_back htyped (by decide +kernel) (by decide +kernel)
  rw [hrestored.read, hrestored.time (by decide +kernel)]

end Report

end Lagmeter
