import Lagmeter.Proofs.Cycle.Crew
import Lagmeter.Proofs.Experiment.Keys

/-!
# Stages of an experiment

What each stage of an experiment gives on one rank, and what is left of it at the rank's site: the
node that the rank takes, and the report that the root writes.
-/

namespace Lagmeter

/-! ## What is left at a site -/

/-- Takes a node, or writes a report. -/
def SiteCall.isMark : SiteCall → Bool
  | .play _ | .writeReport _ _ => true
  | _ => false

def marks (calls : List SiteCall) : List SiteCall := calls.filter SiteCall.isMark

@[simp] theorem marks_append (calls calls' : List SiteCall) :
    marks (calls ++ calls') = marks calls ++ marks calls' := List.filter_append ..

namespace Experiment

variable {g : Roster} {venue : Nat → Venue} {v : Venue} {m : Member} {s : Settings} {r : Nat}
  {calls : List SiteCall}

/-- The course of rank `r` of a whole group where rank `q` makes the requests `all q` of the script. -/
def along (size : Nat) (script : List (Nat → Request)) (r : Nat) : Course :=
  script.map fun all => .ask (.ofRank true size all r)

/-! ## The name -/

/-- The time on the clock of a rank when it starts, in nanoseconds. -/
def clock (v : Venue) : Nat := v.site [] (.work .wallClock)

def stamp (v : Venue) : Int64 := Collection.word (clock v / 1000000)

def naming (s : Settings) (venue : Nat → Venue) : List (Nat → Request) :=
  match s.mapName with
  | some _ => []
  | none => [fun q => .broadcastValue (stamp (venue q)) 0]

/-- What comes of opening the structure of a role. An idle rank has none. -/
def opened (v : Venue) : Role → Except StoreError Unit
  | .idle => .ok ()
  | .writer _ | .reader _ => v.opening

def openFailure (v : Venue) (role : Role) : Option PhaseFailure :=
  match opened v role with
  | .ok () => none
  | .error e => some ⟨.start, s!"open structure failed: {e.message}"⟩

/-- The cycle that is part of an experiment. -/
def cyclePlan (s : Settings) (rounds : Nat) : CyclePlan := ⟨s.setupMode, s.writes, rounds⟩

/-- The failures that a rank has in the end: that of its structure, and those of its node. -/
def failures (s : Settings) (venue : Nat → Venue) (r : Nat) : List PhaseFailure :=
  (openFailure (venue r) (s.plan.roleOf r)).toList ++ (venue r).conduct.failures

/-- What the ranks bring to the count. -/
def bringCount (s : Settings) (venue : Nat → Venue) (q : Nat) : Request :=
  .reduce .sum (if !(failures s venue q).isEmpty then 1 else 0) 0

end Experiment

namespace Report

variable {name name' : String} {x y : MetricValue} {r : Report}

theorem get?_push (hname : ∀ m ∈ r.metrics, m.name ≠ name) :
    (r.push name x).get? name = some x := by
  have hnone : r.metrics.find? (·.name = name) = none :=
    List.find?_eq_none.mpr fun m hm => by simpa using hname m hm
  rw [get?, push, List.find?_append, hnone]
  simp

theorem get?_push_of_some (h : r.get? name = some y) : (r.push name' x).get? name = some y := by
  obtain ⟨m, hm, rfl⟩ := Option.map_eq_some_iff.mp h
  rw [get?, push, List.find?_append, hm]
  rfl

theorem head?_latencyMetrics {name : String} {c : Char} (hname : name.toList.head? = some c)
    (s : Summary) : ∀ m ∈ latencyMetrics name s, m.name.toList.head? = some c := by
  have happend (suffix : String) : (name ++ suffix).toList.head? = some c := by
    rw [String.toList_append, List.head?_append, hname]
    rfl
  simp only [latencyMetrics, List.forall_mem_cons, happend]
  simp

theorem head?_aggregateMetrics (a : Aggregate) :
    ∀ m ∈ aggregateMetrics a, m.name.toList.head? ≠ some 'd' := by
  have hlatency {name : String} {c : Char} (hname : name.toList.head? = some c) (hc : c ≠ 'd')
      (s : Option Summary) :
      ∀ m ∈ s.toList.flatMap (latencyMetrics name), m.name.toList.head? ≠ some 'd' := by
    intro m hm
    obtain ⟨s, -, hm⟩ := List.mem_flatMap.mp hm
    rw [head?_latencyMetrics hname s m hm]
    exact fun h => hc (Option.some.inj h)
  have hoptional {name : String} (hname : name.toList.head? ≠ some 'd') (n : Option Nat) :
      ∀ m ∈ optional name n, m.name.toList.head? ≠ some 'd' := by
    cases n with
    | none => nofun
    | some n => exact List.forall_mem_singleton.mpr hname
  have hmap (map : Nat) : s!"map{map}_full_delivery".toList.head? = some 'm' := by
    rw [String.toList_append, String.toList_append, List.append_assoc]
    rfl
  rw [aggregateMetrics]
  simp only [List.forall_mem_append]
  refine ⟨⟨⟨⟨?_, hlatency (c := 'l') (by decide) (by decide) _⟩, hoptional (by decide) _⟩, ?_⟩, ?_⟩
  · simp only [List.forall_mem_cons]
    exact ⟨by decide, by decide, nofun⟩
  · simp only [List.forall_mem_cons]
    exact ⟨by decide, by decide, by decide, nofun⟩
  · intro m hm
    obtain ⟨d, -, hm⟩ := List.mem_flatMap.mp hm
    exact hlatency (hmap d.map) (by decide) _ m hm

theorem name_ofResults_ne (tag : String) (s : Settings) (a : Option Aggregate) (degraded : Bool)
    (now : Moment) : ∀ m ∈ (ofResults tag s a degraded now).metrics, m.name ≠ "degraded_ranks" := by
  have hsettings : ∀ m ∈ settingsMetrics s, m.name.toList.head? ≠ some 'd' := by
    simp only [settingsMetrics, List.forall_mem_cons]
    exact ⟨by decide, by decide, by decide, by decide, by decide, by decide, by decide, nofun⟩
  intro m hm hname
  have hhead : m.name.toList.head? ≠ some 'd' := by
    rcases List.mem_append.mp hm with hm | hm
    · exact hsettings m hm
    · obtain ⟨a, -, hm⟩ := List.mem_flatMap.mp hm
      exact head?_aggregateMetrics a m hm
  rw [hname] at hhead
  exact hhead (by decide)

end Report

namespace Experiment

variable {v : Venue} {m : Member} {s : Settings} {calls : List SiteCall}

theorem takes_question {α : Type} {d : Dialogue Site (Except Fault α)} (x : Except Fault α)
    (call : SiteCall) (h : v.resolve calls d = .done (x, calls ++ [call])) (hcall : call.isMark = false) :
    Takes m v [] calls (fun _ calls' => marks calls' = marks calls) (attempt d) := by
  refine (takes_attempt h).mono ?_
  rintro _ _ ⟨-, rfl⟩
  simp [marks, hcall]

theorem takes_tellSummaries (paths : List String) :
    Takes m v [] calls (fun _ calls' => marks calls' = marks calls) (tellSummaries paths) := by
  induction paths generalizing calls with
  | nil => exact takes_pure rfl
  | cons path rest ih =>
    refine (takes_question (v.site calls (.readLog path)) (.readLog path) rfl rfl).silent
      (fun text calls' htext => ?_) fun _ _ h => h
    refine (gives_log _ _).silent ?_
    rintro _ _ rfl
    refine ih.silent (fun count calls'' hrest => ?_) fun _ _ h => h.trans htext
    exact takes_pure (hrest.trans htext)

theorem gives_addSummaries (j : Journal) (r : Report) :
    Gives m v [] calls (fun r' calls' =>
        (r' = r ∨ ∃ count, r' = r.push "reader_summaries" (.ofNat count)) ∧
        marks calls' = marks calls)
      (addSummaries j r) := by
  unfold addSummaries
  extract_lets count
  have hcount : Takes m v [] calls (fun _ calls' => marks calls' = marks calls) count := by
    refine (takes_question (v.site calls (.findLogs j "summary"))
      (.findLogs j "summary") rfl rfl).silent (fun paths calls' hpaths => ?_) fun _ _ h => h
    exact (takes_tellSummaries paths).mono fun _ _ h => h.trans hpaths
  have hadd : Takes m v [] calls (fun x calls' => marks calls' = marks calls ∧
      ∀ r', x = .ok r' → ∃ count, r' = r.push "reader_summaries" (.ofNat count))
      (count >>= fun n => pure (r.push "reader_summaries" (.ofNat n))) :=
    hcount.silent (fun n _ h => takes_pure ⟨h, fun _ hr => ⟨n, (Except.ok.inj hr).symm⟩⟩)
      fun _ _ h => ⟨h, nofun⟩
  refine gives_tryCatch hadd (fun r' _ ⟨hcalls, hr⟩ => ⟨.inr (hr r' rfl), hcalls⟩) ?_
  rintro fault calls' ⟨hcalls, -⟩
  refine (gives_log _ _).silent ?_
  rintro _ _ rfl
  exact gives_pure ⟨.inl rfl, hcalls⟩

theorem takes_report (base : String) (j : Journal) (o : CycleOutcome) (degraded : Int64) :
    Takes m v [] calls (fun x calls' => x = v.writing ∧
        ∃ r : Report, marks calls' = marks calls ++ [.writeReport r s.output] ∧
          r.get? "degraded_ranks" = some (.integer degraded) ∧
          r.degraded = decide (0 < degraded.toInt))
      (report s base j o degraded) := by
  unfold report
  have hclock : v.resolve calls (Site.work Work.wallClock) =
      .done (v.site calls (.work .wallClock), calls ++ [.work .wallClock]) := rfl
  refine (gives_site hclock).silent ?_
  rintro now _ ⟨-, rfl⟩
  extract_lets r r'
  have hcount : r'.get? "degraded_ranks" = some (.integer degraded) := by
    refine Report.get?_push fun x hx => ?_
    rcases List.mem_append.mp hx with hx | hx
    · exact Report.name_ofResults_ne _ _ _ _ _ x hx
    · rw [List.mem_singleton.mp hx]
      exact of_decide_eq_true rfl
  refine (gives_addSummaries j r').silent fun r'' calls' ⟨hr'', hcalls'⟩ => ?_
  have hwrite : v.resolve calls' (Site.writeReport r'' s.output) =
      .done (v.writing, calls' ++ [.writeReport r'' s.output]) := rfl
  refine (gives_tell _).silent ?_
  rintro _ _ rfl
  refine (takes_attempt hwrite).mono ?_
  rintro _ _ ⟨rfl, rfl⟩
  refine ⟨rfl, r'', ?_, ?_⟩
  · rw [marks_append, hcalls', marks_append]
    simp [marks, SiteCall.isMark]
  · rcases hr'' with rfl | ⟨count, rfl⟩
    · exact ⟨hcount, rfl⟩
    · exact ⟨Report.get?_push_of_some hcount, rfl⟩

end Experiment

end Lagmeter
