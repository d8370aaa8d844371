import Lagmeter.Proofs.Experiment.Stages

/-!
# Experiments of whole groups

Where all ranks of a group are there, an experiment goes on to its end on all of them, in step,
whatever structures cannot be opened and whichever calls of the nodes fail. The root counts the ranks
that have failures. Where the roles do not fit the group, nobody begins.
-/

namespace Lagmeter.Experiment

variable {g : Roster} {venue : Nat → Venue} {s : Settings} {rounds r : Nat}

/-! ## Courses -/

def journal (g : Roster) (s : Settings) (r : Nat) : Journal :=
  ⟨s.logDirectory, s.effectiveTag, g.member r⟩

/-- What rank `r` does in the cycle. -/
def agenda (g : Roster) (s : Settings) (venue : Nat → Venue) (rounds : Nat) : Nat → Agenda :=
  Cycle.agenda g (cyclePlan s rounds) (Expedition.conduct venue) (journal g s)

/-- The collective operations of an experiment. -/
def script (g : Roster) (s : Settings) (venue : Nat → Venue) (rounds : Nat) (hsize : 0 < g.size) :
    List (Nat → Request) :=
  naming s venue ++ bringKeys s venue hsize :: (fun _ => .barrier) ::
    ((agenda g s venue rounds 0).script true ++ [bringCount s venue])

def course (g : Roster) (s : Settings) (venue : Nat → Venue) (rounds : Nat) (hsize : 0 < g.size)
    (r : Nat) : Course :=
  along g.size (naming s venue) r ++ .ask (.ofRank true g.size (bringKeys s venue hsize) r) ::
    .ask ⟨.barrier, some .nothing⟩ ::
    ((agenda g s venue rounds r).course true g.size r ++
      [.ask (.ofRank true g.size (bringCount s venue) r)])

theorem asks_course (hsize : 0 < g.size) (r : Nat) :
    (course g s venue rounds hsize r).asks =
      (script g s venue rounds hsize).map fun all => .ofRank true g.size all r := by
  have hcycle : (agenda g s venue rounds 0).script true = (agenda g s venue rounds r).script true :=
    Agenda.script_ofCycle _ _ _ _
  simp only [course, script, along, Course.asks_append, Course.asks_map_ask, Course.asks_ask,
    Course.asks_nil, Agenda.asks_course, hcycle, List.map_append, List.map_cons, List.map_nil]
  rfl

theorem granted_script (hsize : 0 < g.size) :
    ∀ all ∈ script g s venue rounds hsize, Request.Granted g all := by
  have hnaming : ∀ all ∈ naming s venue, Request.Granted g all := by
    unfold naming
    cases s.mapName with
    | some name => nofun
    | none => exact List.forall_mem_singleton.mpr (Request.granted_broadcastValue _ hsize)
  have hcount : Request.Granted g (bringCount s venue) := Request.granted_reduce .sum _ 0 hsize
  rw [script]
  simp only [List.forall_mem_append, List.forall_mem_cons]
  exact ⟨hnaming, granted_bringKeys hsize, Request.granted_barrier,
    Agenda.granted_ofCycle hsize _ _, hcount, nofun⟩

/-- How many collective operations an experiment has. -/
def operations (size : Nat) (s : Settings) : Nat :=
  (if s.mapName.isNone then 1 else 0) + Agenda.operations size s.setupMode + 3

/-- The fault of a rank whose group is too small. -/
def shortage (s : Settings) (size : Nat) : Fault :=
  ⟨["Role assignment does not fit the group", (Shortage.mk s.plan.required size).message]⟩

end Lagmeter.Experiment
