import Lagmeter.Proofs.Group.Mesh
import Lagmeter.Proofs.Group.Program

/-!
# Runs by turns

A run of a group in one process can be given as the list of the ranks whose turn it is. A rank that
has to wait, or has left, lets its turn pass. A rank may also vanish.
-/

namespace Lagmeter

namespace Mesh

/-- What the mesh answers, unless the rank has to wait. -/
def answer? {size : Nat} (m : (carrier size).State) {rank : Nat} (hr : rank < size)
    (call : LinkCall) : Option (call.Answer × (carrier size).State) :=
  match h : m.1.perform rank call with
  | .answered a next _ => some (a, ⟨next, by
    have hobeys := obeys_perform m hr call
    rw [h] at hobeys
    exact hobeys.1⟩)
  | .wait _ => none

theorem answers_of_answer? {size rank : Nat} {m m' : (carrier size).State} {hr : rank < size}
    {call : LinkCall} {a : call.Answer} (h : answer? m hr call = some (a, m')) :
    (carrier size).Answers m rank call a m' := by
  unfold answer? at h
  split at h
  · rename_i b next raised hcall
    cases h
    exact ⟨raised, hcall⟩
  · cases h

end Mesh

namespace Assembly

variable {α : Type} {g : Roster}

/-- The ranks of a group in one process, at the start of their programs. -/
def inProcess (g : Roster) (programs : Nat → Program α) (base : Nat) :
    Assembly (Mesh.carrier g.size) Silent α :=
  start (Mesh.fresh g.size) (fun q => (programs q).plan (g.member q)) base

/-- The turn of rank `r`: at most one step. -/
def turn (g : Roster) (s : Assembly (Mesh.carrier g.size) Silent α) (r : Nat) :
    Assembly (Mesh.carrier g.size) Silent α :=
  if hr : r < g.size then
    match (s.rank r).stage with
    | .free (.done a) => match Mesh.answer? s.carrier hr .leave with
      | some (_, t) => s.put r t { s.rank r with stage := .gone (some a) }
      | none => s
    | .free (.ask (.exchange ρ) next) => s.put r s.carrier { s.rank r with
      stage := .busy ρ (ρ.dialogue (g.member r) (s.rank r).sequence) next
      entered := (s.rank r).entered ++ [ρ] }
    | .busy _ (.done (result, sequence)) next => s.put r s.carrier { s.rank r with
      stage := .free (next result), sequence, results := (s.rank r).results ++ [result] }
    | .busy ρ (.ask call go) next => match Mesh.answer? s.carrier hr call with
      | some (a, t) => s.put r t { s.rank r with stage := .busy ρ (go a) next }
      | none => s
    | .gone _ => s
  else s

def pair : Roster := ⟨2, fun _ => "a"⟩

/-- Turns of the given ranks, one after the other. -/
def turns (g : Roster) (s : Assembly (Mesh.carrier g.size) Silent α) (ranks : List Nat) :
    Assembly (Mesh.carrier g.size) Silent α :=
  ranks.foldl (turn g) s

theorem reaches_turn (s : Assembly (Mesh.carrier g.size) Silent α) (r : Nat) :
    Reaches g s (s.turn g r) := by
  unfold turn
  by_cases hr : r < g.size
  · have hact {t' : (Mesh.carrier g.size).State} {x' : Rank Silent α}
        (h : Act g r s.carrier (s.rank r) t' x') : Reaches g s (s.put r t' x') :=
      .single ⟨r, hr, t', x', h, rfl⟩
    rw [dif_pos hr]
    split
    · rename_i a hstage
      split
      · rename_i t hanswer
        exact hact (.leave a t hstage (Mesh.answers_of_answer? hanswer))
      · exact .refl
    · rename_i ρ next hstage
      exact hact (.enter ρ next hstage)
    · rename_i ρ result sequence next hstage
      exact hact (.conclude ρ result sequence next hstage)
    · rename_i ρ call go next hstage
      split
      · rename_i a t hanswer
        exact hact (.talk ρ call go next a t hstage (Mesh.answers_of_answer? hanswer))
      · exact .refl
    · exact .refl
  · rw [dif_neg hr]
    exact .refl

theorem reaches_turns (s : Assembly (Mesh.carrier g.size) Silent α) (ranks : List Nat) :
    Reaches g s (s.turns g ranks) := by
  induction ranks generalizing s with
  | nil => exact .refl
  | cons r ranks ih => exact (reaches_turn s r).trans (ih _)

theorem Reaches.falters {C : Carrier} {J : Interface} {s s' : Assembly C J α} (h : Reaches g s s') :
    Relation.ReflTransGen (Falter g) s s' := by
  induction h with
  | refl => exact .refl
  | tail _ hstep ih =>
    obtain ⟨r, hr, t', x', hact, rfl⟩ := hstep
    exact ih.tail ⟨r, hr, t', x', .inl hact, rfl⟩

def vanish (g : Roster) (s : Assembly (Mesh.carrier g.size) Silent α) (r : Nat) :
    Assembly (Mesh.carrier g.size) Silent α :=
  if hr : r < g.size then
    match Mesh.answer? s.carrier hr .leave with
    | some (_, t) => s.put r t { s.rank r with stage := .gone none }
    | none => s
  else s

theorem falters_vanish (s : Assembly (Mesh.carrier g.size) Silent α) (r : Nat) :
    Relation.ReflTransGen (Falter g) s (s.vanish g r) := by
  unfold vanish
  by_cases hr : r < g.size
  · rw [dif_pos hr]
    split
    · rename_i t hanswer
      exact .single ⟨r, hr, _, _, .inr (.vanish t (Mesh.answers_of_answer? hanswer)), rfl⟩
    · exact .refl
  · rw [dif_neg hr]

end Assembly

end Lagmeter
