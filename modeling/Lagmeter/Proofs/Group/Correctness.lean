import Lagmeter.Proofs.Group.Attendance
import Lagmeter.Proofs.Group.Net

/-!
# Collective operations are correct

All ranks of a group make the same requests, each with values of its own, and each gives its link up
right after its last one. Whatever order they take their steps in, they all come to their ends, with
what the reference says.
-/

namespace Lagmeter

namespace Request

theorem check_eq_ok {m : Member} {q : Request} (h : ∀ rank, q.rank? = some rank → rank < m.size) :
    q.check m = .ok () := by
  rw [check]
  cases hrank : q.rank? with
  | none => rfl
  | some rank => simp only [if_pos (h rank hrank)]

/-- What rank `r` of a group gets for its requests, where rank `q` makes the requests
`scripts q`. -/
def references (size : Nat) (scripts : Nat → List Request) (r : Nat) :
    List (Except GroupError Yield) :=
  (scripts r).mapIdx fun i own =>
    .ok (own.reference size (fun q => (scripts q).getD i .barrier) r)

end Request

namespace Assembly

open Exchange

variable {C : Carrier} {g : Roster} {base : Nat} {scripts : Nat → List Request}
  {s : Assembly C Silent (List (Except GroupError Yield))}

/-- All ranks make the same requests, and no request names a rank outside the group. -/
structure Concerted (g : Roster) (scripts : Nat → List Request) : Prop where
  alike : ∀ r < g.size, List.Forall₂ Request.Alike (scripts 0) (scripts r)
  valid : ∀ q ∈ scripts 0, ∀ rank, q.rank? = some rank → rank < g.size

namespace Concerted

variable (h : Concerted g scripts) {r i : Nat}

include h

theorem length_eq (hr : r < g.size) : (scripts r).length = (scripts 0).length :=
  (h.alike r hr).length_eq.symm

theorem alike_getD (hr : r < g.size) (hi : i < (scripts 0).length) :
    ((scripts 0).getD i .barrier).Alike ((scripts r).getD i .barrier) := by
  have hir : i < (scripts r).length := h.length_eq hr ▸ hi
  have halike := (h.alike r hr).get hi hir
  simpa [List.getD_eq_getElem?_getD, hi, hir] using halike

theorem check_eq_ok (hr : r < g.size) : ∀ q ∈ scripts r, q.check (g.member r) = .ok () := by
  intro q hq
  obtain ⟨i, hi, rfl⟩ := List.getElem_of_mem hq
  have hi0 : i < (scripts 0).length := h.length_eq hr ▸ hi
  have halike : (scripts 0)[i].Alike (scripts r)[i] := (h.alike r hr).get hi0 hi
  refine Request.check_eq_ok fun rank hrank => ?_
  rw [halike.rank?_eq] at hrank
  exact h.valid _ (List.getElem_mem hi0) rank hrank

/-- A rank that has left has come to all its exchanges, and made of them what its requests make of them. -/
theorem history_of_gone {t : C.State}
    (hs : Reaches g (start t (fun q => (Program.ofList (scripts q)).plan (g.member q)) base) s)
    (hr : r < g.size) {xs : List (Except GroupError Yield)}
    (hgone : (s.rank r).stage = .gone (some xs)) :
    (s.rank r).entered = (scripts r).map (·.offer (g.member r)) ∧
      (s.rank r).results.length = (scripts r).length ∧
      xs = List.zipWith (fun q x => x.bind (q.finish (g.member r))) (scripts r)
        (s.rank r).results := by
  have hkeeps := keeps_of_reaches hs r
  unfold Rank.Keeps at hkeeps
  rw [hgone] at hkeeps
  obtain ⟨_, ⟨⟩, hleads⟩ := hkeeps
  rw [← Dialogue.bind_done (Program.ofList (scripts r))] at hleads
  exact Program.leads_ofList (scripts r) (h.check_eq_ok hr) (fun xs => xs) hleads

theorem result_of_gone {l : Lines} {w : Nat → Station} {t : C.State} (hw : InStep g base s l w)
    (hs : Reaches g (start t (fun q => (Program.ofList (scripts q)).plan (g.member q)) base) s)
    (hgone : ∀ q < g.size, ∃ xs, (s.rank q).stage = .gone (some xs)) (hr : r < g.size) :
    (s.rank r).stage = .gone (some (Request.references g.size scripts r)) := by
  obtain ⟨xs, hxs⟩ := hgone r hr
  obtain ⟨-, hlength, rfl⟩ := h.history_of_gone hs hr hxs
  rw [hxs]
  congr 2
  refine List.ext_getElem (by simp [Request.references, hlength]) fun i hi _ => ?_
  rw [List.length_zipWith, hlength, Nat.min_self] at hi
  have hi0 : i < (scripts 0).length := h.length_eq hr ▸ hi
  have hgranted := Request.granted_of_alike (fun q => (scripts q).getD i .barrier) (by omega)
    (fun q hq => h.alike_getD hq hi0) (h.valid _ (by simp [List.getD_eq_getElem?_getD, hi0]))
  -- All ranks came to exchange `i` with the requests that the reference is about.
  have hoffers : ∀ q < g.size,
      s.offers i q = some (((scripts q).getD i .barrier).offer (g.member q)) := by
    intro q hq
    obtain ⟨ys, hys⟩ := hgone q hq
    have hiq : i < (scripts q).length := h.length_eq hq ▸ hi0
    rw [offers, (h.history_of_gone hs hq hys).1]
    simp [List.getD_eq_getElem?_getD, hiq]
  have hresult : i < (s.rank r).results.length := hlength ▸ hi
  have hfinish := hw.granted hgranted hoffers hr (List.getElem?_eq_getElem hresult)
  rw [List.getElem_zipWith]
  simpa [Request.references, List.getD_eq_getElem?_getD, hi] using hfinish

end Concerted

end Assembly

/-! ## Every order of steps -/

namespace Net

variable {C : Carrier} {g : Roster}

def start (g : Roster) (t : C.State) (scripts : Nat → List Request) (base : Nat) :
    Net C (List (Except GroupError Yield)) :=
  ⟨t, fun q => (Program.ofList (scripts q)).talk (g.member q) base⟩

theorem mirrors_start (t : C.State) (scripts : Nat → List Request) (base : Nat) :
    Assembly.Mirrors g
      (.start t (fun q => (Program.ofList (scripts q)).plan (g.member q)) base)
      (start g t scripts base) :=
  ⟨rfl, fun q _ => (Program.talk_plan (g.member q) (Program.ofList (scripts q)) base).symm⟩

theorem Reaches.talk_eq {α : Type} {size r : Nat} {n n' : Net C α} (h : n.Reaches size n') {a : α}
    (ha : n.talk r = .done a) : n'.talk r = .done a := by
  induction h with
  | refl => exact ha
  | tail _ hstep ih =>
    obtain ⟨q, -, call, go, b, t', htalk, -, rfl⟩ := hstep
    by_cases hq : r = q
    · subst hq
      rw [ih] at htalk
      cases htalk
    · simpa only [Function.update_of_ne hq] using ih

/-- Ranks in concert over a faithful carrier all come to their ends, each with what the reference says. -/
theorem reference_of_concerted {lines : C.State → Lines} (hC : C.Faithful g.size lines)
    {t : C.State} (ht : (lines t).Fresh g.size) {scripts : Nat → List Request}
    (h : Assembly.Concerted g scripts) (base : Nat) :
    WellFounded (fun n' n : Net C (List (Except GroupError Yield)) => n.Step g.size n') ∧
    ∀ n, (start g t scripts base).Reaches g.size n →
      ((∃ n', n.Step g.size n') ∨
        ∀ r < g.size, n.talk r = .done (Request.references g.size scripts r)) ∧
      ∀ r < g.size, ∀ xs, n.talk r = .done xs → xs = Request.references g.size scripts r := by
  have hend (n : Net C (List (Except GroupError Yield)))
      (hn : (start g t scripts base).Reaches g.size n) : (∃ n', n.Step g.size n') ∨
        ∀ r < g.size, n.talk r = .done (Request.references g.size scripts r) := by
    obtain ⟨s, hs, hmirrors⟩ := (mirrors_start t scripts base).reaches hn
    obtain ⟨w, hw⟩ := Assembly.inStep_of_reaches hC ht hs
    refine (hmirrors.progress hC hw).imp_right ?_
    rintro ⟨s', hreach, hmirrors', hgone⟩ r hr
    have hs' := Relation.ReflTransGen.trans hs hreach
    obtain ⟨w', hw'⟩ := Assembly.inStep_of_reaches hC ht hs'
    exact hmirrors'.talk_of_gone hr (h.result_of_gone hw' hs' hgone hr)
  refine ⟨wellFounded_step, fun n hn => ⟨hend n hn, ?_⟩⟩
  intro r hr xs hxs
  -- The run goes on to an end, where rank `r` still has what it has now.
  have hwf : WellFounded fun n' n : Net C (List (Except GroupError Yield)) => n.Step g.size n' :=
    wellFounded_step
  induction n using hwf.induction with
  | _ n ih =>
  rcases hend n hn with ⟨n', hstep⟩ | hdone
  · exact ih n' hstep (Relation.ReflTransGen.tail hn hstep)
      (Reaches.talk_eq (.single hstep) hxs)
  · have hboth := (hdone r hr).symm.trans hxs
    cases hboth
    rfl

/-- A pair of ranks that add 3 and 4, and put two lists together. -/
def sumThenGather (r : Nat) : List Request :=
  [.reduce .sum (if r = 0 then 3 else 4) 0, .gather [if r = 0 then 10 else 20] 1]

theorem reference_of_sumThenGather :
    Request.references 2 sumThenGather 0 = [.ok (.word 7), .ok (.gathered none)] ∧
      Request.references 2 sumThenGather 1 = [.ok (.word 4), .ok (.gathered (some [10, 20]))] ∧
      WellFounded (fun n' n : Net (Mesh.carrier 2) (List (Except GroupError Yield)) =>
        n.Step 2 n') ∧
      ∀ n, (start Assembly.pair (Mesh.fresh 2) sumThenGather 0).Reaches 2 n →
        ((∃ n', n.Step 2 n') ∨
          ∀ r < 2, n.talk r = .done (Request.references 2 sumThenGather r)) ∧
        ∀ r < 2, ∀ xs, n.talk r = .done xs → xs = Request.references 2 sumThenGather r := by
  have hconcerted : Assembly.Concerted Assembly.pair sumThenGather := by
    refine ⟨fun r _ => .cons (.reduce _ _ _ _) (.cons (.gather _ _ _ rfl) .nil), ?_⟩
    intro q hq rank hrank
    have htwo : q = (sumThenGather 0)[0] ∨ q = (sumThenGather 0)[1] := by
      simpa [sumThenGather] using hq
    rcases htwo with rfl | rfl
    · cases hrank
      decide
    · cases hrank
      decide
  exact ⟨rfl, rfl, reference_of_concerted (Mesh.faithful 2) (Mesh.fresh_lines 2) hconcerted 0⟩

end Net

end Lagmeter
