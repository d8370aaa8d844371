import Lagmeter.Proofs.Store.Depot

/-!
# A prefix of what was submitted

The dispatcher works through the queue from its front. So what can be read is what a prefix of the
submitted changes makes, and the rest of them is still queued. A marker goes through the same queue:
when a flush returns, everything that was submitted before it belongs to the prefix.
-/

namespace Lagmeter

/-- Listeners are told if and only if the change alters what is read, and each of them once. -/
def Notice.Fits (alters : Prop) (b : Book) : Notice → Prop
  | .quiet => ¬alters
  | .due => alters
  | .calling book told left => alters ∧ book <:+ b ∧ book.Lists (told ++ left)

theorem Notice.Fits.later {alters : Prop} {b b' : Book} {n : Notice} (h : n.Fits alters b)
    (hlater : b <:+ b') : n.Fits alters b' := by
  cases n with
  | quiet | due => exact h
  | calling book told left => exact ⟨h.1, h.2.1.trans hlater, h.2.2⟩

namespace Depot

variable {s : Structure}

/-- What is read after the first changes that were submitted. -/
def viewAt (d : Depot s) (k : Nat) : s.View := s.viewAfter ((d.submitted.take k).map Prod.fst)

/-- A flush was called before its marker was queued, and returned when the dispatcher had come to the
marker. -/
structure Answered (d : Depot s) (f : Flush) : Prop where
  called : f.before ≤ d.submitted.length
  queued : ∀ mark, f.mark = some mark →
    f.before ≤ mark ∧ mark ≤ d.submitted.length ∧ (f.ended = false → d.applied ≤ mark)
  returned : f.ended = true → ∃ mark, f.mark = some mark ∧ mark ≤ d.applied ∧
    (mark = d.applied → d.Idle)

structure Kept (delay : Span) (d : Depot s) : Prop where
  applied : d.applied ≤ d.submitted.length
  queue : d.replica.queue =
    (d.submitted.drop d.applied).map fun x => ⟨x.1, x.2 + delay.nanos⟩
  reads : s.view d.replica.contents = d.viewAt d.applied
  tidy : s.Tidy d.replica.contents
  patient : ∀ k x, k < d.applied → d.submitted[k]? = some x → x.2 + delay.nanos ≤ d.moments k
  lists : d.replica.Lists d.book
  notices : ∀ k x, k < d.applied → d.submitted[k]? = some x →
    (d.notices k).Fits (s.Alters (d.viewAt k) x.1) d.book
  past : ∀ k, k + 1 ≠ d.applied → (d.notices k).Over
  flushes : ∀ f ∈ d.flushes, d.Answered f

variable {delay : Span} {now : Nat} {d d' : Depot s} {m : Move s} {f : Flush}

theorem kept_new (delay : Span) : ({} : Depot s).Kept delay where
  applied := Nat.le_refl 0
  queue := rfl
  reads := rfl
  tidy := s.tidy_vacant
  patient := nofun
  lists := Replica.lists_new
  notices := nofun
  past _ _ := trivial
  flushes := nofun

/-! ## Changes -/

theorem Kept.submit (h : d.Kept delay) (c : s.Change) (moment : Nat) :
    ({ d with replica := d.replica.submit moment delay c, submitted := d.submitted ++ [(c, moment)] } :
      Depot s).Kept delay := by
  have hview {k : Nat} (hk : k ≤ d.submitted.length) :
      s.viewAfter (((d.submitted ++ [(c, moment)]).take k).map Prod.fst) = d.viewAt k := by
    rw [List.take_append_of_le_length hk]
    rfl
  have hold {k : Nat} {x : s.Change × Nat} (hk : k < d.applied)
      (hx : (d.submitted ++ [(c, moment)])[k]? = some x) : d.submitted[k]? = some x := by
    rwa [List.getElem?_append_left (Nat.lt_of_lt_of_le hk h.applied)] at hx
  constructor
  case applied => exact Nat.le_trans h.applied (by simp)
  case queue =>
    show d.replica.queue ++ [_] = ((d.submitted ++ [_]).drop d.applied).map _
    rw [h.queue, List.drop_append_of_le_length h.applied, List.map_append]
    rfl
  case reads => exact h.reads.trans (hview h.applied).symm
  case tidy => exact h.tidy
  case patient => exact fun k x hk hx => h.patient k x hk (hold hk hx)
  case lists => exact ⟨h.lists.sound, h.lists.listed, h.lists.issued⟩
  case notices =>
    intro k x hk hx
    have hfits := h.notices k x hk (hold hk hx)
    rw [← hview (Nat.le_of_lt (Nat.lt_of_lt_of_le hk h.applied))] at hfits
    exact hfits
  case past => exact h.past
  case flushes =>
    intro f hf
    have hanswered := h.flushes f hf
    have hlonger : d.submitted.length ≤ (d.submitted ++ [(c, moment)]).length := by simp
    refine ⟨Nat.le_trans hanswered.called hlonger, fun mark hmark => ?_, hanswered.returned⟩
    obtain ⟨hbefore, hmarked, hopen⟩ := hanswered.queued mark hmark
    exact ⟨hbefore, Nat.le_trans hmarked hlonger, hopen⟩

theorem Kept.next {c : Submitted s} {rest : List (Submitted s)} (h : d.Kept delay)
    (hqueue : d.replica.queue = c :: rest) : ∃ x, d.submitted[d.applied]? = some x ∧
      c = ⟨x.1, x.2 + delay.nanos⟩ ∧
      rest = (d.submitted.drop (d.applied + 1)).map fun x => ⟨x.1, x.2 + delay.nanos⟩ := by
  have hwaiting := hqueue.symm.trans h.queue
  cases hdrop : d.submitted.drop d.applied with
  | nil =>
    rw [hdrop] at hwaiting
    cases hwaiting
  | cons x more =>
    have hfirst : d.submitted[d.applied]? = some x := by
      rw [← Nat.add_zero d.applied, ← List.getElem?_drop, hdrop]
      rfl
    have hmore : d.submitted.drop (d.applied + 1) = more := by
      rw [← List.drop_drop, hdrop]
      rfl
    rw [hdrop, List.map_cons] at hwaiting
    obtain ⟨rfl, rfl⟩ := List.cons.inj hwaiting
    exact ⟨x, hfirst, rfl, by rw [hmore]⟩

theorem Kept.over_of_idle (h : d.Kept delay) (hidle : d.Idle) (k : Nat) : (d.notices k).Over := by
  by_cases hlast : k + 1 = d.applied
  · have hover : (d.notices (d.applied - 1)).Over := hidle
    rwa [← hlast] at hover
  · exact h.past k hlast

theorem Kept.lt_mark {mark : Nat} (h : d.Kept delay) (hunmarked : d.Unmarked) (hf : f ∈ d.flushes)
    (hmark : f.mark = some mark) (hwaiting : f.ended = false) : d.applied < mark := by
  obtain ⟨-, -, hopen⟩ := (h.flushes f hf).queued mark hmark
  refine Nat.lt_of_le_of_ne (hopen hwaiting) ?_
  rintro rfl
  exact Bool.noConfusion (hwaiting.symm.trans (hunmarked f hf hmark))

theorem Kept.answered_advance {tells : Bool} {replica : Replica s} (h : d.Kept delay)
    (hunmarked : d.Unmarked) (hf : f ∈ d.flushes) : (d.advance now tells replica).Answered f := by
  have hanswered := h.flushes f hf
  refine ⟨hanswered.called, fun mark hmark => ?_, fun hended => ?_⟩
  · obtain ⟨hbefore, hmarked, -⟩ := hanswered.queued mark hmark
    exact ⟨hbefore, hmarked, h.lt_mark hunmarked hf hmark⟩
  · obtain ⟨mark, hmark, hle, -⟩ := hanswered.returned hended
    exact ⟨mark, hmark, Nat.le_succ_of_le hle, fun heq =>
      absurd (heq ▸ hle) (Nat.not_succ_le_self _)⟩

theorem Kept.apply {c : Submitted s} {rest : List (Submitted s)} (h : d.Kept delay) (hidle : d.Idle)
    (hunmarked : d.Unmarked) (hqueue : d.replica.queue = c :: rest) (hdue : c.due ≤ now) :
    (d.advance now (s.applied d.replica.contents c.change).2
      { d.replica with
        contents := (s.applied d.replica.contents c.change).1, queue := rest }).Kept delay := by
  obtain ⟨x, hx, rfl, hrest⟩ := h.next hqueue
  have htells : (s.applied d.replica.contents x.1).2 = true ↔ s.Alters (d.viewAt d.applied) x.1 := by
    rw [← h.reads]
    exact Structure.applied_tells_iff ..
  constructor
  case applied => exact (List.getElem?_eq_some_iff.mp hx).1
  case queue => exact hrest
  case reads =>
    show s.view (s.applied d.replica.contents x.1).1 = s.viewAfter _
    rw [Structure.view_applied, h.reads]
    show _ = s.viewAfter ((d.submitted.take (d.applied + 1)).map Prod.fst)
    rw [List.take_add_one, hx, List.map_append]
    exact (Structure.viewAfter_concat ..).symm
  case tidy => exact Structure.tidy_applied h.tidy x.1
  case patient =>
    intro k y hk hy
    show _ ≤ Function.update d.moments d.applied now k
    rw [Function.update_apply]
    split
    case isTrue heq =>
      subst heq
      cases hx.symm.trans hy
      exact hdue
    case isFalse hne => exact h.patient k y (Nat.lt_of_le_of_ne (Nat.le_of_lt_succ hk) hne) hy
  case lists => exact ⟨h.lists.sound, h.lists.listed, h.lists.issued⟩
  case notices =>
    intro k y hk hy
    show (Function.update d.notices d.applied _ k).Fits _ _
    rw [Function.update_apply]
    split
    case isTrue heq =>
      subst heq
      cases hx.symm.trans hy
      split
      case isTrue htold => exact htells.mp htold
      case isFalse hquiet => exact fun halters => hquiet (htells.mpr halters)
    case isFalse hne => exact h.notices k y (Nat.lt_of_le_of_ne (Nat.le_of_lt_succ hk) hne) hy
  case past =>
    intro k hk
    have hne : k ≠ d.applied := fun heq => hk (congrArg (· + 1) heq)
    show (Function.update d.notices d.applied _ k).Over
    rw [Function.update_of_ne hne]
    exact h.over_of_idle hidle k
  case flushes => exact fun f hf => h.answered_advance hunmarked hf

/-! ## Flushes -/

theorem Kept.flush (h : d.Kept delay) :
    ({ d with flushes := d.flushes ++ [{ before := d.submitted.length }] } : Depot s).Kept delay := by
  refine { h with lists := ⟨h.lists.sound, h.lists.listed, h.lists.issued⟩, flushes := ?_ }
  intro f hf
  rcases List.mem_append.mp hf with hold | hnew
  · have hanswered := h.flushes f hold
    exact ⟨hanswered.called, hanswered.queued, hanswered.returned⟩
  · obtain rfl := List.mem_singleton.mp hnew
    exact ⟨Nat.le_refl _, nofun, nofun⟩

theorem Kept.setFlush {i : Nat} (h : d.Kept delay) (hf : d.Answered f) :
    ({ d with flushes := d.flushes.set i f } : Depot s).Kept delay := by
  refine { h with lists := ⟨h.lists.sound, h.lists.listed, h.lists.issued⟩, flushes := ?_ }
  intro g hg
  have hanswered : d.Answered g := by
    rcases List.mem_or_eq_of_mem_set hg with hold | rfl
    · exact h.flushes g hold
    · exact hf
  exact ⟨hanswered.called, hanswered.queued, hanswered.returned⟩

theorem Kept.mark {i before : Nat} (h : d.Kept delay)
    (hflush : d.flushes[i]? = some ⟨before, none, false⟩) :
    ({ d with flushes := d.flushes.set i ⟨before, some d.submitted.length, false⟩ } :
      Depot s).Kept delay := by
  have hcalled := (h.flushes _ (List.mem_of_getElem? hflush)).called
  refine h.setFlush ⟨hcalled, fun mark hmark => ?_, nofun⟩
  cases hmark
  exact ⟨hcalled, Nat.le_refl _, fun _ => h.applied⟩

theorem Kept.answer {i before : Nat} (h : d.Kept delay) (hidle : d.Idle)
    (hflush : d.flushes[i]? = some ⟨before, some d.applied, false⟩) :
    ({ d with flushes := d.flushes.set i ⟨before, some d.applied, true⟩ } : Depot s).Kept delay := by
  have hanswered := h.flushes _ (List.mem_of_getElem? hflush)
  refine h.setFlush ⟨hanswered.called, fun mark hmark => ?_, fun _ =>
    ⟨d.applied, rfl, Nat.le_refl _, fun _ => hidle⟩⟩
  obtain ⟨hbefore, hmarked, -⟩ := hanswered.queued mark hmark
  exact ⟨hbefore, hmarked, nofun⟩

/-! ## Listeners -/

theorem Kept.setNotice {n : Notice} (h : d.Kept delay) (hbusy : ¬d.Idle)
    (hfits : ∀ alters, (d.notices (d.applied - 1)).Fits alters d.book → n.Fits alters d.book) :
    (d.setNotice n).Kept delay := by
  have hpositive : d.applied ≠ 0 := fun hzero => hbusy (h.past _ (by omega))
  refine { h with
    lists := ⟨h.lists.sound, h.lists.listed, h.lists.issued⟩, notices := ?_, past := ?_, flushes := ?_ }
  · intro k x hk hx
    show (Function.update d.notices (d.applied - 1) n k).Fits _ _
    have hold := h.notices k x hk hx
    rw [Function.update_apply]
    split
    case isTrue heq =>
      subst heq
      exact hfits _ hold
    case isFalse => exact hold
  · intro k hk
    show (Function.update d.notices (d.applied - 1) n k).Over
    rw [Function.update_of_ne (show k ≠ d.applied - 1 from fun heq => hk (by
      show k + 1 = d.applied
      omega))]
    exact h.past k hk
  · intro f hf
    have hanswered := h.flushes f hf
    refine ⟨hanswered.called, hanswered.queued, fun hended => ?_⟩
    obtain ⟨mark, hmark, hle, hidle⟩ := hanswered.returned hended
    exact ⟨mark, hmark, hle, fun heq => absurd (hidle heq) hbusy⟩

theorem Kept.look (h : d.Kept delay) (hdue : d.notices (d.applied - 1) = .due) :
    (d.setNotice (.calling d.book [] d.replica.listeners)).Kept delay := by
  refine h.setNotice (fun hidle => ?_) fun alters hfits => ?_
  · rw [Idle, hdue] at hidle
    exact hidle
  · rw [hdue] at hfits
    exact ⟨hfits, List.suffix_rfl, h.lists.listed⟩

theorem Kept.call {book : Book} {x : Nat × Nat} {told left : List (Nat × Nat)} (h : d.Kept delay)
    (hcalling : d.notices (d.applied - 1) = .calling book told (x :: left)) :
    (d.setNotice (.calling book (told ++ [x]) left)).Kept delay := by
  refine h.setNotice (fun hidle => ?_) fun alters hfits => ?_
  · rw [Idle, hcalling] at hidle
    cases hidle
  · rw [hcalling] at hfits
    obtain ⟨halters, hearlier, hlists⟩ := hfits
    refine ⟨halters, hearlier, ?_⟩
    rw [List.append_assoc]
    exact hlists

theorem Kept.enroll {c : Book.Entry} {replica : Replica s} (h : d.Kept delay)
    (hlists : replica.Lists (c :: d.book)) (hqueue : replica.queue = d.replica.queue)
    (hcontents : replica.contents = d.replica.contents) :
    ({ d with replica, book := c :: d.book } : Depot s).Kept delay where
  applied := h.applied
  queue := hqueue.trans h.queue
  reads := (congrArg s.view hcontents).trans h.reads
  tidy := hcontents ▸ h.tidy
  patient := h.patient
  lists := hlists
  notices k x hk hx := (h.notices k x hk hx).later (List.suffix_cons ..)
  past := h.past
  flushes f hf :=
    have hanswered := h.flushes f hf
    ⟨hanswered.called, hanswered.queued, hanswered.returned⟩

/-! ## Moves -/

theorem Kept.act (h : d.Kept delay) (hact : d.act delay now m = some d') : d'.Kept delay := by
  cases turn_of_act hact with
  | submit c moment => exact h.submit c moment
  | flush => exact h.flush
  | mark i before hflush => exact h.mark hflush
  | answer i before hidle hflush => exact h.answer hidle hflush
  | apply c rest hidle hunmarked hqueue hdue => exact h.apply hidle hunmarked hqueue hdue
  | look hdue => exact h.look hdue
  | call book x told left hcalling => exact h.call hcalling
  | listen who => exact h.enroll (h.lists.listen who) rfl rfl
  | unlisten number => exact h.enroll (h.lists.unlisten number) rfl rfl

/-- The dispatcher does not get stuck. -/
theorem Kept.dispatches (h : d.Kept delay) (hopen : ¬d.Idle ∨ d.applied < d.submitted.length ∨
    ∃ f ∈ d.flushes, f.ended = false ∧ f.mark.isSome) :
    ∃ now m d', m.Dispatches ∧ d.act delay now m = some d' := by
  by_cases hidle : d.Idle
  case neg =>
    cases hnotice : d.notices (d.applied - 1) with
    | quiet => exact absurd (by rw [Idle, hnotice]; trivial) hidle
    | due => exact ⟨0, .look, _, trivial, by rw [Depot.act, hnotice]⟩
    | calling book told left =>
      cases left with
      | nil => exact absurd (by rw [Idle, hnotice]; rfl) hidle
      | cons x left => exact ⟨0, .call, _, trivial, by rw [Depot.act, hnotice]⟩
  case pos =>
    by_cases hunmarked : d.Unmarked
    case neg =>
      simp only [Unmarked, not_forall] at hunmarked
      obtain ⟨⟨before, mark, ended⟩, hf, rfl, hended⟩ := hunmarked
      obtain ⟨i, hi⟩ := List.mem_iff_getElem?.mp hf
      obtain rfl : ended = false := Bool.eq_false_of_not_eq_true hended
      exact ⟨0, .answer i, _, trivial, by rw [Depot.act, hi]; exact if_pos ⟨hidle, rfl⟩⟩
    case pos =>
      have hmore : d.applied < d.submitted.length := by
        rcases hopen with hbusy | hmore | ⟨f, hf, hended, hmarked⟩
        · exact absurd hidle hbusy
        · exact hmore
        · obtain ⟨mark, hmark⟩ := Option.isSome_iff_exists.mp hmarked
          obtain ⟨-, hle, -⟩ := (h.flushes f hf).queued mark hmark
          exact Nat.lt_of_lt_of_le (h.lt_mark hunmarked hf hmark hended) hle
      cases hqueue : d.replica.queue with
      | nil =>
        have hnone := congrArg List.length (hqueue.symm.trans h.queue)
        rw [List.length_nil, List.length_map, List.length_drop] at hnone
        omega
      | cons c rest =>
        have hadvance : d.replica.advance? c.due =
            some ({ d.replica with queue := rest }.apply c.change) := by
          rw [Replica.advance?, hqueue]
          exact if_pos (Nat.le_refl _)
        exact ⟨c.due, .apply, _, trivial, by
          rw [Depot.act, if_pos ⟨hidle, hunmarked⟩, hqueue, hadvance]⟩

end Depot

end Lagmeter
