import Lagmeter.Proofs.Json.Values

/-!
# Values that survive

A value survives if what is written for it can be read, and is read as this value. Lists, options, records
and maps from numbers survive with what they hold.
-/

namespace Lagmeter.Json

/-- Whether a value is written readably and read back as it was. -/
structure Survives {α : Type} (write : α → Json) (read? : Json → Option α) (a : α) : Prop where
  readable : Readable (write a)
  read_eq : read? (write a) = some a

/-! ## Single values -/

theorem survives_text (s : String) : Survives ofText text? s :=
  ⟨.text (isRaw_escape s.toList), text?_ofText s⟩

theorem survives_bool (b : Bool) : Survives ofBool bool? b := ⟨.bool b, rfl⟩

theorem survives_word {n : Nat} (h : n ≤ Numeral.maxWord) : Survives ofNat word? n :=
  ⟨ofNat_eq n ▸ .number (isNumber_toDigits n), word?_ofNat h⟩

/-- Whether a finite number is read as it was written. -/
def Faithful (x : Double) : Prop := (ofDouble x).double? = some x

instance (x : Double) : Decidable (Faithful x) := inferInstanceAs (Decidable (_ = _))

-- The digits and their power are rounded one after the other, which is not always the nearest number.
example : Faithful 0.1 ∧ ¬ Faithful 1.2345678901234567e-30 := by decide +kernel

theorem readable_double {x : Double} (hfinite : x.isFinite = true) : Readable (ofDouble x) := by
  obtain ⟨l, hl, -⟩ := isReal_write hfinite
  rw [ofDouble, if_pos hfinite]
  exact .number ⟨l, hl⟩

/-- A number that structured data can hold and gives back. -/
structure Lasting (x : Double) : Prop where
  finite : x.isFinite = true
  faithful : Faithful x

theorem survives_double {x : Double} (h : Lasting x) : Survives ofDouble double? x :=
  ⟨readable_double h.finite, h.faithful⟩

theorem integer?_ofDouble {x : Double} (hfinite : x.isFinite = true) : (ofDouble x).integer? = none := by
  obtain ⟨l, hl, htail⟩ := isReal_write hfinite
  rw [ofDouble, if_pos hfinite, ← hl]
  exact integer?_of_tail htail

/-! ## Lists and options -/

section

variable {α β : Type} {write : α → Json} {read? : Json → Option α} {xs : List α}

theorem mapM_map_eq_some {γ : Type} {f : β → γ} {g : γ → Option α} {h : β → α} {ys : List β}
    (hread : ∀ y ∈ ys, g (f y) = some (h y)) : (ys.map f).mapM g = some (ys.map h) := by
  induction ys with
  | nil => rfl
  | cons y ys ih =>
    rw [List.map_cons, List.mapM_cons, hread y List.mem_cons_self,
      ih fun z hz => hread z (List.mem_cons_of_mem y hz)]
    rfl

theorem mapM_map_self {f : α → β} {g : β → Option α} (hread : ∀ x ∈ xs, g (f x) = some x) :
    (xs.map f).mapM g = some xs := by
  rw [mapM_map_eq_some (h := id) hread, List.map_id]

theorem survives_list (h : ∀ x ∈ xs, Survives write read? x) :
    Survives (ofList write) (items? read?) xs where
  readable := by
    refine .list fun j hj => ?_
    obtain ⟨x, hx, rfl⟩ := List.mem_map.mp hj
    exact (h x hx).readable
  read_eq := by
    rw [ofList, items?, mapM_map_self fun x hx => (h x hx).read_eq]

theorem survives_option {o : Option α} (h : ∀ a ∈ o, Survives write read? a) (hnull : ∀ a, write a ≠ .null) :
    Survives (ofOption write) (optional? read?) o := by
  cases o with
  | none => exact ⟨.null, rfl⟩
  | some a =>
    refine ⟨(h a rfl).readable, ?_⟩
    have hread : optional? read? (write a) = (read? (write a)).map some := by
      unfold optional?
      split
      case h_1 hwrite => exact absurd hwrite (hnull a)
      case h_2 => rfl
    rw [ofOption, hread, (h a rfl).read_eq, Option.map_some]

/-! ## Records -/

variable {fields : List (String × Json)}

theorem readable_record (h : ∀ f ∈ fields, Readable f.2) : Readable (record fields) := by
  refine .object (fun m hm => ?_) fun m hm => ?_ <;> obtain ⟨f, hf, rfl⟩ := List.mem_map.mp hm
  · exact isRaw_escape f.1.toList
  · exact h f hf

theorem filter_name (hnodup : (fields.map Prod.fst).Nodup) {f : String × Json} (hf : f ∈ fields) :
    (fields.filter fun m => m.1 = f.1).map Prod.snd = [f.2] := by
  induction fields with
  | nil => cases hf
  | cons g fields ih =>
    rw [List.map_cons, List.nodup_cons] at hnodup
    rcases List.mem_cons.mp hf with rfl | hf
    · have hrest : fields.filter (fun m => decide (m.1 = f.1)) = [] := by
        rw [List.filter_eq_nil_iff]
        intro m hm hname
        exact hnodup.1 (of_decide_eq_true hname ▸ List.mem_map_of_mem hm)
      rw [List.filter_cons_of_pos (by simp), hrest, List.map_singleton]
    · have hname : g.1 ≠ f.1 := fun h => hnodup.1 (h ▸ List.mem_map_of_mem hf)
      rw [List.filter_cons_of_neg (by simpa using hname), ih hnodup.2 hf]

theorem fields?_record (hnodup : (fields.map Prod.fst).Nodup) :
    fields? (fields.map Prod.fst) (record fields) = some (fields.map fun f => some f.2) := by
  have hnamed : named? (fields.map fun f => (escape f.1.toList, f.2)) = some fields := by
    refine mapM_map_self fun f _ => ?_
    simp only [unescape?_escape, Option.map_some, String.ofList_toList]
  have hvalue : ∀ f ∈ fields, valueOf? fields f.1 = some (some f.2) := by
    intro f hf
    rw [valueOf?, filter_name hnodup hf]
  rw [record, fields?, hnamed, Option.bind_some, mapM_map_eq_some hvalue]

/-! ## Maps from numbers -/

variable {entries : List (Nat × α)}

theorem foldl_replaced (kept : List (Nat × α)) (h : (kept ++ entries).Pairwise (·.1 < ·.1)) :
    entries.foldl replaced kept = kept ++ entries := by
  induction entries generalizing kept with
  | nil => rw [List.foldl_nil, List.append_nil]
  | cons e entries ih =>
    have hkept : kept.filter (fun m => decide (m.1 ≠ e.1)) = kept := by
      rw [List.filter_eq_self]
      intro m hm
      have hlt := (List.pairwise_append.mp h).2.2 m hm e List.mem_cons_self
      exact decide_eq_true (Nat.ne_of_lt hlt)
    have happend : kept ++ e :: entries = kept ++ [e] ++ entries := by simp
    rw [List.foldl_cons, replaced, hkept, ih (kept ++ [e]) (happend ▸ h), happend]

theorem byNumber_eq_self (h : entries.Pairwise (·.1 < ·.1)) : byNumber entries = entries := by
  rw [byNumber, foldl_replaced [] h, List.nil_append]
  exact List.mergeSort_of_pairwise (h.imp fun hlt => decide_eq_true (Nat.le_of_lt hlt))

theorem survives_numbered (hsorted : entries.Pairwise (·.1 < ·.1))
    (hkeys : ∀ e ∈ entries, e.1 ≤ Numeral.maxWord) (h : ∀ e ∈ entries, Survives write read? e.2) :
    Survives (ofNumbered write) (numbered? read?) entries where
  readable := by
    refine .object (fun m hm => ?_) fun m hm => ?_ <;> obtain ⟨e, he, rfl⟩ := List.mem_map.mp hm
    · have hdigits : IsDigits (toString e.1).toList := toList_toString e.1 ▸ isDigits_toDigits e.1
      exact isRaw_digits hdigits
    · exact (h e he).readable
  read_eq := by
    have hpair : ∀ e ∈ entries, pair? read? ((toString e.1).toList, write e.2) = some e := by
      intro e he
      simp only [pair?, toList_toString, nameWord?_toDigits (hkeys e he), (h e he).read_eq]
      rfl
    rw [ofNumbered, numbered?, mapM_map_self hpair, Option.map_some, byNumber_eq_self hsorted]

end

end Lagmeter.Json
