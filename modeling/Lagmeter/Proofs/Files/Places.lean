import Lagmeter.Proofs.Files.Paths
import Mathlib.Data.List.Nodup

/-!
# Places of a file system

What is at a place changes only where something is put. Directories are made along a path and nowhere
else, and a path whose directories are there leads to the place of its names.
-/

namespace Lagmeter.Files

open Lagmeter.Path

variable {fs : Files} {p q place : List String} {names : List String} {e : Entry}

/-! ## Putting -/

/-- Every place is listed once. -/
def Tidy (fs : Files) : Prop := (fs.entries.map Prod.fst).Nodup

theorem node?_of_ne_nil (fs : Files) (h : p ≠ []) : fs.node? p = fs.entries.lookup p := if_neg h

/-- Entries after what is at a place was replaced. -/
def replaced (entries : List (List String × Entry)) (p : List String) (e : Entry) :
    List (List String × Entry) :=
  entries.map fun (r, old) => if r = p then (r, e) else (r, old)

theorem lookup_replaced_self (entries : List (List String × Entry)) (p : List String) (e : Entry) :
    (replaced entries p e).lookup p = (entries.lookup p).map fun _ => e := by
  induction entries with
  | nil => rfl
  | cons x entries ih =>
    obtain ⟨r, old⟩ := x
    by_cases hr : p = r
    · simp [replaced, hr]
    · rw [replaced] at ih ⊢
      simp [List.lookup_cons, Ne.symm hr, beq_false_of_ne hr, ih]

theorem lookup_replaced_of_ne (entries : List (List String × Entry)) (e : Entry) (h : q ≠ p) :
    (replaced entries p e).lookup q = entries.lookup q := by
  induction entries with
  | nil => rfl
  | cons x entries ih =>
    obtain ⟨r, old⟩ := x
    rw [replaced] at ih ⊢
    by_cases hr : r = p
    · subst hr
      simp [List.lookup_cons, beq_false_of_ne h, ih]
    · by_cases hq : q = r
      · simp [hq, hr]
      · simp [List.lookup_cons, hr, beq_false_of_ne hq, ih]

theorem node?_set (fs : Files) (h : p ≠ []) (e : Entry) (q : List String) :
    (fs.set p e).node? q = if q = p then some e else fs.node? q := by
  by_cases hq : q = []
  · rw [hq, if_neg h.symm]
    rfl
  rw [node?_of_ne_nil _ hq, node?_of_ne_nil _ hq, set]
  by_cases hqp : q = p
  · subst hqp
    rw [if_pos rfl]
    split
    case isTrue hthere =>
      obtain ⟨old, hold⟩ := Option.isSome_iff_exists.mp hthere
      exact (lookup_replaced_self fs.entries q e).trans (by rw [hold]; rfl)
    case isFalse hmissing =>
      rw [List.lookup_append, Option.not_isSome_iff_eq_none.mp hmissing]
      simp
  · rw [if_neg hqp]
    split
    case isTrue => exact lookup_replaced_of_ne fs.entries e hqp
    case isFalse =>
      rw [List.lookup_append]
      simp [List.lookup_cons, beq_false_of_ne hqp]

theorem map_fst_set (fs : Files) (p : List String) (e : Entry) : (fs.set p e).entries.map Prod.fst =
    if (fs.entries.lookup p).isSome then fs.entries.map Prod.fst else fs.entries.map Prod.fst ++ [p] := by
  rw [set]
  split
  · rw [List.map_map]
    apply List.map_congr_left
    rintro ⟨r, old⟩ -
    by_cases hr : r = p <;> simp [hr]
  · simp

theorem mem_places_iff : p ∈ fs.entries.map Prod.fst ↔ (fs.entries.lookup p).isSome = true := by
  rw [← not_iff_not, Bool.not_eq_true, Option.isSome_eq_false_iff, Option.isNone_iff_eq_none,
    List.lookup_eq_none_iff]
  simp only [List.mem_map, not_exists, not_and, bne_iff_ne]
  exact ⟨fun h x hx hp => h x hx hp.symm, fun h x hx hp => h x hx hp.symm⟩

theorem tidy_set (h : fs.Tidy) (p : List String) (e : Entry) : (fs.set p e).Tidy := by
  rw [Tidy, map_fst_set]
  split
  case isTrue => exact h
  case isFalse hmissing =>
    exact List.nodup_append.mpr ⟨h, List.nodup_singleton p, by
      rintro q hq r hr rfl
      obtain rfl := List.mem_singleton.mp hr
      exact hmissing (mem_places_iff.mp hq)⟩

/-! ## Making directories -/

/-- Places on the way from one place to a place below it. -/
def OnWay (start goal p : List String) : Prop := start <+: p ∧ p <+: goal

theorem onWay_self : OnWay place place p ↔ p = place :=
  ⟨fun ⟨h, h'⟩ => h'.eq_of_length_le h.length_le, fun h => h ▸ ⟨List.prefix_rfl, List.prefix_rfl⟩⟩

theorem onWay_concat {name : String} {rest : List String} :
    OnWay place (place ++ [name] ++ rest) p ↔
      p = place ∨ OnWay (place ++ [name]) (place ++ [name] ++ rest) p := by
  constructor
  · rintro ⟨⟨t, rfl⟩, h⟩
    cases t with
    | nil => exact .inl (List.append_nil _)
    | cons c t =>
      rw [List.append_assoc, List.prefix_append_right_inj, List.singleton_append, List.cons_prefix_cons] at h
      obtain ⟨rfl, h⟩ := h
      exact .inr ⟨⟨t, by simp⟩, by simpa using h⟩
  · rintro (rfl | ⟨h, h'⟩)
    · exact ⟨List.prefix_rfl, by simp⟩
    · exact ⟨(List.prefix_append _ _).trans h, h'⟩

theorem makeDirectories_skip {name : String} (h : name = "" ∨ name = ".")
    (hplace : fs.node? place = some .directory) :
    fs.makeDirectories place (name :: names) = fs.makeDirectories place names := by
  have hstep : step place name = place := if_pos h
  rw [makeDirectories, hstep, hplace]

theorem makeDirectories_cons {name : String} (names : List String) (h : ¬ (name = "" ∨ name = "."))
    (hback : name ≠ "..")
    (hclear : ∀ content, fs.node? (place ++ [name]) ≠ some (.file content)) :
    ∃ fs' : Files, fs.makeDirectories place (name :: names) = fs'.makeDirectories (place ++ [name]) names ∧
      (fs.Tidy → fs'.Tidy) ∧
      ∀ p, fs'.node? p = if p = place ++ [name] then some .directory else fs.node? p := by
  have hstep : step place name = place ++ [name] := by rw [step, if_neg h, if_neg hback]
  cases hthere : fs.node? (place ++ [name]) with
  | none =>
    refine ⟨fs.set (place ++ [name]) .directory, ?_, fun htidy => tidy_set htidy _ _, node?_set fs (by simp) _⟩
    rw [makeDirectories, hstep, hthere]
  | some e =>
    cases e with
    | file content => exact absurd hthere (hclear content)
    | directory =>
      refine ⟨fs, ?_, id, fun p => ?_⟩
      · rw [makeDirectories, hstep, hthere]
      · split
        case isTrue hp => rw [hp, hthere]
        case isFalse => rfl

theorem makeDirectories_eq (hstraight : ".." ∉ names) (hplace : fs.node? place = some .directory)
    (hclear : ∀ p, OnWay place (place ++ leading names) p → ∀ content, fs.node? p ≠ some (.file content)) :
    ∃ fs', fs.makeDirectories place names = .ok fs' ∧ (fs.Tidy → fs'.Tidy) ∧
      ∀ p, (OnWay place (place ++ leading names) p → fs'.node? p = some .directory) ∧
        (¬ OnWay place (place ++ leading names) p → fs'.node? p = fs.node? p) := by
  induction names generalizing fs place with
  | nil =>
    refine ⟨fs, rfl, id, fun p => ⟨fun h => ?_, fun _ => rfl⟩⟩
    rw [leading, List.filter_nil, List.append_nil, onWay_self] at h
    rw [h, hplace]
  | cons name names ih =>
    obtain ⟨hback, hstraight⟩ := List.ne_and_not_mem_of_not_mem_cons hstraight
    by_cases hname : name = "" ∨ name = "."
    · rw [leading_skip hname] at hclear ⊢
      rw [makeDirectories_skip hname hplace]
      exact ih hstraight hplace hclear
    · rw [leading_cons hname, List.append_cons place name] at hclear ⊢
      obtain ⟨fs₁, hmake, htidy₁, hentry₁⟩ := makeDirectories_cons names hname hback.symm
        (hclear _ ⟨List.prefix_append _ _, List.prefix_append _ _⟩)
      have hclear₁ : ∀ p, OnWay (place ++ [name]) (place ++ [name] ++ leading names) p →
          ∀ content, fs₁.node? p ≠ some (.file content) := by
        intro p hp content
        rw [hentry₁]
        split
        · simp
        · exact hclear p (onWay_concat.mpr (.inr hp)) content
      obtain ⟨fs', hok, htidy, hentry⟩ := ih hstraight (by rw [hentry₁, if_pos rfl]) hclear₁
      refine ⟨fs', hmake.trans hok, htidy ∘ htidy₁, fun p => ?_⟩
      rw [onWay_concat]
      by_cases hp : OnWay (place ++ [name]) (place ++ [name] ++ leading names) p
      · exact ⟨fun _ => (hentry p).1 hp, fun h => absurd (.inr hp) h⟩
      · have hne : p ≠ place ++ [name] := by
          rintro rfl
          exact hp ⟨List.prefix_rfl, List.prefix_append _ _⟩
        rw [(hentry p).2 hp, hentry₁, if_neg hne]
        exact ⟨fun h => by rw [h.resolve_right hp, hplace], fun _ => rfl⟩

/-- All places on the way to a place hold directories, and so does the place. -/
def Open (fs : Files) (place : List String) : Prop := ∀ p, p <+: place → fs.node? p = some .directory

theorem createDirectories_eq {path : String} (hstraight : IsStraight path)
    (hclear : ∀ p, p <+: Path.names path → ∀ content, fs.node? p ≠ some (.file content)) :
    ∃ fs', fs.createDirectories path = .ok fs' ∧ (fs.Tidy → fs'.Tidy) ∧ fs'.Open (Path.names path) ∧
      ∀ p, ¬ p <+: Path.names path → fs'.node? p = fs.node? p := by
  have hroot : fs.node? [] = some .directory := rfl
  obtain ⟨fs', hok, htidy, hentry⟩ := makeDirectories_eq hstraight hroot fun p hp => hclear p hp.2
  exact ⟨fs', hok, htidy, fun p hp => (hentry p).1 ⟨List.nil_prefix, hp⟩,
    fun p hp => (hentry p).2 fun hway => hp hway.2⟩

/-! ## Finding places -/

theorem locate_concat {name : String} (hname : IsName name) (hstraight : ".." ∉ names)
    (hopen : ∀ p, OnWay place (place ++ leading names) p → fs.node? p = some .directory) :
    fs.locate place (names ++ [name]) = .ok (place ++ leading names ++ [name]) := by
  induction names generalizing place with
  | nil =>
    have hstep : step place name = place ++ [name] := by
      rw [step, if_neg (not_or.mpr ⟨hname.ne_empty, hname.ne_point⟩), if_neg hname.ne_parent]
    rw [List.nil_append, locate, hstep]
    simp [leading]
  | cons n names ih =>
    obtain ⟨hback, hstraight⟩ := List.ne_and_not_mem_of_not_mem_cons hstraight
    rw [List.cons_append, locate, if_neg (by simp)]
    by_cases hn : n = "" ∨ n = "."
    · rw [leading_skip hn] at hopen ⊢
      rw [step, if_pos hn, hopen place ⟨List.prefix_rfl, List.prefix_append _ _⟩]
      exact ih hstraight hopen
    · rw [leading_cons hn, List.append_cons place n] at hopen ⊢
      rw [step, if_neg hn, if_neg hback.symm, hopen _ ⟨List.prefix_append _ _, List.prefix_append _ _⟩]
      exact ih hstraight fun p hp => hopen p (onWay_concat.mpr (.inr hp))

theorem place_join {name directory : String} (hname : IsName name) (hstraight : IsStraight directory)
    (hopen : fs.Open (Path.names directory)) :
    fs.place (Path.join directory name) = .ok (Path.names directory ++ [name]) := by
  rw [place, parts_join hname, names_eq]
  refine locate_concat hname (not_mem_stem hstraight) fun p hp => hopen p ?_
  rw [names_eq]
  exact hp.2

theorem eq_of_locate (hstraight : ".." ∉ names) (h : fs.locate place names = .ok p) :
    p = place ++ leading names := by
  induction names generalizing place with
  | nil =>
    obtain rfl := Except.ok.inj h
    exact (List.append_nil _).symm
  | cons name names ih =>
    obtain ⟨hback, hstraight⟩ := List.ne_and_not_mem_of_not_mem_cons hstraight
    have hstep : step place name ++ leading names = place ++ leading (name :: names) := by
      by_cases hname : name = "" ∨ name = "."
      · rw [step, if_pos hname, leading_skip hname]
      · rw [step, if_neg hname, if_neg hback.symm, leading_cons hname]
        exact (List.append_cons place name _).symm
    rw [locate] at h
    rw [← hstep]
    split at h
    case isTrue hlast =>
      obtain rfl := Except.ok.inj h
      rw [hlast]
      exact (List.append_nil _).symm
    case isFalse =>
      split at h
      · cases h
      · cases h
      · exact ih hstraight h

theorem eq_names_of_place {path : String} (hstraight : IsStraight path) (h : fs.place path = .ok p) :
    p = Path.names path :=
  eq_of_locate hstraight h

/-! ## Files -/

/-- The octets of the file at a place, if there is one. -/
def content? (fs : Files) (p : List String) : Option (List UInt8) :=
  match fs.node? p with
  | some (.file octets) => some octets
  | _ => none

theorem append_join {name directory : String} (hname : IsName name) (hstraight : IsStraight directory)
    (hopen : fs.Open (Path.names directory))
    (hfile : fs.node? (Path.names directory ++ [name]) ≠ some .directory) (octets : List UInt8) :
    fs.append (Path.join directory name) octets = .ok (fs.set (Path.names directory ++ [name])
      (.file ((fs.content? (Path.names directory ++ [name])).getD [] ++ octets))) := by
  rw [append, opened, dropStrokes_join hname, String.ofList_toList, place_join hname hstraight hopen, content?]
  cases hentry : fs.node? (Path.names directory ++ [name]) with
  | none => simp [bind, Except.bind, hentry, join_last_ne hname, pure, Except.pure]
  | some e =>
    cases e with
    | directory => exact absurd hentry hfile
    | file old => simp [bind, Except.bind, hentry, join_last_ne hname, pure, Except.pure]

theorem at?_join {name directory : String} (hname : IsName name) (hstraight : IsStraight directory)
    (hopen : fs.Open (Path.names directory)) :
    fs.at? (Path.join directory name) = fs.node? (Path.names directory ++ [name]) := by
  rw [at?, place_join hname hstraight hopen]

theorem read_join {name directory : String} (hname : IsName name) (hstraight : IsStraight directory)
    (hopen : fs.Open (Path.names directory)) {octets : List UInt8}
    (hfile : fs.node? (Path.names directory ++ [name]) = some (.file octets)) :
    fs.read (Path.join directory name) = .ok octets := by
  rw [read, place_join hname hstraight hopen]
  simp [bind, Except.bind, hfile, pure, Except.pure]

theorem locate_set (hp : p ≠ []) (hnot : fs.node? p ≠ some .directory) (e : Entry)
    (h : fs.locate place names = .ok q) : (fs.set p e).locate place names = .ok q := by
  induction names generalizing place with
  | nil => exact h
  | cons name names ih =>
    simp only [locate] at h ⊢
    by_cases hlast : names = []
    · rwa [if_pos hlast] at h ⊢
    rw [if_neg hlast] at h ⊢
    cases hnode : fs.node? (step place name) with
    | none =>
      rw [hnode] at h
      cases h
    | some node =>
      rw [hnode] at h
      cases node with
      | file => cases h
      | directory =>
        have hne : step place name ≠ p := by
          rintro rfl
          exact hnot hnode
        rw [node?_set fs hp, if_neg hne, hnode]
        exact ih h

/-- What is written to a path is read from it. -/
theorem read_of_write {path : String} {octets : List UInt8} {fs' : Files} (h : fs.write path octets = .ok fs') :
    fs'.read path = .ok octets := by
  simp only [write, opened, bind, Except.bind, pure, Except.pure, throw, throwThe, MonadExceptOf.throw] at h
  by_cases hstroke : path.toList.getLast? = some '/'
  · cases hplace : fs.place (String.ofList (Path.dropStrokes path.toList)) <;> simp [hplace, hstroke] at h
  rw [dropStrokes_eq_self hstroke, String.ofList_toList] at h
  cases hplace : fs.place path with
  | error => simp [hplace] at h
  | ok p =>
    have hnot : fs.node? p ≠ some .directory := by
      intro hdirectory
      simp [hplace, hstroke, hdirectory] at h
    have hp : p ≠ [] := by
      rintro rfl
      exact hnot rfl
    have hset : fs' = fs.set p (.file octets) := by
      cases hnode : fs.node? p with
      | none => simpa [hplace, hstroke, hnode] using h.symm
      | some node =>
        cases node with
        | directory => exact absurd hnode hnot
        | file => simpa [hplace, hstroke, hnode] using h.symm
    have hplace' : fs'.place path = .ok p := hset ▸ locate_set hp hnot _ hplace
    have hnode : fs'.node? p = some (.file octets) := by rw [hset, node?_set fs hp, if_pos rfl]
    simp [read, hplace', hnode, bind, Except.bind, pure, Except.pure]

/-! ## Listing -/

/-- The name of a place below a directory. -/
def nameIn? (place q : List String) : Option String := if q.dropLast = place then q.getLast? else none

theorem nameIn?_eq_some_iff {name : String} : nameIn? place q = some name ↔ q = place ++ [name] := by
  constructor
  · intro h
    rw [nameIn?] at h
    split at h
    case isTrue hplace =>
      obtain ⟨a, rfl⟩ := List.getLast?_eq_some_iff.mp h
      rw [← hplace, List.dropLast_concat]
    case isFalse => cases h
  · rintro rfl
    rw [nameIn?, if_pos List.dropLast_concat, List.getLast?_concat]

/-- The names of what a directory holds. -/
def held (fs : Files) (place : List String) :
    List String := (fs.entries.map Prod.fst).filterMap (nameIn? place)

theorem list_of_place {path : String} (hplace : fs.place path = .ok p)
    (hdirectory : fs.node? p = some .directory) :
    fs.list path = .ok (fs.held p) := by
  rw [list, hplace, held, List.filterMap_map]
  simp only [bind, Except.bind, hdirectory]
  rfl

theorem mem_held_iff {name : String} :
    name ∈ fs.held place ↔ (fs.node? (place ++ [name])).isSome = true := by
  rw [node?_of_ne_nil _ (by simp), ← mem_places_iff, held, List.mem_filterMap]
  simp only [nameIn?_eq_some_iff, exists_eq_right]

theorem nodup_held (h : fs.Tidy) (place : List String) : (fs.held place).Nodup := by
  refine h.filterMap fun q q' name hq hq' => ?_
  rw [nameIn?_eq_some_iff.mp hq, nameIn?_eq_some_iff.mp hq']

end Lagmeter.Files
