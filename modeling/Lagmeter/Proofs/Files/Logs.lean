import Lagmeter.Journal
import Lagmeter.Proofs.Files.Places
import Mathlib.Data.List.Induction
import Mathlib.Data.List.Lex
import Mathlib.Data.String.Basic

/-!
# Logs of an experiment

The participants of an experiment write to their logs in any order and as often as they like. A session
adds what it wrote to the end of one log, also if it fails, and changes no other file. A participant is
found by its rank and host in the name of its directory, so no two of them meet in one, and the logs of a
name are exactly those that were written.
-/

namespace Lagmeter.Journal

open Lagmeter.Path

/-! ## Labels -/

theorem toList_label (m : Member) : m.label.toList = m.host.toList ++ '-' :: Nat.toDigits 10 m.rank := by
  have htext : m.label = m.host ++ "-" ++ m.rank.repr := rfl
  rw [htext, String.toList_append, String.toList_append, Nat.toList_repr, List.append_assoc]
  rfl

theorem not_mem_digits {c : Char} (h : c.isDigit = false) (n : Nat) : c ∉ Nat.toDigits 10 n := by
  intro hc
  rw [Nat.isDigit_of_mem_toDigits (by decide) (by decide) hc] at h
  cases h

theorem eq_nil_of_cons_eq {t b b' : List Char} {x : Char} (hb : x ∉ b) (h : x :: b = t ++ x :: b') :
    t = [] ∧ b = b' := by
  cases t with
  | nil => exact ⟨rfl, (List.cons.inj h).2⟩
  | cons c t =>
    rw [(List.cons.inj h).2] at hb
    simp at hb

/-- The last hyphen of a label stands before the rank, so a label tells host and rank. -/
theorem label_injective {m m' : Member} (h : m.label = m'.label) : m.host = m'.host ∧ m.rank = m'.rank := by
  have hlists := congrArg String.toList h
  rw [toList_label, toList_label] at hlists
  have hhyphen : '-'.isDigit = false := rfl
  have hparts : m.host.toList = m'.host.toList ∧ Nat.toDigits 10 m.rank = Nat.toDigits 10 m'.rank := by
    rcases List.append_eq_append_iff.mp hlists with ⟨t, hhost, hrank⟩ | ⟨t, hhost, hrank⟩
    · obtain ⟨rfl, hdigits⟩ := eq_nil_of_cons_eq (not_mem_digits hhyphen _) hrank
      exact ⟨by rw [hhost, List.append_nil], hdigits⟩
    · obtain ⟨rfl, hdigits⟩ := eq_nil_of_cons_eq (not_mem_digits hhyphen _) hrank
      exact ⟨by rw [hhost, List.append_nil], hdigits.symm⟩
  have hranks := congrArg (fun digits => Nat.ofDigitChars 10 digits 0) hparts.2
  exact ⟨String.toList_injective hparts.1, by simpa [Nat.ofDigitChars_toDigits] using hranks⟩

variable {m : Member}

theorem isName_label (h : '/' ∉ m.host.toList) : IsName m.label := by
  have hhyphen : '-' ∈ m.label.toList := by simp [toList_label]
  have hne (s : String) (hs : '-' ∉ s.toList) : m.label ≠ s := by
    rintro rfl
    exact hs hhyphen
  refine ⟨hne _ (by decide), hne _ (by decide), hne _ (by decide), ?_⟩
  rw [toList_label]
  simp [h, not_mem_digits]

/-! ## One session -/

/-- The journal of another participant of the same experiment. -/
def of (j : Journal) (m : Member) : Journal := { j with member := m }

/-- The base of the logs does not go back, and the tag is a name. -/
structure IsSound (j : Journal) : Prop where
  base : IsStraight j.base
  tag : IsName j.tag

/-- A sound journal of a participant on a host with a plain name. -/
structure IsPlain (j : Journal) : Prop extends j.IsSound where
  host : '/' ∉ j.member.host.toList

/-- How a session that was written ends. -/
def answer (path : String) : Option String → Except Fault String
  | none => .ok path
  | some reason => .error ⟨[s!"Failed to write log {path}", reason]⟩

variable {j : Journal} {fs : Files} {name : String} {w : Writing}

theorem names_directory (h : j.IsPlain) : Path.names j.directory = Path.names j.shelf ++ [j.member.label] :=
  names_join (isName_label h.host) _

theorem isStraight_shelf (h : j.IsSound) : IsStraight j.shelf := isStraight_join h.tag h.base

theorem isStraight_directory (h : j.IsPlain) : IsStraight j.directory :=
  isStraight_join (isName_label h.host) (isStraight_shelf h.toIsSound)

theorem names_path (hname : IsName name) : Path.names (j.path name) = Path.names j.directory ++ [name] :=
  names_join hname _

/-- What a session does to the files. -/
structure Appended (j : Journal) (fs : Files) (name : String) (w : Writing) (after : Written) : Prop where
  result : after.result = answer (j.path name) w.failure
  tidy : fs.Tidy → after.files.Tidy
  opened : after.files.Open (Path.names j.directory)
  added : after.files.node? (Path.names (j.path name)) =
    some (.file ((fs.content? (Path.names (j.path name))).getD [] ++ w.octets))
  untouched : ∀ p, p ≠ Path.names (j.path name) → ¬ p <+: Path.names j.directory →
    after.files.node? p = fs.node? p

theorem not_prefix_directory (hname : IsName name) :
    ¬ Path.names (j.path name) <+: Path.names j.directory := by
  intro h
  have hlength := h.length_le
  rw [names_path hname, List.length_append, List.length_singleton] at hlength
  omega

theorem appended_append (hj : j.IsPlain) (hname : IsName name)
    (hclear : ∀ p, p <+: Path.names j.directory → ∀ octets, fs.node? p ≠ some (.file octets))
    (hfile : fs.node? (Path.names (j.path name)) ≠ some .directory) (w : Writing) :
    j.Appended fs name w (j.append fs name w) := by
  obtain ⟨fs₁, hmake, htidy, hopen, hnode⟩ := Files.createDirectories_eq (isStraight_directory hj) hclear
  have hlog := hnode _ (not_prefix_directory (j := j) hname)
  have happend := Files.append_join hname (isStraight_directory hj) hopen
    (by rwa [← names_path hname, hlog]) w.octets
  have hcontent : fs₁.content? (Path.names (j.path name)) = fs.content? (Path.names (j.path name)) := by
    rw [Files.content?, hlog, Files.content?]
  rw [← names_path hname, hcontent] at happend
  have hplace : Path.names (j.path name) ≠ [] := by simp [names_path hname]
  have hwritten : ∃ events, j.append fs name w = ⟨answer (j.path name) w.failure,
      fs₁.set (Path.names (j.path name))
        (.file ((fs.content? (Path.names (j.path name))).getD [] ++ w.octets)), events⟩ := by
    rw [append, hmake]
    dsimp only
    rw [path, happend]
    cases w.failure <;> exact ⟨_, rfl⟩
  obtain ⟨events, hwritten⟩ := hwritten
  rw [hwritten]
  constructor
  case result => rfl
  case tidy => exact fun h => Files.tidy_set (htidy h) _ _
  case opened =>
    intro p hp
    have hne : p ≠ Path.names (j.path name) := by
      rintro rfl
      exact not_prefix_directory hname hp
    rw [Files.node?_set _ hplace, if_neg hne, hopen p hp]
  case added => rw [Files.node?_set _ hplace, if_pos rfl]
  case untouched =>
    intro p hne hp
    rw [Files.node?_set _ hplace, if_neg hne, hnode p hp]

/-! ## Any number of sessions -/

/-- A session of a participant. -/
structure Visit where
  member : Member
  name : String
  /-- The moment of the header, if there is one. -/
  time : Option Moment
  writing : Writing

/-- A visit to a log by a name that a directory may hold, of a participant on such a host. -/
structure Visit.IsPlain (v : Visit) : Prop where
  host : '/' ∉ v.member.host.toList
  name : IsName v.name

/-- What a visit adds to its log. -/
def added (j : Journal) (v : Visit) : List UInt8 := (j.of v.member).heading v.time ++ v.writing.octets

def visit (j : Journal) (fs : Files) (v : Visit) : Written :=
  (j.of v.member).enter fs v.time v.name v.writing

/-- The files after visits, one after the other. -/
def after (j : Journal) (fs : Files) (vs : List Visit) : Files :=
  vs.foldl (fun fs v => (j.visit fs v).files) fs

/-- Whether a visit is to this log of this participant. -/
def Visit.isTo (m : Member) (name : String) (v : Visit) : Bool :=
  v.member.host = m.host ∧ v.member.rank = m.rank ∧ v.name = name

/-- What all visits to a log added to it, in their order. -/
def total (j : Journal) (vs : List Visit) (m : Member) (name : String) : List UInt8 :=
  (vs.filter (Visit.isTo m name)).flatMap j.added

/-- An experiment that is about to start: nothing stands in the way to its directory, which is not there or
is empty. -/
structure Fresh (j : Journal) (fs : Files) : Prop where
  tidy : fs.Tidy
  clear : ∀ p, p <+: Path.names j.shelf → ∀ octets, fs.node? p ≠ some (.file octets)
  empty : ∀ p, Path.names j.shelf <+: p → p ≠ Path.names j.shelf → fs.node? p = none

/-- The place of a log. -/
def placeOf (j : Journal) (m : Member) (name : String) :
    List String := Path.names j.shelf ++ [m.label, name]

/-- The place of the directory of a participant's logs. -/
def roomOf (j : Journal) (m : Member) : List String := Path.names j.shelf ++ [m.label]

section

variable {v u : Visit} {vs : List Visit} {p : List String} {fs' : Files}

theorem IsSound.plain (h : j.IsSound) (hv : '/' ∉ m.host.toList) : (j.of m).IsPlain := ⟨⟨h.base, h.tag⟩, hv⟩

theorem names_of_directory (h : j.IsSound) (hm : '/' ∉ m.host.toList) :
    Path.names (j.of m).directory = j.roomOf m :=
  names_directory (h.plain hm)

theorem names_of_path (h : j.IsSound) (hm : '/' ∉ m.host.toList) (hname : IsName name) :
    Path.names ((j.of m).path name) = j.placeOf m name := by
  rw [names_path hname, names_of_directory h hm, roomOf, placeOf, List.append_assoc]
  rfl

theorem placeOf_eq_iff {m' : Member} {name' : String} :
    j.placeOf m name = j.placeOf m' name' ↔ m.host = m'.host ∧ m.rank = m'.rank ∧ name = name' := by
  constructor
  · intro h
    have hpair := List.append_cancel_left h
    obtain ⟨hhost, hrank⟩ := label_injective (List.cons.inj hpair).1
    exact ⟨hhost, hrank, by simpa using (List.cons.inj hpair).2⟩
  · rintro ⟨hhost, hrank, rfl⟩
    rw [placeOf, placeOf, Member.label, Member.label, hhost, hrank]

theorem isTo_iff : v.isTo m name = true ↔ j.placeOf v.member v.name = j.placeOf m name := by
  rw [placeOf_eq_iff, Visit.isTo, decide_eq_true_eq]

theorem isTo_congr (h : v.isTo m name = true) : Visit.isTo m name = Visit.isTo v.member v.name := by
  obtain ⟨hhost, hrank, rfl⟩ := of_decide_eq_true h
  funext u
  rw [Visit.isTo, Visit.isTo, hhost, hrank]

theorem not_prefix_room {m' : Member} : ¬ j.placeOf m name <+: j.roomOf m' := by
  intro h
  have hlength := h.length_le
  simp only [placeOf, roomOf, List.length_append, List.length_cons, List.length_nil] at hlength
  omega

theorem below_of_prefix_room (h : p <+: j.roomOf m) : p <+: Path.names j.shelf ∨ p = j.roomOf m := by
  rcases List.prefix_concat_iff.mp h with h | h
  · exact .inr h
  · exact .inl h

theorem total_concat : j.total (vs ++ [v]) m name =
    j.total vs m name ++ if v.isTo m name then j.added v else [] := by
  rw [total, total, List.filter_append, List.flatMap_append, List.filter_singleton]
  cases v.isTo m name <;> simp

/-- The files after visits, told from those before. -/
structure Kept (j : Journal) (fs : Files) (vs : List Visit) (fs' : Files) : Prop where
  tidy : fs'.Tidy
  opened : ∀ v ∈ vs, fs'.Open (j.roomOf v.member)
  /-- A log holds what its visits added, and is not there without visits. -/
  logs : ∀ m name, fs'.node? (j.placeOf m name) =
    if vs.any (Visit.isTo m name) then some (.file (j.total vs m name)) else none
  rest : ∀ p, (∀ v ∈ vs, ¬ p <+: j.roomOf v.member) → (∀ v ∈ vs, p ≠ j.placeOf v.member v.name) →
    fs'.node? p = fs.node? p

theorem kept_nil (h : j.Fresh fs) : j.Kept fs [] fs where
  tidy := h.tidy
  opened := nofun
  logs m name := h.empty _ (List.prefix_append _ _) (by simp [placeOf])
  rest _ _ _ := rfl

theorem Kept.clear (h : j.Kept fs vs fs') (hfresh : j.Fresh fs) (hp : p <+: j.roomOf m) (octets : List UInt8) :
    fs'.node? p ≠ some (.file octets) := by
  by_cases hvisited : ∃ v ∈ vs, p <+: j.roomOf v.member
  · obtain ⟨v, hv, hroom⟩ := hvisited
    rw [h.opened v hv p hroom]
    simp
  · have hplace : ∀ v ∈ vs, p ≠ j.placeOf v.member v.name := by
      rintro v - rfl
      exact not_prefix_room hp
    rw [h.rest p (fun v hv hroom => hvisited ⟨v, hv, hroom⟩) hplace]
    rcases below_of_prefix_room hp with hshelf | rfl
    · exact hfresh.clear p hshelf octets
    · have hempty : fs.node? (j.roomOf m) = none := hfresh.empty _ (List.prefix_append _ _) (by simp [roomOf])
      rw [hempty]
      simp

theorem Kept.not_directory (h : j.Kept fs vs fs') (m : Member) (name : String) :
    fs'.node? (j.placeOf m name) ≠ some .directory := by
  rw [h.logs]
  split <;> simp

theorem total_of_not_visited (h : ¬ vs.any (Visit.isTo m name) = true) : j.total vs m name = [] := by
  rw [total, List.filter_eq_nil_iff.mpr]
  · rfl
  · intro v hv hto
    exact h (List.any_eq_true.mpr ⟨v, hv, hto⟩)

theorem Kept.content?_place (h : j.Kept fs vs fs') (m : Member) (name : String) :
    (fs'.content? (j.placeOf m name)).getD [] = j.total vs m name := by
  rw [Files.content?, h.logs]
  by_cases hany : vs.any (Visit.isTo m name) = true
  · rw [if_pos hany]
    rfl
  · rw [if_neg hany, total_of_not_visited hany]
    rfl

theorem Kept.appended (h : j.Kept fs vs fs') (hfresh : j.Fresh fs) (hj : j.IsSound) (hv : v.IsPlain) :
    (j.of v.member).Appended fs' v.name { v.writing with octets := j.added v } (j.visit fs' v) := by
  refine appended_append (hj.plain hv.host) hv.name ?_ ?_ _
  · rw [names_of_directory hj hv.host]
    exact fun p hp => h.clear hfresh hp
  · rw [names_of_path hj hv.host hv.name]
    exact h.not_directory _ _

theorem Kept.visit (h : j.Kept fs vs fs') (hfresh : j.Fresh fs) (hj : j.IsSound) (hv : v.IsPlain) :
    j.Kept fs (vs ++ [v]) (j.visit fs' v).files := by
  obtain ⟨-, htidy, hopen, hadded, huntouched⟩ := h.appended hfresh hj hv
  rw [names_of_directory hj hv.host] at hopen huntouched
  rw [names_of_path hj hv.host hv.name] at hadded huntouched
  rw [h.content?_place] at hadded
  constructor
  case tidy => exact htidy h.tidy
  case opened =>
    intro u hu p hp
    by_cases hroom : p <+: j.roomOf v.member
    · exact hopen p hroom
    · rcases List.mem_append.mp hu with hu | hu
      · rw [huntouched p _ hroom, h.opened u hu p hp]
        rintro rfl
        exact not_prefix_room hp
      · obtain rfl := List.mem_singleton.mp hu
        exact absurd hp hroom
  case logs =>
    intro m name
    rw [List.any_append, total_concat, List.any_cons, List.any_nil, Bool.or_false]
    by_cases hto : v.isTo m name = true
    · have hsame := isTo_congr hto
      have hplace : j.placeOf v.member v.name = j.placeOf m name := isTo_iff.mp hto
      rw [if_pos (by rw [hto, Bool.or_true]), if_pos hto, ← hplace, hadded, total, total, hsame]
    · have hplace : j.placeOf m name ≠ j.placeOf v.member v.name := fun h => hto (isTo_iff.mpr h.symm)
      rw [if_neg hto, List.append_nil, Bool.eq_false_iff.mpr hto, Bool.or_false,
        huntouched _ hplace not_prefix_room, h.logs]
  case rest =>
    intro p hroom hplace
    have hlast : v ∈ vs ++ [v] := by simp
    rw [huntouched p (hplace v hlast) (hroom v hlast)]
    exact h.rest p (fun u hu => hroom u (List.mem_append_left _ hu))
      fun u hu => hplace u (List.mem_append_left _ hu)

theorem after_concat :
    j.after fs (vs ++ [v]) = (j.visit (j.after fs vs) v).files := List.foldl_concat _ _ _ _

theorem kept_after (hfresh : j.Fresh fs) (hj : j.IsSound) (hvs : ∀ v ∈ vs, v.IsPlain) :
    j.Kept fs vs (j.after fs vs) := by
  induction vs using List.reverseRecOn with
  | nil => exact kept_nil hfresh
  | append_singleton vs v ih =>
    rw [after_concat]
    exact (ih fun u hu => hvs u (List.mem_append_left _ hu)).visit hfresh hj (hvs v (by simp))

/-! ## Listing -/

theorem Kept.mem_held_iff (h : j.Kept fs vs fs') (hfresh : j.Fresh fs) {label : String} :
    label ∈ fs'.held (Path.names j.shelf) ↔ ∃ v ∈ vs, v.member.label = label := by
  rw [Files.mem_held_iff]
  constructor
  · intro hthere
    by_contra hnone
    rw [h.rest, hfresh.empty _ (List.prefix_append _ _) (by simp)] at hthere
    · cases hthere
    · intro v hv hroom
      have hlabel := hroom.eq_of_length (by simp [roomOf])
      exact hnone ⟨v, hv, by simpa [roomOf] using hlabel.symm⟩
    · intro v hv heq
      have hlength := congrArg List.length heq
      simp [placeOf] at hlength
  · rintro ⟨v, hv, rfl⟩
    have hroom := h.opened v hv (j.roomOf v.member) List.prefix_rfl
    rw [roomOf] at hroom
    rw [hroom]
    rfl

/-- Whether two paths are in the order of their names. -/
def notAfter (p q : String) : Bool := !(Path.names q).lex (Path.names p)

theorem notAfter_iff {p q : String} : notAfter p q = true ↔ ¬ Path.names q < Path.names p := by
  rw [notAfter, Bool.not_eq_true', ← Bool.not_eq_true, List.lex_eq_true_iff_lt]

theorem pairwise_sorted (ps : List String) :
    (ps.mergeSort notAfter).Pairwise fun p q => ¬ Path.names q < Path.names p := by
  refine (List.pairwise_mergeSort ?_ ?_ ps).imp notAfter_iff.mp
  · intro p q r hpq hqr
    rw [notAfter_iff, not_lt] at hpq hqr ⊢
    exact hpq.trans hqr
  · intro p q
    rw [Bool.or_eq_true, notAfter_iff, notAfter_iff, not_lt, not_lt]
    exact le_total _ _

/-- The logs of a name in the directories of an experiment, before they are sorted. -/
def found (j : Journal) (fs : Files) (name : String) : List String :=
  ((fs.held (Path.names j.shelf)).map fun label => Path.join (Path.join j.shelf label) name).filter fs.isFile

theorem paths_of_place (hplace : fs.place j.shelf = .ok (Path.names j.shelf))
    (hdirectory : fs.node? (Path.names j.shelf) = some .directory) :
    j.paths fs name = .ok ((j.found fs name).mergeSort notAfter) := by
  have hthere : fs.isThere j.shelf = true := by
    rw [Files.isThere, Files.at?, hplace]
    dsimp only
    rw [hdirectory]
    rfl
  rw [paths, hthere, Files.list_of_place hplace hdirectory]
  rfl

theorem place_shelf (hj : j.IsSound) (hopen : fs.Open (Path.names j.shelf)) :
    fs.place j.shelf = .ok (Path.names j.shelf) := by
  have hnames : Path.names j.shelf = Path.names j.base ++ [j.tag] := names_join hj.tag _
  rw [hnames] at hopen ⊢
  exact Files.place_join hj.tag hj.base fun p hp => hopen p (hp.trans (List.prefix_append _ _))

theorem Kept.isFile_path (h : j.Kept fs vs fs') (hj : j.IsSound) (hv : v ∈ vs) (hvs : ∀ v ∈ vs, v.IsPlain)
    (hname : IsName name) :
    fs'.isFile ((j.of v.member).path name) = vs.any (Visit.isTo v.member name) := by
  have hroom := names_of_directory hj (hvs v hv).host
  have hat : fs'.at? ((j.of v.member).path name) = fs'.node? (j.placeOf v.member name) := by
    rw [path, Files.at?_join hname (isStraight_directory (hj.plain (hvs v hv).host)), ← names_path hname,
      names_of_path hj (hvs v hv).host hname]
    rw [hroom]
    exact h.opened v hv
  rw [Files.isFile, hat, h.logs]
  cases vs.any (Visit.isTo v.member name) <;> rfl

theorem Kept.mem_found_iff (h : j.Kept fs vs fs') (hfresh : j.Fresh fs) (hj : j.IsSound)
    (hvs : ∀ v ∈ vs, v.IsPlain) (hname : IsName name) {path : String} :
    path ∈ j.found fs' name ↔ ∃ v ∈ vs, v.name = name ∧ path = (j.of v.member).path name := by
  have hsame : ∀ u v : Visit, u.member.label = v.member.label →
      (j.of u.member).path name = (j.of v.member).path name := by
    intro u v hlabel
    show Path.join (Path.join j.shelf u.member.label) name = Path.join (Path.join j.shelf v.member.label) name
    rw [hlabel]
  rw [found, List.mem_filter, List.mem_map]
  constructor
  · rintro ⟨⟨label, hlabel, rfl⟩, hfile⟩
    obtain ⟨v, hv, rfl⟩ := (h.mem_held_iff hfresh).mp hlabel
    have hany := (h.isFile_path hj hv hvs hname).symm.trans hfile
    obtain ⟨u, hu, hto⟩ := List.any_eq_true.mp hany
    obtain ⟨hhost, hrank, huname⟩ := of_decide_eq_true hto
    refine ⟨u, hu, huname, (hsame u v ?_).symm⟩
    rw [Member.label, Member.label, hhost, hrank]
  · rintro ⟨v, hv, hvname, rfl⟩
    refine ⟨⟨v.member.label, (h.mem_held_iff hfresh).mpr ⟨v, hv, rfl⟩, rfl⟩, ?_⟩
    rw [h.isFile_path hj hv hvs hname, List.any_eq_true]
    exact ⟨v, hv, by simp [Visit.isTo, hvname]⟩

theorem Kept.nodup_found (h : j.Kept fs vs fs') (hfresh : j.Fresh fs)
    (hvs : ∀ v ∈ vs, v.IsPlain) (hname : IsName name) : (j.found fs' name).Nodup := by
  have hlabels : ∀ label ∈ fs'.held (Path.names j.shelf), IsName label := by
    intro label hlabel
    obtain ⟨v, hv, rfl⟩ := (h.mem_held_iff hfresh).mp hlabel
    exact isName_label (hvs v hv).host
  refine ((Files.nodup_held h.tidy _).map_on fun label hlabel label' hlabel' heq => ?_).filter _
  have hnames := congrArg Path.names heq
  rw [names_join hname, names_join hname, names_join (hlabels _ hlabel),
    names_join (hlabels _ hlabel')] at hnames
  simpa using hnames

theorem paths_of_fresh (hfresh : j.Fresh fs) (hj : j.IsSound) : j.paths fs name = .ok [] := by
  by_cases hthere : fs.isThere j.shelf = true
  · obtain ⟨e, he⟩ := Option.isSome_iff_exists.mp hthere
    rw [Files.at?] at he
    cases hplace : fs.place j.shelf with
    | error e => rw [hplace] at he; cases he
    | ok p =>
      rw [hplace] at he
      obtain rfl := Files.eq_names_of_place (isStraight_shelf hj) hplace
      have hdirectory : fs.node? (Path.names j.shelf) = some .directory := by
        cases e with
        | directory => exact he
        | file octets => exact absurd he (hfresh.clear _ List.prefix_rfl octets)
      have hnone : fs.held (Path.names j.shelf) = [] := by
        rw [List.eq_nil_iff_forall_not_mem]
        intro label hlabel
        rw [Files.mem_held_iff, hfresh.empty _ (List.prefix_append _ _) (by simp)] at hlabel
        cases hlabel
      rw [paths_of_place hplace hdirectory, found, hnone, List.map_nil, List.filter_nil, List.mergeSort_nil]
  · rw [paths, Bool.eq_false_iff.mpr hthere]
    rfl

/-- The paths to all logs of a name are those of the visited logs, in order and each there once. -/
theorem exists_paths (hfresh : j.Fresh fs) (hj : j.IsSound) (hvs : ∀ v ∈ vs, v.IsPlain) (hname : IsName name) :
    ∃ ps, j.paths (j.after fs vs) name = .ok ps ∧ ps.Nodup ∧
      ps.Pairwise (fun p q => ¬ Path.names q < Path.names p) ∧
      ∀ path, path ∈ ps ↔ ∃ v ∈ vs, v.name = name ∧ path = (j.of v.member).path name := by
  have hkept := kept_after hfresh hj hvs
  cases vs with
  | nil => exact ⟨[], paths_of_fresh hfresh hj, List.nodup_nil, .nil, by simp⟩
  | cons v vs =>
    have hopen : (j.after fs (v :: vs)).Open (Path.names j.shelf) := fun p hp =>
      hkept.opened v (by simp) p (hp.trans (List.prefix_append _ _))
    refine ⟨_, paths_of_place (place_shelf hj hopen) (hopen _ List.prefix_rfl), ?_, pairwise_sorted _,
      fun path => ?_⟩
    · exact (List.mergeSort_perm _ _).nodup_iff.mpr (hkept.nodup_found hfresh hvs hname)
    · rw [List.mem_mergeSort, hkept.mem_found_iff hfresh hj hvs hname]

/-! ## All logs -/

/-- What sessions of the participants of an experiment come to. -/
structure Logged (j : Journal) (fs : Files) (vs : List Visit) : Prop where
  /-- A log holds what was written to it, in the order of the sessions. -/
  content : ∀ m name, '/' ∉ m.host.toList → IsName name → vs.any (Visit.isTo m name) = true →
    (j.after fs vs).read ((j.of m).path name) = .ok (j.total vs m name)
  /-- A log that no session opened is not there. -/
  missing : ∀ m name, '/' ∉ m.host.toList → IsName name → vs.any (Visit.isTo m name) = false →
    (j.after fs vs).isFile ((j.of m).path name) = false
  /-- A session tells its failure, if it has one, and then still has written what it wrote before. -/
  result : ∀ before v rest, vs = before ++ v :: rest →
    (j.visit (j.after fs before) v).result = answer ((j.of v.member).path v.name) v.writing.failure
  /-- No other file is changed. -/
  alone : ∀ before v rest, vs = before ++ v :: rest → ∀ p, p ≠ j.placeOf v.member v.name →
    (j.after fs (before ++ [v])).content? p = (j.after fs before).content? p
  /-- Ranks have directories of their own. -/
  apart : ∀ m m' : Member, '/' ∉ m.host.toList → '/' ∉ m'.host.toList → m.rank ≠ m'.rank →
    Path.names (j.of m).directory ≠ Path.names (j.of m').directory
  listed : ∀ name, IsName name → ∃ ps, j.paths (j.after fs vs) name = .ok ps ∧ ps.Nodup ∧
    ps.Pairwise (fun p q => ¬ Path.names q < Path.names p) ∧
    ∀ path, path ∈ ps ↔ ∃ v ∈ vs, v.name = name ∧ path = (j.of v.member).path name

theorem Kept.alone (h : j.Kept fs vs fs') (hfresh : j.Fresh fs) (hj : j.IsSound) (hv : v.IsPlain)
    (hp : p ≠ j.placeOf v.member v.name) : (j.visit fs' v).files.content? p = fs'.content? p := by
  obtain ⟨-, -, hopen, -, huntouched⟩ := h.appended hfresh hj hv
  rw [names_of_directory hj hv.host] at hopen huntouched
  rw [names_of_path hj hv.host hv.name] at huntouched
  by_cases hroom : p <+: j.roomOf v.member
  · -- A directory may be made there, but no file was.
    have hbefore : fs'.content? p = none := by
      unfold Files.content?
      split
      case h_1 octets hfile => exact absurd hfile (h.clear hfresh hroom octets)
      case h_2 => rfl
    rw [hbefore, Files.content?, hopen p hroom]
  · rw [Files.content?, huntouched p hp hroom, Files.content?]

theorem path_of_isTo (hto : v.isTo m name = true) : (j.of m).path name = (j.of v.member).path v.name := by
  obtain ⟨hhost, hrank, rfl⟩ := of_decide_eq_true hto
  show Path.join (Path.join j.shelf m.label) _ = Path.join (Path.join j.shelf v.member.label) _
  rw [Member.label, Member.label, hhost, hrank]

theorem Kept.read_path (h : j.Kept fs vs fs') (hj : j.IsSound) (hvs : ∀ v ∈ vs, v.IsPlain)
    (hany : vs.any (Visit.isTo m name) = true) : fs'.read ((j.of m).path name) = .ok (j.total vs m name) := by
  obtain ⟨v, hv, hto⟩ := List.any_eq_true.mp hany
  have hplain := hvs v hv
  have hlog := h.logs m name
  rw [if_pos hany, ← isTo_iff.mp hto, ← names_of_path hj hplain.host hplain.name,
    names_path hplain.name] at hlog
  rw [path_of_isTo hto]
  refine Files.read_join hplain.name (isStraight_directory (hj.plain hplain.host)) ?_ hlog
  rw [names_of_directory hj hplain.host]
  exact h.opened v hv

theorem Kept.isFile_path_of_not_visited (h : j.Kept fs vs fs') (hj : j.IsSound) (hm : '/' ∉ m.host.toList)
    (hname : IsName name) (hany : vs.any (Visit.isTo m name) = false) :
    fs'.isFile ((j.of m).path name) = false := by
  have hstraight : IsStraight ((j.of m).path name) := isStraight_join hname (isStraight_directory (hj.plain hm))
  rw [Files.isFile, Files.at?]
  cases hplace : fs'.place ((j.of m).path name) with
  | error e => rfl
  | ok p =>
    obtain rfl := Files.eq_names_of_place hstraight hplace
    dsimp only
    rw [names_of_path hj hm hname, h.logs, hany]
    rfl

/-- Whatever sessions there are, each log holds what was written to it, and all else is as it was. -/
theorem logs_appended (hj : j.IsSound) (hfresh : j.Fresh fs) (hvs : ∀ v ∈ vs, v.IsPlain) :
    j.Logged fs vs := by
  have hkept := kept_after hfresh hj hvs
  have hbefore : ∀ before v rest, vs = before ++ v :: rest →
      j.Kept fs before (j.after fs before) ∧ v.IsPlain := by
    rintro before v rest rfl
    exact ⟨kept_after hfresh hj fun u hu => hvs u (List.mem_append_left _ hu), hvs v (by simp)⟩
  constructor
  case content => exact fun m name _ _ => hkept.read_path hj hvs
  case missing => exact fun m name => hkept.isFile_path_of_not_visited hj
  case result =>
    intro before v rest hsplit
    obtain ⟨hkept, hv⟩ := hbefore before v rest hsplit
    exact (hkept.appended hfresh hj hv).result
  case alone =>
    intro before v rest hsplit p hp
    obtain ⟨hkept, hv⟩ := hbefore before v rest hsplit
    rw [after_concat]
    exact hkept.alone hfresh hj hv hp
  case apart =>
    intro m m' hm hm' hrank heq
    rw [names_of_directory hj hm, names_of_directory hj hm', roomOf, roomOf] at heq
    exact hrank (label_injective (by simpa using heq)).2
  case listed => exact fun name => exists_paths hfresh hj hvs

theorem fresh_empty (j : Journal) : j.Fresh Files.empty where
  tidy := List.nodup_nil
  clear p _ octets := by
    unfold Files.node?
    split <;> simp [Files.empty]
  empty p hp hne := by
    refine Files.node?_of_ne_nil _ fun hnil => ?_
    rw [hnil, List.prefix_nil] at hp
    exact hne (hnil.trans hp.symm)

end

/-- Two sessions of one log, the second of which fails halfway, and one session of a log of another rank. -/
def shared : List Visit := [
  ⟨⟨0, 2, "node-1"⟩, "summary", none, { octets := [104, 105] }⟩,
  ⟨⟨1, 2, "node"⟩, "summary", some ⟨0, 0⟩, { octets := [120, 10] }⟩,
  ⟨⟨0, 2, "node-1"⟩, "summary", none, { octets := [33], failure := some "disk" }⟩]

theorem logs_appended_shared :
    let j : Journal := ⟨"/var/./logs/", "LTB", ⟨0, 2, "node-1"⟩⟩
    j.IsSound ∧ j.Fresh Files.empty ∧ (∀ v ∈ shared, v.IsPlain) ∧ j.Logged Files.empty shared ∧
      j.total shared ⟨0, 2, "node-1"⟩ "summary" = [104, 105, 33] ∧
      (j.after Files.empty shared).read "/var/logs/LTB/node-1-0/summary" = .ok [104, 105, 33] := by
  have hsound : IsSound ⟨"/var/./logs/", "LTB", ⟨0, 2, "node-1"⟩⟩ := ⟨by decide, by decide⟩
  have hplain : ∀ v ∈ shared, v.IsPlain := by
    intro v hv
    simp only [shared, List.mem_cons, List.not_mem_nil, or_false] at hv
    rcases hv with rfl | rfl | rfl <;> exact ⟨by decide, by decide⟩
  exact ⟨hsound, fresh_empty _, hplain, logs_appended hsound (fresh_empty _) hplain, by decide +kernel,
    by decide +kernel⟩

end Lagmeter.Journal
