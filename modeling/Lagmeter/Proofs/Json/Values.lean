import Lagmeter.Json.Writer
import Lagmeter.Proofs.Json.Numbers
import Mathlib.Data.List.DropRight

/-!
# Values over several lines

A value whose numbers and texts are well spelled is read back from its lines, down to every spelling in
it. The blanks between its parts are skipped, and its text is longer than the value is deep, so the fuel
lasts.
-/

namespace Lagmeter.Json

/-- A value with readable spellings only. -/
inductive Readable : Json → Prop where
  | null : Readable .null
  | bool (b : Bool) : Readable (.bool b)
  | number {lexeme : List Char} (h : IsNumber lexeme) : Readable (.number lexeme)
  | text {raw : List Char} (h : IsRaw raw) : Readable (.text raw)
  | list {items : List Json} (h : ∀ j ∈ items, Readable j) : Readable (.list items)
  | object {members : List (List Char × Json)} (names : ∀ m ∈ members, IsRaw m.1)
    (values : ∀ m ∈ members, Readable m.2) : Readable (.object members)

section

variable {c : Char} {cs rest : List Char} {fuel level : Nat} {j : Json}

/-! ## Blanks -/

theorem skipSpace_cons (h : isSpace c = false) (cs : List Char) : skipSpace (c :: cs) = c :: cs := by
  simp [skipSpace, h]

theorem skipSpace_idem (cs : List Char) : skipSpace (skipSpace cs) = skipSpace cs :=
  List.dropWhile_idempotent _ cs

theorem skipSpace_newline (level : Nat) (cs : List Char) :
    skipSpace (newline level ++ cs) = skipSpace cs := by
  refine List.dropWhile_append_of_pos fun c hc => ?_
  rcases List.mem_cons.mp hc with rfl | hc
  · rfl
  · rw [List.eq_of_mem_replicate hc]
    rfl

theorem skipSpace_quoted (name rest : List Char) :
    skipSpace (quoted name ++ rest) = '"' :: (name ++ '"' :: rest) := by
  rw [quoted, List.cons_append, List.cons_append, List.append_assoc,
    skipSpace_cons (show isSpace '"' = false from rfl)]
  rfl

theorem value?_skipSpace (fuel : Nat) (cs : List Char) : value? fuel (skipSpace cs) = value? fuel cs := by
  cases fuel with
  | zero => rfl
  | succ fuel => simp only [value?, skipSpace_idem]

theorem value?_newline (fuel level : Nat) (cs : List Char) :
    value? fuel (newline level ++ cs) = value? fuel cs := by
  rw [← value?_skipSpace, skipSpace_newline, value?_skipSpace]

theorem value?_blank (fuel : Nat) (cs : List Char) : value? fuel (' ' :: cs) = value? fuel cs := by
  rw [← value?_skipSpace, show skipSpace (' ' :: cs) = skipSpace cs from rfl, value?_skipSpace]

theorem itemRun?_skipSpace (fuel : Nat) (cs : List Char) :
    itemRun? fuel (skipSpace cs) = itemRun? fuel cs := by
  cases fuel with
  | zero => rfl
  | succ fuel => simp only [itemRun?, value?_skipSpace]

theorem memberRun?_skipSpace (fuel : Nat) (cs : List Char) :
    memberRun? fuel (skipSpace cs) = memberRun? fuel cs := by
  cases fuel with
  | zero => rfl
  | succ fuel => simp only [memberRun?, skipSpace_idem]

/-! ## What a value begins with -/

theorem IsNumber.exists_cons (h : IsNumber cs) :
    ∃ c rest, cs = c :: rest ∧ (c = '-' ∨ c.isDigit = true) := by
  obtain ⟨l, rfl⟩ := h
  obtain ⟨d, ds, hds⟩ := List.exists_cons_of_ne_nil l.whole_ne_nil
  rw [Lexeme.text, hds]
  cases l.negative with
  | true => exact ⟨'-', _, rfl, .inl rfl⟩
  | false => exact ⟨d, _, rfl, .inr (l.whole_digits d (hds ▸ List.mem_cons_self))⟩

theorem Readable.exists_cons (h : Readable j) (level : Nat) :
    ∃ c rest, pretty level j = c :: rest ∧ isSpace c = false ∧ c ≠ ']' := by
  cases h with
  | null => exact ⟨'n', _, rfl, rfl, by decide⟩
  | bool b => cases b <;> exact ⟨_, _, rfl, rfl, by decide⟩
  | number h =>
    obtain ⟨c, rest, rfl, hc⟩ := h.exists_cons
    refine ⟨c, rest, rfl, ?_, ?_⟩
    · rcases hc with rfl | hc
      · rfl
      · simp only [isSpace, Bool.or_eq_false_iff, decide_eq_false_iff_not]
        refine ⟨⟨⟨?_, ?_⟩, ?_⟩, ?_⟩ <;> rintro rfl <;> cases hc
    · rintro rfl
      rcases hc with hc | hc <;> cases hc
  | text => exact ⟨'"', _, rfl, rfl, by decide⟩
  | @list items => cases items <;> exact ⟨'[', _, rfl, rfl, by decide⟩
  | @object members => cases members <;> exact ⟨'\x7b', _, rfl, rfl, by decide⟩

/-! ## The kinds of values -/

theorem value?_number (h : IsNumber cs) (hrest : Ends rest) (fuel : Nat) :
    value? (fuel + 1) (cs ++ rest) = some (.number cs, rest) := by
  have hrun : numberRun? (cs ++ rest) = some (cs, rest) := by
    obtain ⟨l, rfl⟩ := h
    exact l.numberRun?_text hrest
  obtain ⟨c, ds, hcs, hspace, -⟩ := (Readable.number h).exists_cons 0
  obtain rfl : cs = c :: ds := hcs
  obtain ⟨_, _, hcons, hc⟩ := h.exists_cons
  obtain ⟨rfl, rfl⟩ := List.cons.inj hcons
  rw [List.cons_append] at hrun
  unfold value?
  rw [List.cons_append, skipSpace_cons hspace]
  split
  case h_7 => rw [hrun]; rfl
  all_goals
    rename_i heq
    obtain ⟨rfl, -⟩ := List.cons.inj heq
    rcases hc with hc | hc <;> cases hc

theorem value?_text (h : IsRaw cs) (fuel : Nat) (rest : List Char) :
    value? (fuel + 1) (quoted cs ++ rest) = some (.text cs, rest) := by
  simp only [value?, skipSpace_quoted, h rest, Option.map_some]

theorem value?_list (h : ∀ c ∈ (skipSpace cs).head?, c ≠ ']') (fuel : Nat) :
    value? (fuel + 1) ('[' :: cs) = (itemRun? fuel cs).map fun (items, rest) => (.list items, rest) := by
  simp only [value?, skipSpace_cons (show isSpace '[' = false from rfl)]
  split
  case h_1 heq => exact absurd rfl (h ']' (by rw [heq]; rfl))
  case h_2 => rw [itemRun?_skipSpace]

theorem value?_object (h : ∀ c ∈ (skipSpace cs).head?, c ≠ '\x7d') (fuel : Nat) :
    value? (fuel + 1) ('\x7b' :: cs) =
      (memberRun? fuel cs).map fun (members, rest) => (.object members, rest) := by
  simp only [value?, skipSpace_cons (show isSpace '\x7b' = false from rfl)]
  split
  case h_1 heq => exact absurd rfl (h '\x7d' (by rw [heq]; rfl))
  case h_2 => rw [memberRun?_skipSpace]

/-! ## Runs of items and members -/

/-- A value is read from its lines, with any blanks before them, and leaves what follows. -/
def Reads (j : Json) : Prop := ∀ level fuel rest, (pretty level j).length < fuel → Ends rest →
  value? fuel (pretty level j ++ rest) = some (j, rest)

theorem Reads.of_succ (h : ∀ level fuel rest, (pretty level j).length ≤ fuel → Ends rest →
    value? (fuel + 1) (pretty level j ++ rest) = some (j, rest)) : Reads j := by
  intro level fuel rest hfuel hrest
  obtain ⟨fuel, rfl⟩ : ∃ n, fuel = n + 1 := ⟨fuel - 1, by omega⟩
  exact h level fuel rest (by omega) hrest

theorem ends_newline (level : Nat) (cs : List Char) : Ends (newline level ++ cs) := by
  rintro c ⟨⟩
  exact .inr rfl

theorem ends_comma (cs : List Char) : Ends (',' :: cs) := by
  rintro c ⟨⟩
  exact .inl rfl

theorem length_newline (level : Nat) : 0 < (newline level).length := Nat.succ_pos _

theorem itemRun?_items {items : List Json} (hne : items ≠ []) (h : ∀ j ∈ items, Reads j) (outer level : Nat)
    (rest : List Char) (hfuel : (prettyItems level items).length < fuel) :
    itemRun? fuel (prettyItems level items ++ (newline outer ++ ']' :: rest)) = some (items, rest) := by
  have hnewline := length_newline level
  -- Each item takes its line break from the text and one step from the fuel, so the text gets short first.
  induction items generalizing fuel with
  | nil => exact absurd rfl hne
  | cons j items ih =>
    obtain ⟨fuel, rfl⟩ : ∃ n, fuel = n + 1 := ⟨fuel - 1, by omega⟩
    have hj := h j List.mem_cons_self level fuel
    cases items with
    | nil =>
      rw [prettyItems, List.length_append] at hfuel
      rw [prettyItems, List.append_assoc, itemRun?, value?_newline,
        hj _ (by omega) (ends_newline _ _)]
      simp only [skipSpace_newline, skipSpace_cons (show isSpace ']' = false from rfl)]
    | cons k items =>
      simp only [prettyItems, List.length_append, List.length_cons] at hfuel
      have hlength : (prettyItems level (k :: items)).length < fuel := by omega
      have hrest := ih (by simp) (fun i hi => h i (List.mem_cons_of_mem j hi)) hlength
      rw [prettyItems, List.append_assoc, List.append_assoc, List.cons_append, itemRun?, value?_newline,
        hj _ (by omega) (ends_comma _)]
      simp only [skipSpace_cons (show isSpace ',' = false from rfl), hrest, Option.map_some]

theorem memberRun?_last {name : List Char} (hname : IsRaw name) (hj : Reads j)
    (hfuel : (pretty level j).length < fuel) (outer : Nat) (rest : List Char) :
    memberRun? (fuel + 1) (newline level ++ (quoted name ++ ':' :: ' ' ::
      (pretty level j ++ (newline outer ++ '\x7d' :: rest)))) = some ([(name, j)], rest) := by
  simp only [memberRun?, skipSpace_newline, skipSpace_quoted, hname _, value?_blank,
    skipSpace_cons (show isSpace ':' = false from rfl), hj level fuel _ hfuel (ends_newline _ _),
    skipSpace_cons (show isSpace '\x7d' = false from rfl)]

theorem memberRun?_more {name : List Char} (hname : IsRaw name) (hj : Reads j)
    (hfuel : (pretty level j).length < fuel) {members : List (List Char × Json)}
    (hmembers : memberRun? fuel cs = some (members, rest)) :
    memberRun? (fuel + 1) (newline level ++ (quoted name ++ ':' :: ' ' :: (pretty level j ++ ',' :: cs))) =
      some ((name, j) :: members, rest) := by
  simp only [memberRun?, skipSpace_newline, skipSpace_quoted, hname _, value?_blank,
    skipSpace_cons (show isSpace ':' = false from rfl), hj level fuel _ hfuel (ends_comma _),
    skipSpace_cons (show isSpace ',' = false from rfl), hmembers, Option.map_some]

theorem memberRun?_members {members : List (List Char × Json)} (hne : members ≠ [])
    (names : ∀ m ∈ members, IsRaw m.1) (values : ∀ m ∈ members, Reads m.2) (outer level : Nat)
    (rest : List Char) (hfuel : (prettyMembers level members).length < fuel) :
    memberRun? fuel (prettyMembers level members ++ (newline outer ++ '\x7d' :: rest)) =
      some (members, rest) := by
  have hnewline := length_newline level
  induction members generalizing fuel with
  | nil => exact absurd rfl hne
  | cons m members ih =>
    obtain ⟨name, j⟩ := m
    obtain ⟨fuel, rfl⟩ : ∃ n, fuel = n + 1 := ⟨fuel - 1, by omega⟩
    have hname := names (name, j) List.mem_cons_self
    have hj : Reads j := values (name, j) List.mem_cons_self
    cases members with
    | nil =>
      simp only [prettyMembers, List.length_append, List.length_cons] at hfuel
      simp only [prettyMembers, List.append_assoc, List.cons_append]
      exact memberRun?_last hname hj (by omega) outer rest
    | cons k members =>
      simp only [prettyMembers, List.length_append, List.length_cons] at hfuel
      have hlength : (prettyMembers level (k :: members)).length < fuel := by omega
      have hrest := ih (by simp) (fun i hi => names i (List.mem_cons_of_mem _ hi))
        (fun i hi => values i (List.mem_cons_of_mem _ hi)) hlength
      simp only [prettyMembers, List.append_assoc, List.cons_append]
      exact memberRun?_more hname hj (by omega) hrest

end

/-! ## All values -/

theorem Readable.reads {j : Json} (h : Readable j) : Reads j := by
  induction h with
  | null => exact .of_succ fun _ _ _ _ _ => rfl
  | bool b => exact .of_succ fun _ _ _ _ _ => by cases b <;> rfl
  | number h => exact .of_succ fun _ fuel _ _ hrest => value?_number h hrest fuel
  | text h => exact .of_succ fun _ fuel rest _ _ => value?_text h fuel rest
  | @list items h ih =>
    refine .of_succ fun level fuel rest hfuel _ => ?_
    cases items with
    | nil => rfl
    | cons j items =>
      simp only [pretty, List.length_append, List.length_cons] at hfuel
      have hlength : (prettyItems (level + 1) (j :: items)).length < fuel := by omega
      have hrun := itemRun?_items (by simp) ih level (level + 1) rest hlength
      have hopen : ∀ cs, ∀ c ∈ (skipSpace (prettyItems (level + 1) (j :: items) ++ cs)).head?, c ≠ ']' := by
        intro cs
        obtain ⟨c, text, htext, hspace, hc⟩ := (h j List.mem_cons_self).exists_cons (level + 1)
        cases items <;> simp [prettyItems, skipSpace_newline, htext, skipSpace_cons hspace, hc]
      simp only [pretty, List.append_assoc, List.cons_append, List.nil_append]
      rw [value?_list (hopen _), hrun]
      rfl
  | @object members names values ih =>
    refine .of_succ fun level fuel rest hfuel _ => ?_
    cases members with
    | nil => rfl
    | cons m members =>
      simp only [pretty, List.length_append, List.length_cons] at hfuel
      have hlength : (prettyMembers (level + 1) (m :: members)).length < fuel := by omega
      have hrun := memberRun?_members (by simp) names ih level (level + 1) rest hlength
      have hopen : ∀ cs, ∀ c ∈ (skipSpace (prettyMembers (level + 1) (m :: members) ++ cs)).head?,
          c ≠ '\x7d' := by
        intro cs
        cases members <;> simp [prettyMembers, skipSpace_newline, skipSpace_quoted]
      simp only [pretty, List.append_assoc, List.cons_append, List.nil_append]
      rw [value?_object (hopen _), hrun]
      rfl

/-- What is written over several lines is read as it was. -/
theorem Readable.read?_prettyText {j : Json} (h : Readable j) : read? j.prettyText = some j := by
  have hends : Ends [] := by simp [Ends]
  have hvalue := h.reads 0 ((pretty 0 j).length + 1) [] (Nat.lt_succ_self _) hends
  rw [List.append_nil] at hvalue
  simp only [read?, prettyText, String.toList_ofList, hvalue]
  rfl

end Lagmeter.Json
