import Lagmeter.Proofs.Star.Reception
import Mathlib.Order.Interval.Finset.Nat

/-!
# How a group forms

Clients come to the root in any order, and each may send any octets. A client joins if its stream begins
with the hello of a rank. The first client of a rank is kept. The root stops as soon as it has one of
each rank, or at the first client that does not join. It knows no more than how many ranks are connected.
-/

namespace Lagmeter.Star

/-! ## What a client says -/

/-- The stream of a client begins with a frame, and `rest` is what comes after it. -/
structure Begins (c : Pipe) (f : Frame) (rest : Pipe) : Prop where
  whole : ∃ body, body.length ≤ maxFrame ∧ Frame.decode body = .ok f ∧ c.octets = framed body ++ rest.octets
  ended : rest.ended = c.ended

/-- A hello of one word. -/
def IsHello (f : Frame) (word : Int64) : Prop := f.operation = .hello ∧ f.payload = .words [word]

/-- The client says that it is a rank of the group, and no root. -/
def Joins (size : Nat) (c : Pipe) (rank : Nat) (rest : Pipe) : Prop :=
  ∃ f word, Begins c f rest ∧ IsHello f word ∧ word.toInt = rank ∧ 1 ≤ rank ∧ rank < size

/-- Why a client does not join. -/
inductive Refused (size : Nat) (c : Pipe) : GroupError → Prop where
  | cutOff (hended : c.ended = true) (h : Incomplete c.octets) : Refused size c (.transport "early eof")
  | oversize (length : Nat) (rest : List UInt8) (hlarge : maxFrame < length) (hlength : length < 256 ^ 4)
      (h : c.octets = Codec.octets 4 length ++ rest) : Refused size c (.frameTooLarge length)
  | garbled (body rest : List UInt8) (e : CodecError) (hsmall : body.length ≤ maxFrame)
      (h : c.octets = framed body ++ rest) (hdecode : Frame.decode body = .error e) :
      Refused size c (.codec e)
  | stranger (f : Frame) (rest : Pipe) (h : Begins c f rest) (hhello : ∀ word, ¬ IsHello f word) :
      Refused size c (.collective (.notHello f.operation))
  | negative (f : Frame) (word : Int64) (rest : Pipe) (h : Begins c f rest) (hhello : IsHello f word)
      (hrank : word.toInt < 0) : Refused size c (.invalidRank (2 ^ 64 - 1) size)
  | outsider (f : Frame) (word : Int64) (rank : Nat) (rest : Pipe) (h : Begins c f rest)
      (hhello : IsHello f word) (hword : word.toInt = rank) (hrank : rank = 0 ∨ size ≤ rank) :
      Refused size c (.invalidRank rank size)

/-- The client has not sent a whole frame, and more may come. -/
def Silent (c : Pipe) : Prop := c.ended = false ∧ Incomplete c.octets

variable {size peer : Nat} {c : Pipe}

theorem read_eq_none_iff : read peer c = none ↔ Silent c := by
  constructor
  · intro h
    have hopen : c.ended = false := by
      cases hended : c.ended with
      | false => rfl
      | true =>
        have hcut : cutOff peer c ≠ none := by simp [cutOff, hended]
        unfold read at h
        split at h
        · exact absurd h hcut
        · split at h
          · cases h
          · split at h
            · exact absurd h hcut
            · cases h
    refine ⟨hopen, fun piece hfits ⟨more, hmore⟩ => ?_⟩
    have hread := read_piece peer hfits more c.ended
    rw [hmore, h] at hread
    cases hread
  · rintro ⟨hopen, hpart⟩
    cases hread : read peer c with
    | none => rfl
    | some r =>
      rcases read_cases hread with ⟨piece, hfits, hoctets, -⟩ | ⟨hended, -⟩
      · exact absurd ⟨_, hoctets.symm⟩ (hpart piece hfits)
      · exact Bool.noConfusion (hopen.symm.trans hended)

theorem read_of_cutOff (hended : c.ended = true) (hpart : Incomplete c.octets) :
    read peer c = some ⟨.error (.disconnected peer), ⟨[], true⟩, true⟩ := by
  cases hread : read peer c with
  | none => exact Bool.noConfusion ((read_eq_none_iff.mp hread).1.symm.trans hended)
  | some r =>
    rcases read_cases hread with ⟨piece, hfits, hoctets, -⟩ | ⟨-, -, rfl⟩
    · exact absurd ⟨_, hoctets.symm⟩ (hpart piece hfits)
    · rfl

theorem Begins.read {f : Frame} {rest : Pipe} (h : Begins c f rest) (peer : Nat) :
    read peer c = some ⟨.ok f, rest, false⟩ := by
  obtain ⟨body, hsmall, hdecode, hoctets⟩ := h.whole
  have hread := read_piece peer (p := .body body) hsmall rest.octets c.ended
  have hverdict : (Piece.body body).verdict = .ok f := congrArg (Except.mapError GroupError.codec) hdecode
  rw [hverdict, Piece.octets, ← hoctets] at hread
  rw [hread, ← h.ended]

theorem greeting_of_begins {f : Frame} {rest : Pipe} (h : Begins c f rest) :
    greeting size c = some ((announced size f).map fun rank => (rank, rest)) := by
  rw [greeting, h.read 0]
  rfl

theorem announced_of_isHello {f : Frame} {word : Int64} (h : IsHello f word) : announced size f =
    if word.toInt < 0 then .error (.invalidRank (2 ^ 64 - 1) size)
    else if word.toInt.toNat = 0 ∨ size ≤ word.toInt.toNat then .error (.invalidRank word.toInt.toNat size)
    else .ok word.toInt.toNat := by
  obtain ⟨hoperation, hpayload⟩ := h
  simp only [announced, hoperation, hpayload]
  rfl

theorem announced_of_stranger {f : Frame} (h : ∀ word, ¬ IsHello f word) :
    announced size f = .error (.collective (.notHello f.operation)) := by
  unfold announced
  split
  case h_1 word hoperation hpayload => exact absurd ⟨hoperation, hpayload⟩ (h word)
  case h_2 => rfl

theorem client_cases (size : Nat) (c : Pipe) :
    (∃ rank rest, Joins size c rank rest) ∨ (∃ e, Refused size c e) ∨ Silent c := by
  cases hread : read 0 c with
  | none => exact .inr (.inr (read_eq_none_iff.mp hread))
  | some r =>
    obtain ⟨piece, hfits, hoctets, hended, -, -⟩ | ⟨hended, hpart, -⟩ := read_cases hread
    · cases piece with
      | oversize length => exact .inr (.inl ⟨_, .oversize length _ hfits.1 hfits.2 hoctets⟩)
      | body body =>
        cases hdecode : Frame.decode body with
        | error e => exact .inr (.inl ⟨_, .garbled body _ e hfits hoctets hdecode⟩)
        | ok f =>
          have hbegins : Begins c f r.pipe := ⟨⟨body, hfits, hdecode, hoctets⟩, hended⟩
          by_cases hhello : ∃ word, IsHello f word
          · obtain ⟨word, hhello⟩ := hhello
            by_cases hnegative : word.toInt < 0
            · exact .inr (.inl ⟨_, .negative f word _ hbegins hhello hnegative⟩)
            · obtain ⟨rank, hword⟩ := Int.eq_ofNat_of_zero_le (Int.not_lt.mp hnegative)
              by_cases hrank : rank = 0 ∨ size ≤ rank
              · exact .inr (.inl ⟨_, .outsider f word rank _ hbegins hhello hword hrank⟩)
              · exact .inl ⟨rank, _, f, word, hbegins, hhello, hword, by omega, by omega⟩
          · exact .inr (.inl ⟨_, .stranger f _ hbegins fun word h => hhello ⟨word, h⟩⟩)
    · exact .inr (.inl ⟨_, .cutOff hended hpart⟩)

theorem greeting_of_joins {rank : Nat} {rest : Pipe} (h : Joins size c rank rest) :
    greeting size c = some (.ok (rank, rest)) := by
  obtain ⟨f, word, hbegins, hhello, hword, hpos, hlt⟩ := h
  rw [greeting_of_begins hbegins, announced_of_isHello hhello, hword, if_neg (by omega), Int.toNat_natCast,
    if_neg (by omega)]
  rfl

theorem greeting_of_refused {e : GroupError} (h : Refused size c e) :
    greeting size c = some (.error e) := by
  cases h with
  | cutOff hended hpart => rw [greeting, read_of_cutOff hended hpart]; rfl
  | oversize length rest hlarge hlength hoctets =>
    have hread := read_piece 0 (p := .oversize length) ⟨hlarge, hlength⟩ rest c.ended
    rw [Piece.octets, ← hoctets] at hread
    rw [greeting, hread]
    rfl
  | garbled body rest e hsmall hoctets hdecode =>
    have hread := read_piece 0 (p := .body body) hsmall rest c.ended
    have hverdict : (Piece.body body).verdict = .error (.codec e) :=
      congrArg (Except.mapError GroupError.codec) hdecode
    rw [hverdict, Piece.octets, ← hoctets] at hread
    rw [greeting, hread]
    rfl
  | stranger f rest hbegins hhello => rw [greeting_of_begins hbegins, announced_of_stranger hhello]; rfl
  | negative f word rest hbegins hhello hrank =>
    rw [greeting_of_begins hbegins, announced_of_isHello hhello, if_pos hrank]
    rfl
  | outsider f word rank rest hbegins hhello hword hrank =>
    rw [greeting_of_begins hbegins, announced_of_isHello hhello, hword, if_neg (by omega),
      Int.toNat_natCast, if_pos hrank]
    rfl

theorem greeting_of_silent (h : Silent c) : greeting size c = none := by
  rw [greeting, read_eq_none_iff.mpr h]
  rfl

theorem Joins.unique {rank rank' : Nat} {rest rest' : Pipe} (h : Joins size c rank rest)
    (h' : Joins size c rank' rest') : rank = rank' ∧ rest = rest' := by
  have heq := (greeting_of_joins h).symm.trans (greeting_of_joins h')
  simpa using heq

theorem Joins.not_refused {rank : Nat} {rest : Pipe} (h : Joins size c rank rest) (e : GroupError) :
    ¬ Refused size c e := by
  intro he
  have heq := (greeting_of_joins h).symm.trans (greeting_of_refused he)
  cases heq

theorem Joins.not_silent {rank : Nat} {rest : Pipe} (h : Joins size c rank rest) : ¬ Silent c := by
  intro hsilent
  have heq := (greeting_of_joins h).symm.trans (greeting_of_silent hsilent)
  cases heq

/-! ## Who has joined -/

/-- A client has said that it is this rank. -/
def Announced (size : Nat) (clients : List Pipe) (rank : Nat) : Prop :=
  ∃ c ∈ clients, ∃ rest, Joins size c rank rest

/-- `rest` is what comes after the hello of the first client of a rank. -/
def First (size : Nat) (clients : List Pipe) (rank : Nat) (rest : Pipe) : Prop :=
  ∃ before c after, clients = before ++ c :: after ∧ Joins size c rank rest ∧ ¬ Announced size before rank

/-- Every rank but the root has a client. -/
def Complete (size : Nat) (clients : List Pipe) : Prop :=
  ∀ rank, 1 ≤ rank → rank < size → Announced size clients rank

def AllJoin (size : Nat) (clients : List Pipe) : Prop := ∀ c ∈ clients, ∃ rank rest, Joins size c rank rest

variable {clients heard before more : List Pipe} {rank : Nat} {rest : Pipe}

theorem announced_concat : Announced size (heard ++ [c]) rank ↔
    Announced size heard rank ∨ ∃ rest, Joins size c rank rest := by
  simp [Announced, or_and_right, exists_or]

theorem Announced.of_part (h : Announced size heard rank) (hpart : heard <+: clients) :
    Announced size clients rank := by
  obtain ⟨c, hc, hjoins⟩ := h
  exact ⟨c, hpart.subset hc, hjoins⟩

theorem Complete.of_part (h : Complete size heard) (hpart : heard <+: clients) :
    Complete size clients := fun rank hpos hlt => (h rank hpos hlt).of_part hpart

theorem First.of_part (h : First size heard rank rest) (hpart : heard <+: clients) :
    First size clients rank rest := by
  obtain ⟨others, rfl⟩ := hpart
  obtain ⟨before, c, after, rfl, hfirst⟩ := h
  exact ⟨before, c, after ++ others, by simp, hfirst⟩

theorem first_concat : First size (heard ++ [c]) rank rest ↔
    First size heard rank rest ∨ (¬ Announced size heard rank ∧ Joins size c rank rest) := by
  constructor
  · rintro ⟨before, d, after, hclients, hjoins, hnew⟩
    rcases List.eq_nil_or_concat after with rfl | ⟨after, x, rfl⟩
    · obtain ⟨rfl, hlast⟩ := List.append_inj' hclients rfl
      obtain rfl := List.singleton_inj.mp hlast
      exact .inr ⟨hnew, hjoins⟩
    · rw [List.concat_eq_append, ← List.cons_append, ← List.append_assoc] at hclients
      exact .inl ⟨before, d, after, (List.append_inj' hclients rfl).1, hjoins, hnew⟩
  · rintro (h | ⟨hnew, hjoins⟩)
    · exact h.of_part (List.prefix_append ..)
    · exact ⟨heard, c, [], rfl, hjoins, hnew⟩

theorem exists_first (h : Announced size clients rank) : ∃ rest, First size clients rank rest := by
  induction clients using List.reverseRecOn with
  | nil => obtain ⟨c, hc, -⟩ := h; cases hc
  | append_singleton heard c ih =>
    by_cases hheard : Announced size heard rank
    · obtain ⟨rest, hfirst⟩ := ih hheard
      exact ⟨rest, first_concat.mpr (.inl hfirst)⟩
    · obtain ⟨rest, hjoins⟩ := (announced_concat.mp h).resolve_left hheard
      exact ⟨rest, first_concat.mpr (.inr ⟨hheard, hjoins⟩)⟩

theorem First.announced (h : First size clients rank rest) : Announced size clients rank := by
  obtain ⟨before, c, after, rfl, hjoins, -⟩ := h
  exact ⟨c, List.mem_append_right _ List.mem_cons_self, rest, hjoins⟩

/-! ## What the root knows -/

/-- One place for each rank that has joined, which is that of its first client, and one number more. -/
structure Kept (size : Nat) (heard : List Pipe) (connected : Nat) (joined : List (Nat × Pipe)) : Prop where
  count : connected = joined.length + 1
  nodup : (joined.map Prod.fst).Nodup
  first : ∀ rank rest, joined.lookup rank = some rest ↔ First size heard rank rest

variable {connected : Nat} {joined : List (Nat × Pipe)} {timeout : Span}

theorem kept_nil : Kept size [] 1 [] where
  count := rfl
  nodup := List.nodup_nil
  first := by simp [First]

theorem Kept.isSome_lookup (h : Kept size heard connected joined) :
    (joined.lookup rank).isSome = true ↔ Announced size heard rank := by
  rw [Option.isSome_iff_exists]
  constructor
  · rintro ⟨rest, hrest⟩
    exact ((h.first rank rest).mp hrest).announced
  · intro hannounced
    obtain ⟨rest, hfirst⟩ := exists_first hannounced
    exact ⟨rest, (h.first rank rest).mpr hfirst⟩

theorem Kept.mem_ranks (h : Kept size heard connected joined) :
    rank ∈ joined.map Prod.fst ↔ Announced size heard rank := by
  rw [← h.isSome_lookup, List.lookup_isSome_iff, List.mem_map]
  exact exists_congr fun p => and_congr_right fun _ => eq_comm.trans beq_iff_eq.symm

theorem Kept.first_of_mem (h : Kept size heard connected joined) (hmem : (rank, rest) ∈ joined) :
    First size heard rank rest := by
  rw [← h.first, List.lookup_eq_some_iff]
  obtain ⟨before, after, rfl⟩ := List.append_of_mem hmem
  refine ⟨before, after, rfl, fun p hp => ?_⟩
  have hnodup := h.nodup
  rw [List.map_append, List.map_cons, List.nodup_append] at hnodup
  exact bne_iff_ne.mpr (hnodup.2.2 p.1 (List.mem_map_of_mem hp) rank List.mem_cons_self).symm

theorem Announced.bounds (h : Announced size clients rank) : 1 ≤ rank ∧ rank < size := by
  obtain ⟨-, -, -, -, -, -, -, -, hpos, hlt⟩ := h
  exact ⟨hpos, hlt⟩

theorem Kept.le_connected_iff (h : Kept size heard connected joined) :
    size ≤ connected ↔ Complete size heard := by
  have hsubset : (joined.map Prod.fst).toFinset ⊆ Finset.Ico 1 size := by
    intro rank hrank
    rw [List.mem_toFinset, h.mem_ranks] at hrank
    exact Finset.mem_Ico.mpr hrank.bounds
  have hcard : (joined.map Prod.fst).toFinset.card + 1 = connected := by
    rw [List.toFinset_card_of_nodup h.nodup, List.length_map, h.count]
  constructor
  · intro hle rank hpos hlt
    have heq := Finset.eq_of_subset_of_card_le hsubset (by rw [Nat.card_Ico]; omega)
    have hrank : rank ∈ (joined.map Prod.fst).toFinset := by
      rw [heq]
      exact Finset.mem_Ico.mpr ⟨hpos, hlt⟩
    exact h.mem_ranks.mp (List.mem_toFinset.mp hrank)
  · intro hcomplete
    have hall : Finset.Ico 1 size ⊆ (joined.map Prod.fst).toFinset := by
      intro rank hrank
      obtain ⟨hpos, hlt⟩ := Finset.mem_Ico.mp hrank
      exact List.mem_toFinset.mpr (h.mem_ranks.mpr (hcomplete rank hpos hlt))
    have hle := Finset.card_le_card hall
    rw [Nat.card_Ico] at hle
    omega

/-- The ranks of which no client has come, in increasing order, stand in the message of a group that
is late. -/
def Late (size : Nat) (timeout : Span) (clients : List Pipe) (e : GroupError) : Prop :=
  ∃ absent : List Nat, (∀ rank, rank ∈ absent ↔ 1 ≤ rank ∧ rank < size ∧ ¬ Announced size clients rank) ∧
    absent.Pairwise (· < ·) ∧ e = .timeout s!"ranks {absent} did not join within {timeout.exact}"

theorem Kept.late (h : Kept size heard connected joined) (timeout : Span) :
    Late size timeout heard (late size joined timeout) := by
  refine ⟨missing size joined, fun rank => ?_, (List.pairwise_lt_range' 1 Nat.one_pos).filter _, rfl⟩
  have hrange : 1 ≤ rank ∧ rank < 1 + (size - 1) ↔ 1 ≤ rank ∧ rank < size := by omega
  rw [missing, List.mem_filter, List.mem_range'_1, hrange, ← h.isSome_lookup, ← Option.not_isSome,
    Bool.not_eq_true', Bool.not_eq_true, and_assoc]

/-! ## One client -/

theorem acceptAll_of_complete (h : Kept size heard connected joined) (hcomplete : Complete size heard)
    (clients : List Pipe) : acceptAll size timeout connected joined clients = .ok joined := by
  have hle := h.le_connected_iff.mpr hcomplete
  cases clients with
  | nil => exact if_pos hle
  | cons c clients => exact if_pos hle

section

variable (h : Kept size heard connected joined) (hpartial : ¬ Complete size heard)
include h hpartial

theorem acceptAll_nil : acceptAll size timeout connected joined [] = .error (late size joined timeout) :=
  if_neg (mt h.le_connected_iff.mp hpartial)

theorem acceptAll_cons (c : Pipe) (clients : List Pipe) :
    acceptAll size timeout connected joined (c :: clients) = match greeting size c with
      | none => .error (late size joined timeout)
      | some (.error e) => .error e
      | some (.ok (rank, pipe)) =>
        if (joined.lookup rank).isSome then acceptAll size timeout connected joined clients
        else acceptAll size timeout (connected + 1) (joined ++ [(rank, pipe)]) clients :=
  if_neg (mt h.le_connected_iff.mp hpartial)

theorem acceptAll_refused {e : GroupError} (he : Refused size c e) :
    acceptAll size timeout connected joined (c :: clients) = .error e := by
  rw [acceptAll_cons h hpartial, greeting_of_refused he]

theorem acceptAll_silent (hsilent : Silent c) :
    acceptAll size timeout connected joined (c :: clients) = .error (late size joined timeout) := by
  rw [acceptAll_cons h hpartial, greeting_of_silent hsilent]

theorem acceptAll_again (hjoins : Joins size c rank rest) (hagain : Announced size heard rank) :
    acceptAll size timeout connected joined (c :: clients) =
      acceptAll size timeout connected joined clients := by
  rw [acceptAll_cons h hpartial, greeting_of_joins hjoins]
  exact if_pos (h.isSome_lookup.mpr hagain)

theorem acceptAll_new (hjoins : Joins size c rank rest) (hnew : ¬ Announced size heard rank) :
    acceptAll size timeout connected joined (c :: clients) =
      acceptAll size timeout (connected + 1) (joined ++ [(rank, rest)]) clients := by
  rw [acceptAll_cons h hpartial, greeting_of_joins hjoins]
  exact if_neg (mt h.isSome_lookup.mp hnew)

end

theorem Kept.again (h : Kept size heard connected joined) (hjoins : Joins size c rank rest)
    (hagain : Announced size heard rank) : Kept size (heard ++ [c]) connected joined where
  count := h.count
  nodup := h.nodup
  first r p := by
    rw [h.first, first_concat, or_iff_left]
    rintro ⟨hnew, hjoins'⟩
    obtain ⟨rfl, -⟩ := hjoins.unique hjoins'
    exact hnew hagain

theorem Kept.new (h : Kept size heard connected joined) (hjoins : Joins size c rank rest)
    (hnew : ¬ Announced size heard rank) :
    Kept size (heard ++ [c]) (connected + 1) (joined ++ [(rank, rest)]) where
  count := by rw [h.count, List.length_append, List.length_singleton]
  nodup := by
    rw [List.map_append, List.nodup_append]
    refine ⟨h.nodup, List.nodup_singleton _, fun r hr r' hr' => ?_⟩
    rintro rfl
    rw [List.mem_singleton.mp hr'] at hr
    exact hnew (h.mem_ranks.mp hr)
  first r p := by
    rw [first_concat, ← h.first, List.lookup_append]
    by_cases heq : r = rank
    · subst heq
      have hnone : joined.lookup r = none := by
        rw [← Option.not_isSome_iff_eq_none, h.isSome_lookup]
        exact hnew
      have hsame : Joins size c r p ↔ rest = p :=
        ⟨fun h' => (hjoins.unique h').2, fun heq => heq ▸ hjoins⟩
      simp [hnone, hnew, hsame]
    · have hother : ¬ Joins size c r p := fun h' => heq (hjoins.unique h').1.symm
      simp [hother, List.lookup_cons, beq_eq_false_iff_ne.mpr heq]

/-! ## All clients -/

theorem accept_heard (hjoin : AllJoin size heard)
    (hneeded : ∀ before c, heard = before ++ [c] → ¬ Complete size before) (timeout : Span) :
    ∃ connected joined, Kept size heard connected joined ∧ ∀ clients,
      accept size timeout [] (heard ++ clients) = acceptAll size timeout connected joined clients := by
  induction heard using List.reverseRecOn with
  | nil => exact ⟨1, [], kept_nil, fun _ => rfl⟩
  | append_singleton before c ih =>
    have hpartial : ¬ Complete size before := hneeded before c rfl
    obtain ⟨connected, joined, hkept, hrun⟩ := ih (fun d hd => hjoin d (List.mem_append_left _ hd))
      fun before' d heq hcomplete => hpartial (hcomplete.of_part ⟨[d], heq.symm⟩)
    obtain ⟨rank, rest, hjoins⟩ := hjoin c (List.mem_append_right _ (List.mem_singleton_self c))
    by_cases hagain : Announced size before rank
    · refine ⟨connected, joined, hkept.again hjoins hagain, fun clients => ?_⟩
      rw [List.append_assoc, hrun]
      exact acceptAll_again hkept hpartial hjoins hagain
    · refine ⟨connected + 1, joined ++ [(rank, rest)], hkept.new hjoins hagain, fun clients => ?_⟩
      rw [List.append_assoc, hrun]
      exact acceptAll_new hkept hpartial hjoins hagain

/-- The client at the head of these keeps the group from forming. -/
def Blocked (size : Nat) : List Pipe → Prop
  | [] => True
  | c :: _ => (∃ e, Refused size c e) ∨ Silent c

theorem Blocked.not_joins {others : List Pipe} (h : Blocked size (c :: others)) (rank : Nat) (rest : Pipe) :
    ¬ Joins size c rank rest := by
  rcases h with ⟨e, he⟩ | hsilent
  · exact fun hjoins => hjoins.not_refused e he
  · exact fun hjoins => hjoins.not_silent hsilent

theorem exists_heard (size : Nat) (clients : List Pipe) : ∃ heard others, clients = heard ++ others ∧
    AllJoin size heard ∧ (∀ before c, heard = before ++ [c] → ¬ Complete size before) ∧
    (Complete size heard ∨ ¬ Complete size heard ∧ Blocked size others) := by
  induction clients using List.reverseRecOn with
  | nil => exact ⟨[], [], rfl, nofun, by simp, (em _).imp_right fun h => ⟨h, trivial⟩⟩
  | append_singleton clients c ih =>
    obtain ⟨heard, others, rfl, hjoin, hneeded, hcomplete | ⟨hpartial, hblocked⟩⟩ := ih
    · exact ⟨heard, others ++ [c], List.append_assoc .., hjoin, hneeded, .inl hcomplete⟩
    cases others with
    | cons d others =>
      exact ⟨heard, d :: others ++ [c], List.append_assoc .., hjoin, hneeded, .inr ⟨hpartial, hblocked⟩⟩
    | nil =>
      rw [List.append_nil]
      rcases client_cases size c with hjoins | hbad
      · refine ⟨heard ++ [c], [], (List.append_nil _).symm, ?_, ?_, (em _).imp_right fun h => ⟨h, trivial⟩⟩
        · intro d hd
          rcases List.mem_append.mp hd with hd | hd
          · exact hjoin d hd
          · exact List.mem_singleton.mp hd ▸ hjoins
        · intro before d heq
          obtain ⟨rfl, -⟩ := List.append_inj' heq rfl
          exact hpartial
      · exact ⟨heard, [c], rfl, hjoin, hneeded, .inr ⟨hpartial, hbad⟩⟩

theorem part_of_blocked {others others' heard' : List Pipe} (hjoin : AllJoin size heard')
    (hclients : heard ++ others = heard' ++ others') (hblocked : Blocked size others) : heard' <+: heard := by
  rcases List.append_eq_append_iff.mp hclients with ⟨between, rfl, rfl⟩ | ⟨between, rfl, -⟩
  · cases between with
    | nil => simp
    | cons c between =>
      obtain ⟨rank, rest, hjoins⟩ := hjoin c (List.mem_append_right _ List.mem_cons_self)
      exact absurd hjoins (hblocked.not_joins rank rest)
  · exact List.prefix_append ..

/-- What is wrong with a group of which some clients have come and others are left. -/
inductive Blame (size : Nat) (timeout : Span) (heard : List Pipe) : List Pipe → GroupError → Prop where
  | refused (c : Pipe) (others : List Pipe) (e : GroupError) (h : Refused size c e) :
    Blame size timeout heard (c :: others) e
  | silent (c : Pipe) (others : List Pipe) (e : GroupError) (h : Silent c)
      (hlate : Late size timeout heard e) : Blame size timeout heard (c :: others) e
  | nobody (e : GroupError) (hlate : Late size timeout heard e) : Blame size timeout heard [] e

theorem Late.unique {e e' : GroupError} (h : Late size timeout clients e)
    (h' : Late size timeout clients e') : e = e' := by
  obtain ⟨absent, hmem, hsorted, rfl⟩ := h
  obtain ⟨absent', hmem', hsorted', rfl⟩ := h'
  have hperm : absent.Perm absent' :=
    (List.perm_ext_iff_of_nodup (hsorted.imp Nat.ne_of_lt) (hsorted'.imp Nat.ne_of_lt)).mpr
      fun rank => (hmem rank).trans (hmem' rank).symm
  rw [hperm.eq_of_pairwise' hsorted hsorted']

section

variable {others : List Pipe} (hjoin : AllJoin size heard) (hpartial : ¬ Complete size heard)
include hjoin hpartial

theorem accept_partial (timeout : Span) : ∃ connected joined, Kept size heard connected joined ∧ ∀ others,
    accept size timeout [] (heard ++ others) = acceptAll size timeout connected joined others :=
  accept_heard hjoin (fun _ c heq hcomplete => hpartial (hcomplete.of_part ⟨[c], heq.symm⟩)) timeout

theorem accept_of_blame {e : GroupError} (h : Blame size timeout heard others e) :
    accept size timeout [] (heard ++ others) = .error e := by
  obtain ⟨connected, joined, hkept, hrun⟩ := accept_partial hjoin hpartial timeout
  rw [hrun]
  cases h with
  | refused c others _ he => exact acceptAll_refused hkept hpartial he
  | silent c others _ hsilent hlate =>
    rw [acceptAll_silent hkept hpartial hsilent, (hkept.late timeout).unique hlate]
  | nobody _ hlate => rw [acceptAll_nil hkept hpartial, (hkept.late timeout).unique hlate]

theorem exists_blame (timeout : Span) (hblocked : Blocked size others) :
    ∃ e, Blame size timeout heard others e := by
  obtain ⟨_, joined, hkept, -⟩ := accept_partial hjoin hpartial timeout
  cases others with
  | nil => exact ⟨_, .nobody _ (hkept.late timeout)⟩
  | cons c others =>
    rcases hblocked with ⟨e, he⟩ | hsilent
    · exact ⟨e, .refused c others e he⟩
    · exact ⟨_, .silent c others _ hsilent (hkept.late timeout)⟩

end

theorem accept_again (hjoins : Joins size c rank rest) (hagain : Announced size before rank)
    (timeout : Span) (after : List Pipe) :
    accept size timeout [] (before ++ c :: after) = accept size timeout [] (before ++ after) := by
  obtain ⟨heard, others, rfl, hjoin, hneeded, hcomplete | ⟨hpartial, hblocked⟩⟩ := exists_heard size before
  · obtain ⟨connected, joined, hkept, hrun⟩ := accept_heard hjoin hneeded timeout
    rw [List.append_assoc, List.append_assoc, hrun, hrun, acceptAll_of_complete hkept hcomplete,
      acceptAll_of_complete hkept hcomplete]
  · cases others with
    | nil =>
      rw [List.append_nil] at hagain ⊢
      obtain ⟨connected, joined, hkept, hrun⟩ := accept_partial hjoin hpartial timeout
      rw [hrun, hrun, acceptAll_again hkept hpartial hjoins hagain]
    | cons d others =>
      -- The blame falls on the same client, whoever comes after it.
      have hblocked' : Blocked size [d] := hblocked
      obtain ⟨e, he⟩ := exists_blame hjoin hpartial timeout hblocked'
      have hblame (more : List Pipe) : Blame size timeout heard (d :: more) e := by
        cases he with
        | refused _ _ _ h => exact .refused d more e h
        | silent _ _ _ h hlate => exact .silent d more e h hlate
      rw [List.append_assoc, List.append_assoc]
      exact (accept_of_blame hjoin hpartial (hblame _)).trans
        (accept_of_blame hjoin hpartial (hblame _)).symm

theorem Kept.perm (h : Kept size heard connected joined) (hcomplete : Complete size heard) :
    (joined.map Prod.fst).Perm (List.range' 1 (size - 1)) := by
  refine (List.perm_ext_iff_of_nodup h.nodup List.nodup_range').mpr fun rank => ?_
  rw [h.mem_ranks, List.mem_range'_1]
  constructor
  · intro hannounced
    have hbounds := hannounced.bounds
    omega
  · rintro ⟨hpos, hlt⟩
    exact hcomplete rank hpos (by omega)

/-! ## How it ends -/

/-- If the group forms, then with the clients of a shortest part that has all ranks. -/
theorem of_accept_ok (h : accept size timeout [] clients = .ok joined) :
    ∃ heard others connected, clients = heard ++ others ∧ AllJoin size heard ∧
      (∀ before c, heard = before ++ [c] → ¬ Complete size before) ∧ Complete size heard ∧
      Kept size heard connected joined ∧ ∀ others', accept size timeout [] (heard ++ others') = .ok joined := by
  obtain ⟨heard, others, rfl, hjoin, hneeded, hcomplete | ⟨hpartial, hblocked⟩⟩ := exists_heard size clients
  · obtain ⟨connected, joined', hkept, hrun⟩ := accept_heard hjoin hneeded timeout
    have hok others' := (hrun others').trans (acceptAll_of_complete hkept hcomplete others')
    obtain rfl := Except.ok.inj ((hok others).symm.trans h)
    exact ⟨heard, others, connected, rfl, hjoin, hneeded, hcomplete, hkept, hok⟩
  · obtain ⟨e, hblame⟩ := exists_blame hjoin hpartial timeout hblocked
    cases (accept_of_blame hjoin hpartial hblame).symm.trans h

theorem accept_of_complete (hjoin : AllJoin size heard) (hcomplete : Complete size heard) (timeout : Span)
    (others : List Pipe) : ∃ joined, accept size timeout [] (heard ++ others) = .ok joined := by
  obtain ⟨heard', others', hclients, hjoin', hneeded, hend⟩ := exists_heard size (heard ++ others)
  have hcomplete' : Complete size heard' := by
    rcases hend with hcomplete' | ⟨-, hblocked⟩
    · exact hcomplete'
    · exact hcomplete.of_part (part_of_blocked hjoin hclients.symm hblocked)
  obtain ⟨connected, joined, hkept, hrun⟩ := accept_heard hjoin' hneeded timeout
  exact ⟨joined, by rw [hclients, hrun, acceptAll_of_complete hkept hcomplete']⟩

/-- If the group does not form, then somebody is to blame. -/
theorem of_accept_error {e : GroupError} (h : accept size timeout [] clients = .error e) :
    ∃ heard others, clients = heard ++ others ∧ AllJoin size heard ∧ ¬ Complete size heard ∧
      Blame size timeout heard others e := by
  obtain ⟨heard, others, rfl, hjoin, -, hcomplete | ⟨hpartial, hblocked⟩⟩ := exists_heard size clients
  · obtain ⟨joined, hok⟩ := accept_of_complete hjoin hcomplete timeout others
    cases hok.symm.trans h
  · obtain ⟨e', hblame⟩ := exists_blame hjoin hpartial timeout hblocked
    obtain rfl := Except.error.inj ((accept_of_blame hjoin hpartial hblame).symm.trans h)
    exact ⟨heard, others, rfl, hjoin, hpartial, hblame⟩

/-- How a group forms. -/
structure Formation (size : Nat) (timeout : Span) (clients : List Pipe) : Prop where
  /-- All ranks have to come before the first client that does not join. -/
  succeeds : (∃ joined, accept size timeout [] clients = .ok joined) ↔
    ∃ heard others, clients = heard ++ others ∧ AllJoin size heard ∧ Complete size heard
  /-- The client that makes the group whole is the last one that the root looks at. -/
  stops : ∀ joined, accept size timeout [] clients = .ok joined →
    ∃ heard others, clients = heard ++ others ∧ Complete size heard ∧
      (∀ before c, heard = before ++ [c] → ¬ Complete size before) ∧
      ∀ others', accept size timeout [] (heard ++ others') = .ok joined
  /-- Every rank but the root has one place, which is that of its first client. -/
  keeps : ∀ joined, accept size timeout [] clients = .ok joined →
    (joined.map Prod.fst).Perm (List.range' 1 (size - 1)) ∧
    ∀ rank rest, (rank, rest) ∈ joined → First size clients rank rest
  /-- A client of a rank that has come before makes no difference. -/
  again : ∀ before c after rank rest, clients = before ++ c :: after → Joins size c rank rest →
    Announced size before rank →
    accept size timeout [] clients = accept size timeout [] (before ++ after)
  /-- The first client that does not join says why there is no group. Where there is none, or it says
  nothing, the group is late. -/
  fails : ∀ e, accept size timeout [] clients = .error e ↔
    ∃ heard others, clients = heard ++ others ∧ AllJoin size heard ∧ ¬ Complete size heard ∧
      Blame size timeout heard others e

/-- The group forms with the first client of each rank, as soon as every rank has come. -/
theorem group_of_clients (size : Nat) (timeout : Span) (clients : List Pipe) :
    Formation size timeout clients := by
  constructor
  case succeeds =>
    constructor
    · rintro ⟨joined, hok⟩
      obtain ⟨heard, others, -, hclients, hjoin, -, hcomplete, -⟩ := of_accept_ok hok
      exact ⟨heard, others, hclients, hjoin, hcomplete⟩
    · rintro ⟨heard, others, rfl, hjoin, hcomplete⟩
      exact accept_of_complete hjoin hcomplete timeout others
  case stops =>
    intro joined hok
    obtain ⟨heard, others, -, hclients, -, hneeded, hcomplete, -, hsame⟩ := of_accept_ok hok
    exact ⟨heard, others, hclients, hcomplete, hneeded, hsame⟩
  case keeps =>
    intro joined hok
    obtain ⟨heard, others, connected, rfl, -, -, hcomplete, hkept, -⟩ := of_accept_ok hok
    exact ⟨hkept.perm hcomplete, fun rank rest hmem =>
      (hkept.first_of_mem hmem).of_part (List.prefix_append ..)⟩
  case again =>
    rintro before c after rank rest rfl hjoins hagain
    exact accept_again hjoins hagain timeout after
  case fails =>
    refine fun e => ⟨of_accept_error, ?_⟩
    rintro ⟨heard, others, rfl, hjoin, hpartial, hblame⟩
    exact accept_of_blame hjoin hpartial hblame

-- Rank 2 comes twice before rank 1, and nobody looks at the client after them.
example : ((accept 3 ⟨0⟩ [] [⟨packed (hello 2) ++ [8], false⟩, ⟨packed (hello 2), true⟩,
      ⟨packed (hello 1) ++ [9], false⟩, ⟨[], true⟩]).toOption.map
    (List.map fun place => (place.1, place.2.octets))) = some [(2, [8]), (1, [9])] := by
  decide +kernel

end Lagmeter.Star
