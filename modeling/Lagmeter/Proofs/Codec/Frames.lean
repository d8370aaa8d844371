import Mathlib.Tactic.Common
import Mathlib.Tactic.Ring
import Lagmeter.Group.Codec
import Lagmeter.Proofs.Codec.Utf8

/-!
# Frames and their octets

A frame is read back from its octets whatever follows them, and input that is read as a frame
starts with the octets of that frame. The law is stated once for a reader and a writer of anything
and handed down from numbers over lists and texts to frames.
-/

namespace Lagmeter.Codec

/-- The reader takes off the front of its input what the writer puts there, and takes nothing
else. The law is about the values that fit. -/
structure Reads {α : Type} (read : List UInt8 → Except CodecError (α × List UInt8))
    (write : α → List UInt8) (fits : α → Prop) : Prop where
  back : ∀ a, fits a → ∀ t, read (write a ++ t) = .ok (a, t)
  only : ∀ {b a t}, read b = .ok (a, t) → fits a ∧ b = write a ++ t

section Reads

variable {α β : Type} {read : List UInt8 → Except CodecError (α × List UInt8)}
  {write : α → List UInt8} {fits : α → Prop}

theorem Reads.congr (h : Reads read write fits)
    {read' : List UInt8 → Except CodecError (α × List UInt8)} (hread : ∀ b, read' b = read b)
    {write' : α → List UInt8} (hwrite : ∀ a, write' a = write a)
    {fits' : α → Prop} (hfits : ∀ a, fits' a ↔ fits a) : Reads read' write' fits' := by
  obtain rfl : read' = read := funext hread
  obtain rfl : write' = write := funext hwrite
  obtain rfl : fits' = fits := funext fun a => propext (hfits a)
  exact h

theorem Reads.map (h : Reads read write fits) (f : α → β) {body : β → List UInt8}
    {whole : β → Prop} (hfrom : ∀ a, fits a → whole (f a) ∧ body (f a) = write a)
    (hto : ∀ b, whole b → ∃ a, fits a ∧ f a = b) :
    Reads (fun b => do let (a, rest) ← read b; return (f a, rest)) body whole where
  back b hb t := by
    obtain ⟨a, ha, rfl⟩ := hto b hb
    rw [(hfrom a ha).2, h.back a ha]
    rfl
  only {i b t} hread := by
    cases ha : read i with
    | error e => simp [ha, bind, Except.bind] at hread
    | ok r =>
      obtain ⟨a, rest⟩ := r
      obtain ⟨hfits, hi⟩ := h.only ha
      rw [ha] at hread
      obtain ⟨rfl, rfl⟩ := Prod.mk.inj (Except.ok.inj hread)
      rw [(hfrom a hfits).2]
      exact ⟨(hfrom a hfits).1, hi⟩

theorem Reads.andThen (h : Reads read write fits) (key : β → α)
    (next : α → List UInt8 → Except CodecError (β × List UInt8)) (body : β → List UInt8)
    {whole : β → Prop} (hkey : ∀ b, whole b → fits (key b))
    (hnext : ∀ a, fits a → Reads (next a) body fun b => whole b ∧ key b = a) :
    Reads (fun b => do let (a, rest) ← read b; next a rest) (fun b => write (key b) ++ body b)
      whole where
  back b hb t := by
    rw [List.append_assoc, h.back _ (hkey b hb)]
    exact (hnext _ (hkey b hb)).back b ⟨hb, rfl⟩ t
  only {i b t} hread := by
    cases ha : read i with
    | error e => simp [ha, bind, Except.bind] at hread
    | ok r =>
      obtain ⟨a, rest⟩ := r
      obtain ⟨hfits, hi⟩ := h.only ha
      simp only [ha, bind, Except.bind] at hread
      obtain ⟨⟨hwhole, hk⟩, hrest⟩ := (hnext a hfits).only hread
      exact ⟨hwhole, by rw [hi, hrest, hk, List.append_assoc]⟩

end Reads

/-! ## Numbers -/

variable {count n : Nat} {b t : List UInt8}

theorem length_octets (count n : Nat) : (octets count n).length = count := by
  induction count generalizing n with
  | zero => rfl
  | succ count ih => rw [octets, List.length_cons, ih]

theorem number?_octets (h : n < 256 ^ count) (t : List UInt8) :
    number? count (octets count n ++ t) = some (n, t) := by
  induction count generalizing n with
  | zero =>
    obtain rfl : n = 0 := by omega
    rfl
  | succ count ih =>
    have hdiv : n / 256 < 256 ^ count := by
      rw [Nat.pow_succ'] at h
      exact Nat.div_lt_of_lt_mul h
    have hlow : (UInt8.ofNat (n % 256)).toNat = n % 256 := by
      rw [UInt8.toNat_ofNat']
      omega
    rw [octets, List.cons_append, number?, ih hdiv, Option.map_some, hlow]
    exact congrArg (fun m => some (m, t)) (Nat.mod_add_div n 256)

theorem of_number? (h : number? count b = some (n, t)) :
    n < 256 ^ count ∧ b = octets count n ++ t := by
  induction count generalizing b n with
  | zero =>
    simp only [number?, Option.some.injEq, Prod.mk.injEq] at h
    obtain ⟨rfl, rfl⟩ := h
    exact ⟨Nat.one_pos, rfl⟩
  | succ count ih =>
    cases b with
    | nil => simp [number?] at h
    | cons o b =>
      simp only [number?, Option.map_eq_some_iff, Prod.mk.injEq, Prod.exists] at h
      obtain ⟨m, t', hm, rfl, rfl⟩ := h
      obtain ⟨hlt, rfl⟩ := ih hm
      have ho : o.toNat < 256 := UInt8.toNat_lt o
      rw [octets, show (o.toNat + 256 * m) % 256 = o.toNat by omega,
        show (o.toNat + 256 * m) / 256 = m by omega, UInt8.ofNat_toNat, Nat.pow_succ']
      exact ⟨by omega, rfl⟩

theorem reads_number (count : Nat) : Reads (number count) (octets count) (· < 256 ^ count) where
  back n h t := by rw [number, number?_octets h]
  only {b n t} h := by
    rw [number] at h
    split at h
    case h_1 r hr =>
      rw [Except.ok.injEq] at h
      exact of_number? (h ▸ hr)
    case h_2 => cases h

theorem reads_code (limit : Nat) (hlimit : limit ≤ 256 ^ 4) :
    Reads (code limit) (octets 4) (· < limit) where
  back n h t := by
    rw [code, (reads_number 4).back n (Nat.lt_of_lt_of_le h hlimit)]
    exact if_pos h
  only {b n t} h := by
    cases hn : number 4 b with
    | error e => simp [code, hn, bind, Except.bind] at h
    | ok r =>
      simp only [code, hn, bind, Except.bind] at h
      split at h
      case isTrue hlt =>
        obtain ⟨rfl, rfl⟩ := Prod.mk.inj (Except.ok.inj h)
        exact ⟨hlt, ((reads_number 4).only hn).2⟩
      case isFalse => cases h

/-! ## Lists and texts -/

theorem reads_words (count : Nat) :
    Reads (words count) (fun ws => ws.flatMap fun w => octets 8 w.toNat) (·.length = count) := by
  induction count with
  | zero =>
    refine ⟨fun ws hws t => ?_, fun {b ws t} h => ?_⟩
    · rw [List.length_eq_zero_iff.1 hws]
      rfl
    · simp only [words, Except.ok.injEq, Prod.mk.injEq] at h
      obtain ⟨rfl, rfl⟩ := h
      exact ⟨rfl, rfl⟩
  | succ count ih =>
    refine ⟨fun ws hws t => ?_, fun {b ws t} h => ?_⟩
    · obtain ⟨w, ws, rfl⟩ := List.exists_cons_of_length_eq_add_one hws
      rw [words, List.flatMap_cons, List.append_assoc,
        (reads_number 8).back w.toNat (UInt64.toNat_lt w)]
      simp only [bind, Except.bind, ih.back ws (Nat.succ.inj hws), UInt64.ofNat_toNat]
      rfl
    · cases hw : number 8 b with
      | error e => simp [words, hw, bind, Except.bind] at h
      | ok r =>
        obtain ⟨n, rest⟩ := r
        cases hws : words count rest with
        | error e => simp [words, hw, hws, bind, Except.bind] at h
        | ok r =>
          obtain ⟨hn, rfl⟩ := (reads_number 8).only hw
          obtain ⟨hlength, rfl⟩ := ih.only hws
          simp only [words, hw, hws, bind, Except.bind] at h
          obtain ⟨rfl, rfl⟩ := Prod.mk.inj (Except.ok.inj h)
          have hback : (UInt64.ofNat n).toNat = n := by
            rw [UInt64.toNat_ofNat', Nat.mod_eq_of_lt (by omega)]
          rw [List.length_cons, hlength, List.flatMap_cons, hback, List.append_assoc]
          exact ⟨rfl, rfl⟩

theorem reads_wordList : Reads wordList wordListOctets (·.length < 256 ^ 8) :=
  (reads_number 8).andThen List.length words
    (fun ws : List UInt64 => ws.flatMap fun (w : UInt64) => octets 8 w.toNat)
    (fun _ h => h) fun count hcount =>
    (reads_words count).congr (fun _ => rfl) (fun _ => rfl) fun _ =>
      ⟨fun h => h.2, fun h => ⟨h ▸ hcount, h⟩⟩

/-- The text of the first octets, and what follows them. -/
def textOf (length : Nat) (input : List UInt8) : Except CodecError (String × List UInt8) := do
  if input.length < length then throw .shortText
  match Utf8.decode (input.take length) with
  | .ok s => return (s, input.drop length)
  | .error e => throw (.notText e)

theorem reads_text : Reads text textOctets (fun s => (Utf8.encode s).length < 256 ^ 8) := by
  refine (reads_number 8).andThen (fun s => (Utf8.encode s).length) textOf Utf8.encode
    (fun _ h => h) fun count hcount => ⟨fun s hs t => ?_, fun {b s t} h => ?_⟩
  · obtain ⟨-, rfl⟩ := hs
    rw [textOf, if_neg (by simp), List.take_left, List.drop_left, Utf8.decode_encode]
    rfl
  · rw [textOf] at h
    split at h
    case isTrue => cases h
    case isFalse hlength =>
      cases hs : Utf8.decode (b.take count) with
      | error e => simp [hs] at h
      | ok s' =>
        rw [hs] at h
        obtain ⟨rfl, rfl⟩ := Prod.mk.inj (Except.ok.inj h)
        have htake : (b.take count).length = count := by
          rw [List.length_take]
          omega
        rw [Utf8.encode_of_decode hs, htake, List.take_append_drop]
        exact ⟨⟨hcount, rfl⟩, rfl⟩

end Lagmeter.Codec

namespace Lagmeter

open Codec

/-! ## Frames -/

namespace Payload

/-- The lengths are numbers of eight octets. -/
def Fits : Payload → Prop
  | .empty => True
  | .words values => values.length < 256 ^ 8
  | .reals values => values.length < 256 ^ 8
  | .failure reason => (Utf8.encode reason).length < 256 ^ 8

def code : Payload → Nat
  | .empty => 0
  | .words _ => 1
  | .reals _ => 2
  | .failure _ => 3

def bodyOctets : Payload → List UInt8
  | .empty => []
  | .words values => wordListOctets (values.map Int64.toUInt64)
  | .reals values => wordListOctets (values.map Double.bits)
  | .failure reason => textOctets reason

/-- The data of the kind with the given code. -/
def body : Nat → List UInt8 → Except CodecError (Payload × List UInt8)
  | 0, input => return (.empty, input)
  | 1, input => do
    let (ws, rest) ← wordList input
    return (.words (ws.map UInt64.toInt64), rest)
  | 2, input => do
    let (ws, rest) ← wordList input
    return (.reals (ws.map Double.mk), rest)
  | _, input => do
    let (reason, rest) ← text input
    return (.failure reason, rest)

theorem encode_eq (p : Payload) : p.encode = octets 4 p.code ++ p.bodyOctets := by
  cases p <;> simp [encode, code, bodyOctets]

theorem decode_eq (input : List UInt8) :
    decode input = (do let (code, rest) ← Codec.code 4 input; body code rest) := by
  unfold decode
  refine bind_congr fun r => ?_
  obtain ⟨code, rest⟩ := r
  match code with
  | 0 | 1 | 2 | _ + 3 => rfl

theorem code_lt (p : Payload) : p.code < 4 := by
  cases p <;> simp [code]

theorem reads_body {code : Nat} (hcode : code < 4) :
    Reads (body code) bodyOctets fun p => p.Fits ∧ p.code = code := by
  match code with
  | 0 =>
    refine ⟨fun p hp t => ?_, fun {b p t} h => ?_⟩
    · cases p with
      | empty => rfl
      | words | reals | failure => simp [Payload.code] at hp
    · obtain ⟨rfl, rfl⟩ := Prod.mk.inj (Except.ok.inj h)
      exact ⟨⟨trivial, rfl⟩, rfl⟩
  | 1 =>
    refine reads_wordList.map (fun ws => Payload.words (ws.map UInt64.toInt64))
      (fun ws hws => ⟨⟨by simpa [Fits] using hws, rfl⟩, by simp [bodyOctets, Function.comp_def]⟩)
      fun p hp => ?_
    cases p with
    | words values =>
      exact ⟨values.map Int64.toUInt64, by simpa [Fits] using hp.1, by simp [Function.comp_def]⟩
    | empty | reals | failure => simp [Payload.code] at hp
  | 2 =>
    refine reads_wordList.map (fun ws => Payload.reals (ws.map Double.mk))
      (fun ws hws => ⟨⟨by simpa [Fits] using hws, rfl⟩, by simp [bodyOctets, Function.comp_def]⟩)
      fun p hp => ?_
    cases p with
    | reals values =>
      exact ⟨values.map Double.bits, by simpa [Fits] using hp.1, by simp [Function.comp_def]⟩
    | empty | words | failure => simp [Payload.code] at hp
  | 3 =>
    refine reads_text.map Payload.failure (fun reason h => ⟨⟨h, rfl⟩, rfl⟩) fun p hp => ?_
    cases p with
    | failure reason => exact ⟨reason, hp.1, rfl⟩
    | empty | words | reals => simp [Payload.code] at hp

theorem reads_decode : Reads decode encode Fits := by
  have h : Reads _ _ Fits := (reads_code 4 (by decide)).andThen code body bodyOctets
    (fun p _ => code_lt p) fun code hcode => reads_body hcode
  exact h.congr decode_eq encode_eq fun _ => Iff.rfl

end Payload

theorem Operation.code_lt (o : Operation) : o.code < all.length := by
  cases o <;> decide

theorem Operation.getD_code (o : Operation) : all.getD o.code .hello = o := by
  cases o <;> rfl

theorem Operation.code_getD {n : Nat} (h : n < all.length) : (all.getD n .hello).code = n := by
  have hall : ∀ n < all.length, (all.getD n .hello).code = n := by decide
  exact hall n h

namespace Frame

/-- The numbers in the frame's octets are of eight octets. -/
structure Fits (f : Frame) : Prop where
  sequence : f.sequence < 256 ^ 8
  payload : f.payload.Fits

/-- The frame at the start of the input, and what follows it. -/
def take (input : List UInt8) : Except CodecError (Frame × List UInt8) := do
  let (code, rest) ← Codec.code Operation.all.length input
  let (sequence, rest) ← Codec.number 8 rest
  let (payload, rest) ← Payload.decode rest
  return (⟨Operation.all.getD code .hello, sequence, payload⟩, rest)

theorem reads_take : Reads take encode Fits := by
  have hrest : ∀ code sequence, code < Operation.all.length → sequence < 256 ^ 8 →
      Reads (fun b => do
          let (payload, rest) ← Payload.decode b
          return (⟨Operation.all.getD code .hello, sequence, payload⟩, rest))
        (fun f : Frame => f.payload.encode)
        (fun f => (f.Fits ∧ f.operation.code = code) ∧ f.sequence = sequence) := by
    intro code sequence hcode hsequence
    refine Payload.reads_decode.map (fun p => (⟨Operation.all.getD code .hello, sequence, p⟩ : Frame))
      (fun p hp => ⟨⟨⟨⟨hsequence, hp⟩, Operation.code_getD hcode⟩, rfl⟩, rfl⟩) fun f hf => ?_
    obtain ⟨⟨hfits, rfl⟩, rfl⟩ := hf
    exact ⟨f.payload, hfits.payload, by rw [Operation.getD_code]⟩
  exact (reads_code Operation.all.length (by decide)).andThen
    (fun f : Frame => f.operation.code) _ _ (fun f _ => f.operation.code_lt)
    fun code hcode => (reads_number 8).andThen Frame.sequence _ _
      (fun f hf => hf.1.sequence) fun sequence hsequence => hrest code sequence hcode hsequence

theorem decode_eq (input : List UInt8) : decode input = (take input).map Prod.fst := by
  cases hcode : Codec.code Operation.all.length input with
  | error e => simp [decode, take, hcode, bind, Except.bind, Except.map]
  | ok r =>
    cases hsequence : Codec.number 8 r.2 with
    | error e => simp [decode, take, hcode, hsequence, bind, Except.bind, Except.map]
    | ok r' =>
      cases hpayload : Payload.decode r'.2 <;>
        simp [decode, take, hcode, hsequence, hpayload, bind, Except.bind, Except.map, pure,
          Except.pure]

variable {f : Frame} {b t : List UInt8}

theorem decode_encode (h : f.Fits) (t : List UInt8) : decode (f.encode ++ t) = .ok f := by
  rw [decode_eq, reads_take.back f h]
  rfl

theorem of_decode (h : decode b = .ok f) : f.Fits ∧ f.encode <+: b := by
  rw [decode_eq] at h
  cases hb : take b with
  | error e => simp [hb, Except.map] at h
  | ok r =>
    obtain ⟨g, t⟩ := r
    rw [hb] at h
    obtain rfl : g = f := Except.ok.inj h
    obtain ⟨hfits, rfl⟩ := reads_take.only hb
    exact ⟨hfits, List.prefix_append _ _⟩

/-- Reading and writing are inverse to each other, whatever follows a frame. -/
theorem decode_canonical :
    (∀ f : Frame, f.Fits → ∀ t, decode (f.encode ++ t) = .ok f) ∧
      ∀ b, (∀ f, decode b = .ok f → f.Fits ∧ f.encode <+: b) ∧
        ((∀ f : Frame, f.Fits → ¬ f.encode <+: b) → ∃ e : CodecError, decode b = .error e) := by
  refine ⟨fun f hf => decode_encode hf, fun b => ⟨fun f => of_decode, fun hnone => ?_⟩⟩
  cases hb : decode b with
  | error e => exact ⟨e, rfl⟩
  | ok f =>
    obtain ⟨hfits, hstart⟩ := of_decode hb
    exact absurd hstart (hnone f hfits)

theorem decode_canonical_failure :
    let f : Frame := ⟨.gather, 2 ^ 64 - 1, .failure "né"⟩
    f.Fits ∧ decode (f.encode ++ [3, 0]) = .ok f ∧
      (∃ e : CodecError, decode [8, 0, 0, 0] = .error e) := by
  have hfits : Fits ⟨.gather, 2 ^ 64 - 1, .failure "né"⟩ :=
    ⟨by decide, show (Utf8.encode "né").length < 256 ^ 8 by decide⟩
  refine ⟨hfits, decode_canonical.1 _ hfits [3, 0], (decode_canonical.2 [8, 0, 0, 0]).2 ?_⟩
  intro f hf hstart
  obtain ⟨t, ht⟩ := hstart
  have hread := decode_encode hf t
  rw [ht] at hread
  exact absurd hread (by simp [show decode [8, 0, 0, 0] = .error (.unknownCode 8 8) from rfl])

example : encode ⟨.gather, 258, .words [-2]⟩ =
    [3, 0, 0, 0, 2, 1, 0, 0, 0, 0, 0, 0, 1, 0, 0, 0, 1, 0, 0, 0, 0, 0, 0, 0,
      254, 255, 255, 255, 255, 255, 255, 255] := by decide

/-! ## Lengths -/

theorem length_encode (f : Frame) : f.encode.length = f.width := by
  have hwords : ∀ ws : List UInt64,
      (ws.flatMap fun w => octets 8 w.toNat).length = 8 * ws.length := by
    intro ws
    simp [List.length_flatMap, length_octets, List.map_const', Nat.mul_comm]
  rw [encode, width, Payload.encode_eq]
  cases f.payload <;>
    simp [Payload.bodyOctets, Payload.width, wordListOctets, textOctets, length_octets, hwords] <;>
    omega

end Frame

end Lagmeter
