import Mathlib.Tactic.Common
import Lagmeter.Group.Star
import Lagmeter.Proofs.Codec.Frames

/-!
# Frames in a pipe

A pipe carries octets and knows nothing of frames. Frames that are written one after the other are
still read one after the other: each is cut off where the next one begins, and the end of the pipe
comes after the last.
-/

namespace Lagmeter.Star

/-- A frame that a pipe can carry. -/
structure Portable (f : Frame) : Prop where
  fits : f.Fits
  width : f.width ≤ maxFrame

def stream (fs : List Frame) : List UInt8 := fs.flatMap packed

variable {peer : Nat} {f : Frame} {fs : List Frame}

theorem stream_cons (f : Frame) (fs : List Frame) : stream (f :: fs) = packed f ++ stream fs := rfl

theorem stream_concat (fs : List Frame) (f : Frame) :
    stream (fs ++ [f]) = stream fs ++ packed f := by simp [stream]

/-! ## One frame -/

theorem write_portable (h : Portable f) (p : Pipe) :
    write false p f = .ok { p with octets := p.octets ++ packed f } := by
  have hwidth : ¬ maxFrame < f.width := Nat.not_lt.mpr h.width
  rw [write, if_neg hwidth]
  rfl

theorem number?_packed (h : Portable f) (t : List UInt8) :
    Codec.number? 4 (packed f ++ t) = some (f.width, f.encode ++ t) := by
  have hwidth : f.width < 256 ^ 4 := Nat.lt_of_le_of_lt h.width (by decide)
  rw [packed, List.append_assoc, Codec.number?_octets hwidth]

theorem read_packed (h : Portable f) (t : List UInt8) (ended : Bool) :
    read peer ⟨packed f ++ t, ended⟩ = some ⟨.ok f, ⟨t, ended⟩, false⟩ := by
  have hexactly : exactly f.width (f.encode ++ t) = some (f.encode, t) := by
    rw [exactly, ← f.length_encode, if_neg (by simp), List.take_left, List.drop_left]
  have hdecode : Frame.decode f.encode = .ok f := by
    rw [← List.append_nil f.encode, Frame.decode_encode h.fits]
  simp only [read, number?_packed h, if_neg (Nat.not_lt.mpr h.width), hexactly, hdecode]

/-! ## Many frames -/

/-- The results of `count` readings, one after the other. -/
def readings (peer : Nat) : Nat → Pipe → Option (List (Except GroupError Frame))
  | 0, _ => some []
  | count + 1, p => do
    let r ← read peer p
    let rest ← readings peer count r.pipe
    return r.result :: rest

theorem foldlM_write (h : ∀ f ∈ fs, Portable f) (p : Pipe) :
    fs.foldlM (write false) p = .ok { p with octets := p.octets ++ stream fs } := by
  induction fs generalizing p with
  | nil => simp [stream, pure, Except.pure]
  | cons f fs ih =>
    rw [List.foldlM_cons, write_portable (h f List.mem_cons_self)]
    simp only [bind, Except.bind]
    rw [ih fun f' hf' => h f' (List.mem_cons_of_mem _ hf'), stream_cons]
    simp

theorem readings_stream (h : ∀ f ∈ fs, Portable f) :
    readings peer (fs.length + 1) ⟨stream fs, true⟩ =
      some (fs.map .ok ++ [.error (.disconnected peer)]) := by
  induction fs with
  | nil => rfl
  | cons f fs ih =>
    rw [List.length_cons, readings, stream_cons, read_packed (h f List.mem_cons_self)]
    simp only [bind, Option.bind]
    rw [ih fun f' hf' => h f' (List.mem_cons_of_mem _ hf')]
    rfl

end Lagmeter.Star
