import Lagmeter.Group.Frame
import Lagmeter.Text.Utf8

/-!
# Frames as octets

Numbers are written with the lowest octet first: codes of operations and of kinds of data in four
octets, all others in eight. Lists and texts start with their length. What follows a frame is
ignored.
-/

namespace Lagmeter

inductive CodecError where
  | short
  | shortText
  | unknownCode (code limit : Nat)
  | notText (error : Utf8.DecodeError)
  deriving DecidableEq, Repr

def CodecError.message : CodecError → String
  | .short => "io error: unexpected end of file"
  | .shortText => "io error: "
  | .unknownCode code limit =>
    s!"invalid value: integer `{code}`, expected variant index 0 <= i < {limit}"
  | .notText error => s!"string is not valid utf8: {error.message}"

namespace Codec

/-! ## Numbers -/

def octets : Nat → Nat → List UInt8
  | 0, _ => []
  | count + 1, n => UInt8.ofNat (n % 256) :: octets count (n / 256)

/-- A number of `count` octets, and what follows it. -/
def number? : Nat → List UInt8 → Option (Nat × List UInt8)
  | 0, input => some (0, input)
  | _ + 1, [] => none
  | count + 1, o :: input =>
    (number? count input).map fun (n, rest) => (o.toNat + 256 * n, rest)

def number (count : Nat) (input : List UInt8) : Except CodecError (Nat × List UInt8) :=
  match number? count input with
  | some r => .ok r
  | none => .error .short

def code (limit : Nat) (input : List UInt8) : Except CodecError (Nat × List UInt8) := do
  let (n, rest) ← number 4 input
  if n < limit then return (n, rest) else throw (.unknownCode n limit)

/-! ## Lists and texts -/

def words : Nat → List UInt8 → Except CodecError (List UInt64 × List UInt8)
  | 0, input => .ok ([], input)
  | count + 1, input => do
    let (n, rest) ← number 8 input
    let (ws, rest) ← words count rest
    return (UInt64.ofNat n :: ws, rest)

def wordList (input : List UInt8) : Except CodecError (List UInt64 × List UInt8) := do
  let (count, rest) ← number 8 input
  words count rest

def wordListOctets (ws : List UInt64) : List UInt8 :=
  octets 8 ws.length ++ ws.flatMap fun w => octets 8 w.toNat

def text (input : List UInt8) : Except CodecError (String × List UInt8) := do
  let (length, rest) ← number 8 input
  if rest.length < length then throw .shortText
  match Utf8.decode (rest.take length) with
  | .ok s => return (s, rest.drop length)
  | .error e => throw (.notText e)

def textOctets (s : String) : List UInt8 :=
  octets 8 (Utf8.encode s).length ++ Utf8.encode s

end Codec

/-! ## Frames -/

/-- The place of an operation in the list of all. -/
def Operation.code (o : Operation) : Nat := Operation.all.idxOf o

namespace Payload

def encode : Payload → List UInt8
  | .empty => Codec.octets 4 0
  | .words values => Codec.octets 4 1 ++ Codec.wordListOctets (values.map Int64.toUInt64)
  | .reals values => Codec.octets 4 2 ++ Codec.wordListOctets (values.map Double.bits)
  | .failure reason => Codec.octets 4 3 ++ Codec.textOctets reason

def decode (input : List UInt8) : Except CodecError (Payload × List UInt8) := do
  let (code, rest) ← Codec.code 4 input
  match code with
  | 0 => return (.empty, rest)
  | 1 =>
    let (ws, rest) ← Codec.wordList rest
    return (.words (ws.map UInt64.toInt64), rest)
  | 2 =>
    let (ws, rest) ← Codec.wordList rest
    return (.reals (ws.map Double.mk), rest)
  | _ =>
    let (reason, rest) ← Codec.text rest
    return (.failure reason, rest)

def width : Payload → Nat
  | .empty => 4
  | .words values => 12 + 8 * values.length
  | .reals values => 12 + 8 * values.length
  | .failure reason => 12 + (Utf8.encode reason).length

end Payload

namespace Frame

def encode (f : Frame) : List UInt8 :=
  Codec.octets 4 f.operation.code ++ Codec.octets 8 f.sequence ++ f.payload.encode

/-- The frame at the start of the input. -/
def decode (input : List UInt8) : Except CodecError Frame := do
  let (code, rest) ← Codec.code Operation.all.length input
  let (sequence, rest) ← Codec.number 8 rest
  let (payload, _) ← Payload.decode rest
  return ⟨Operation.all.getD code .hello, sequence, payload⟩

def width (f : Frame) : Nat := 12 + f.payload.width

end Frame

end Lagmeter
