import HardWrap.Text.Blank

/-!
Files hold bytes, and texts are written as UTF-8. Bytes that are no UTF-8 are refused with the place
of the first sequence that cannot be read.
-/

namespace HardWrap

abbrev Bytes := List UInt8

namespace Utf8

inductive Reason where
  | start
  | continuation
  | truncated
  deriving DecidableEq, Repr

def Reason.message : Reason → String
  | start => "invalid start byte"
  | continuation => "invalid continuation byte"
  | truncated => "unexpected end of data"

structure Fault where
  first : Nat
  stop : Nat
  byte : Nat
  reason : Reason
  deriving DecidableEq, Repr

def Fault.message (fault : Fault) : String :=
  if fault.stop = fault.first + 1 then
    let digits := String.ofList ((Nat.toDigits 16 (fault.byte + 256)).drop 1)
    s!"'utf-8' codec can't decode byte 0x{digits} in position {fault.first}: {fault.reason.message}"
  else
    s!"'utf-8' codec can't decode bytes in position {fault.first}-{fault.stop - 1}: " ++
      fault.reason.message

def isContinuation (byte : Nat) : Bool :=
  0x80 ≤ byte && byte ≤ 0xbf

/-- Which second bytes may follow a first byte: no overlong form, no surrogate, nothing beyond the
last code point. -/
def isSecond (first second : Nat) : Bool :=
  isContinuation second &&
    !((first == 0xe0 && second < 0xa0) || (first == 0xed && 0xa0 ≤ second) ||
      (first == 0xf0 && second < 0x90) || (first == 0xf4 && 0x90 ≤ second))

def followers? (first : Nat) : Option Nat :=
  if first < 0x80 then some 0
  else if first < 0xc2 then none
  else if first < 0xe0 then some 1
  else if first < 0xf0 then some 2
  else if first < 0xf5 then some 3
  else none

/-- How many of the following bytes fit, and whether the next one is there but does not. -/
def fitting (first : Nat) (wanted : Nat) (bytes : List Nat) : Nat × Bool :=
  match wanted, bytes with
  | 0, _ | _, [] => (0, false)
  | wanted + 1, second :: rest =>
    if isSecond first second then
      let good := (rest.take wanted).takeWhile isContinuation
      (good.length + 1, good.length < (rest.take wanted).length)
    else (0, true)

/-- The first sequence that cannot be read, among bytes of which the first stands at `pos`. The
first `skip` bytes belong to a sequence that was read already. -/
def firstFault? (pos skip : Nat) : List Nat → Option Fault
  | [] => none
  | byte :: rest =>
    if 0 < skip then firstFault? (pos + 1) (skip - 1) rest
    else match followers? byte with
      | none => some ⟨pos, pos + 1, byte, .start⟩
      | some wanted =>
        let (good, isBad) := fitting byte wanted rest
        if good = wanted then firstFault? (pos + 1) wanted rest
        else if isBad then some ⟨pos, pos + 1 + good, byte, .continuation⟩
        else some ⟨pos, pos + 1 + good, byte, .truncated⟩

def decode (bytes : Bytes) : Except Fault Text :=
  match bytes.toByteArray.utf8Decode? with
  | some chars => .ok chars.toList
  | none => .error ((firstFault? 0 0 (bytes.map UInt8.toNat)).getD ⟨0, 1, 0, .start⟩)

def encode (t : Text) : Bytes :=
  t.flatMap String.utf8EncodeChar

end Utf8

end HardWrap
