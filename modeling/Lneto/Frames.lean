import Lneto.Segments

/-!
TCP frames as received byte slices: header fields, validation, payload and
options. A frame carries the proof that it holds a fixed header; the variable
parts stop the program when the data offset lies outside the slice.
-/
namespace Lneto.Frames

open Segments

def sizeHeaderTCP : ℕ := 20

structure Frame where
  buf : List UInt8
  header : sizeHeaderTCP ≤ buf.length
deriving DecidableEq

def newFrame (buf : List UInt8) : Except Err Frame :=
  if h : sizeHeaderTCP ≤ buf.length then .ok ⟨buf, h⟩ else .error .truncatedFrame

def uint16At (buf : List UInt8) (i : ℕ) : BitVec 16 :=
  (buf.getD i 0).toBitVec ++ (buf.getD (i + 1) 0).toBitVec

def uint32At (buf : List UInt8) (i : ℕ) : BitVec 32 := uint16At buf i ++ uint16At buf (i + 2)

namespace Frame

def sourcePort (tfrm : Frame) : BitVec 16 := uint16At tfrm.buf 0

def destinationPort (tfrm : Frame) : BitVec 16 := uint16At tfrm.buf 2

def seq (tfrm : Frame) : Value := uint32At tfrm.buf 4

def ack (tfrm : Frame) : Value := uint32At tfrm.buf 8

def offset (tfrm : Frame) : ℕ := (uint16At tfrm.buf 12 >>> 12).toNat

def flags (tfrm : Frame) : Flags := Flags.mask (uint16At tfrm.buf 12)

def headerLength (tfrm : Frame) : ℕ := 4 * tfrm.offset

def windowSize (tfrm : Frame) : BitVec 16 := uint16At tfrm.buf 14

def payload (tfrm : Frame) : Except Panic (List UInt8) :=
  if tfrm.buf.length < tfrm.headerLength then .error .sliceBounds
  else .ok (tfrm.buf.drop tfrm.headerLength)

def options (tfrm : Frame) : Except Panic (List UInt8) :=
  if tfrm.headerLength < sizeHeaderTCP ∨ tfrm.buf.length < tfrm.headerLength then
    .error .sliceBounds
  else .ok ((tfrm.buf.take tfrm.headerLength).drop sizeHeaderTCP)

def maxPayload : ℕ := 2147483647

def segment (tfrm : Frame) (payloadSize : ℕ) : Except Panic Segment :=
  if maxPayload < payloadSize then .error .overflowPayloadSize
  else .ok { seq := tfrm.seq, ack := tfrm.ack, wnd := tfrm.windowSize.setWidth 32,
             datalen := BitVec.ofNat 32 payloadSize, flags := tfrm.flags }

/-- The first of the errors ValidateExceptCRC finds; the validator keeps no others. -/
def validateExceptCRC (tfrm : Frame) : Option Err :=
  if tfrm.headerLength < sizeHeaderTCP then some .invalidLengthField
  else if tfrm.buf.length < tfrm.headerLength then some .truncatedFrame
  else if tfrm.destinationPort = 0 then some .zeroDestination
  else if tfrm.sourcePort = 0 then some .zeroSource
  else none

end Frame

def optEnd : UInt8 := 0
def optNop : UInt8 := 1
def optMaxSegmentSize : UInt8 := 2
def optWindowScale : UInt8 := 3
def optSACKPermitted : UInt8 := 4
def optTimestamps : UInt8 := 8
def optUserTimeout : UInt8 := 28

/-- The option length that a kind requires; zero for no requirement. -/
def expectSize (kind : UInt8) : ℕ :=
  if kind = optTimestamps then 10
  else if kind = optMaxSegmentSize ∨ kind = optUserTimeout then 4
  else if kind = optWindowScale then 3
  else if kind = optSACKPermitted then 2
  else 0

/-- Next option: its kind, its data and the bytes after it. -/
def nextOption (opts : List UInt8) : Except Err (UInt8 × List UInt8 × List UInt8) :=
  match opts with
  | [] => .ok (optEnd, [], [])
  | [kind] =>
    if kind = optEnd then .ok (optEnd, [], [])
    else if kind = optNop then .ok (kind, [], [])
    else .error .truncatedFrame
  | kind :: size :: rest =>
    if kind = optEnd then .ok (optEnd, [], [])
    else if kind = optNop then .ok (kind, [], size :: rest)
    else if opts.length < size.toNat then .error .truncatedFrame
    else if size.toNat < 2 then .error .invalidLengthField
    else if expectSize kind ≠ 0 ∧ size.toNat ≠ expectSize kind then .error .invalidLengthField
    else .ok (kind, rest.take (size.toNat - 2), rest.drop (size.toNat - 2))

/-- The options up to the end marker or the first malformed one; every round takes a
byte. -/
def optionsUpTo : ℕ → List UInt8 → List (UInt8 × List UInt8)
  | 0, _ => []
  | fuel + 1, opts =>
    match nextOption opts with
    | .error _ => []
    | .ok (kind, data, rest) =>
      if kind = optEnd then []
      else if kind = optNop then optionsUpTo fuel rest
      else (kind, data) :: optionsUpTo fuel rest

def forEachOption (opts : List UInt8) : List (UInt8 × List UInt8) :=
  optionsUpTo (opts.length + 1) opts

end Lneto.Frames
