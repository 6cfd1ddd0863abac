import Lneto.InternalRing

/-!
Out-of-order segments held for reassembly. Payloads are staged in the free
region of the receive ring; only sequence number and length are recorded,
since the write position of the ring moves with rcv.NXT.
-/
namespace Lneto.OutOfOrder

open Segments InternalRing

def maxReasmSegments : ℕ := 8

structure ReasmSeg where
  seq : Value
  n : ℕ
deriving DecidableEq, Repr

/-- Held segments by ascending sequence number; cap is the slice's capacity. -/
structure Reassembly where
  held : List ReasmSeg := []
  cap : ℕ := 0
deriving DecidableEq, Repr

namespace Reassembly

def reset (r : Reassembly) (maxSegs : ℕ) : Reassembly :=
  if maxSegs = 0 then {} else { held := [], cap := if r.cap < maxSegs then maxSegs else r.cap }

def clear (r : Reassembly) : Reassembly := { r with held := [] }

def enabled (r : Reassembly) : Bool := decide (0 < r.cap)

def buffered (r : Reassembly) : ℕ := r.held.length

def bufferedBytes (r : Reassembly) : ℕ := (r.held.map ReasmSeg.n).sum

def segEnd (seg : ReasmSeg) : Value := Value.add seg.seq (BitVec.ofNat 32 seg.n)

def store (r : Reassembly) (rx : ByteRing) (rcvNxt seq : Value) (payload : List UInt8) :
    Except Panic (Reassembly × ByteRing × Bool) :=
  if !r.enabled || payload.length == 0 || decide (r.cap ≤ r.held.length) then .ok (r, rx, false)
  else
    let gap := (Value.sizeof rcvNxt seq).toNat
    if rx.free < gap + payload.length then .ok (r, rx, false)
    else
      let stop := Value.add seq (BitVec.ofNat 32 payload.length)
      -- the insertion point that keeps held ordered
      let before := r.held.takeWhile fun seg => Value.lessThan seg.seq seq
      let after := r.held.dropWhile fun seg => Value.lessThan seg.seq seq
      if before.getLast?.any fun prev => Value.lessThan seq (segEnd prev) then .ok (r, rx, false)
      else if after.head?.any fun next => next.seq == seq then .ok (r, rx, true)
      else if after.head?.any fun next => Value.lessThan next.seq stop then .ok (r, rx, false)
      else
        match rx.peekWrite payload gap with
        | .error p => .error p
        | .ok (_, false) => .ok (r, rx, false)
        | .ok (rx', true) =>
          .ok ({ r with held := before ++ ⟨seq, payload.length⟩ :: after }, rx', true)

/-- Commit what is contiguous, drop what is stale, stop at the first gap or when the
ring is full. -/
def reassembleHeld (rx : ByteRing) (nxt : Value) (delivered : Size) :
    List ReasmSeg → ByteRing × List ReasmSeg × Size
  | [] => (rx, [], delivered)
  | seg :: rest =>
    if seg.seq = nxt then
      match rx.commit seg.n with
      | (_, some _) => (rx, seg :: rest, delivered)
      | (rx', none) =>
        reassembleHeld rx' (Value.add nxt (BitVec.ofNat 32 seg.n))
          (delivered + BitVec.ofNat 32 seg.n) rest
    else if Value.lessThan seg.seq nxt then reassembleHeld rx nxt delivered rest
    else (rx, seg :: rest, delivered)

def reassemble (r : Reassembly) (rx : ByteRing) (nxt : Value) : Reassembly × ByteRing × Size :=
  let (rx', held, delivered) := reassembleHeld rx nxt 0 r.held
  ({ r with held := held }, rx', delivered)

end Reassembly

end Lneto.OutOfOrder
