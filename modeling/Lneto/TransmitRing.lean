import Lneto.InternalRing

/-!
The transmit ring: one buffer with a sent and an unsent region, and the list of
sent packets. An end offset of zero marks an empty region, so an offset past the
last byte is kept at the buffer length.
-/
namespace Lneto.TransmitRing

open Segments InternalRing

def minBufferSize : ℕ := 2

/-- Sum of two offsets wrapped into 1..size; zero only for two zeros. -/
def addEnd (a b size : ℕ) : ℕ := if size < a + b then a + b - size else a + b

def addOff (a b size : ℕ) : ℕ := if size ≤ a + b then a + b - size else a + b

structure RingIdx where
  off : ℕ := 0
  endOff : ℕ := 0
  seq : Value := 0
  size : Size := 0
deriving DecidableEq, Repr

namespace RingIdx

def isRecvd (pkt : RingIdx) : Bool := pkt.size == 0

def endSeq (pkt : RingIdx) : Value := Value.add pkt.seq pkt.size

end RingIdx

/-- Sent packets, oldest first; cap is the capacity of the slice. -/
structure SentList where
  ssn : Value := 0
  pkts : List RingIdx := []
  cap : ℕ := 0
deriving DecidableEq, Repr

namespace SentList

/-- A larger slice left over from earlier use keeps its capacity. -/
def reset (sl : SentList) (pktQueueSize : ℕ) (iss : Value) : SentList :=
  { ssn := iss, pkts := [], cap := if sl.cap < pktQueueSize then pktQueueSize else sl.cap }

def newest (sl : SentList) : Option RingIdx := sl.pkts.getLast?

def oldest (sl : SentList) : Option RingIdx := sl.pkts.head?

def free (sl : SentList) : ℕ := sl.cap - sl.pkts.length

def packetContaining (sl : SentList) (seq : Value) : Option RingIdx :=
  sl.pkts.find? fun pkt => Value.lessThanEq pkt.seq seq && Value.lessThan seq pkt.endSeq

/-- Drop the packet that starts at seq and every later one. -/
def truncateFrom (sl : SentList) (seq : Value) : SentList :=
  { sl with
    pkts := sl.pkts.takeWhile fun pkt => pkt.seq != seq
    ssn := if sl.oldest.map RingIdx.seq = some seq then seq else sl.ssn }

def addPacket (sl : SentList) (datalen off bufsize : ℕ) (seq : Value) :
    Except Panic (SentList × RingIdx) :=
  if sl.free = 0 then .error .pktBufferFull
  else if sl.newest.any fun lastPkt => (off != 0 && off != lastPkt.endOff) ||
      (off == 0 && lastPkt.endOff != bufsize) then
    .error .packetOffsetMismatch
  else
    let pkt : RingIdx :=
      { off := off, endOff := addEnd off datalen bufsize, seq := seq,
        size := BitVec.ofNat 32 datalen }
    .ok ({ sl with pkts := sl.pkts ++ [pkt] }, pkt)

/-- Zero the leading packets that ack covers and keep the last end sequence. -/
def markRcvd (ack ssn : Value) : List RingIdx → Value × List RingIdx
  | [] => (ssn, [])
  | pkt :: rest =>
    if Value.lessThanEq pkt.endSeq ack then
      ((markRcvd ack pkt.endSeq rest).1, {} :: (markRcvd ack pkt.endSeq rest).2)
    else (ssn, pkt :: rest)

def removeRecvd (pkts : List RingIdx) : Except Panic (List RingIdx) :=
  match pkts with
  | [] => .error .nilDereference
  | oldest :: _ => .ok (if oldest.isRecvd then pkts.filter fun pkt => !pkt.isRecvd else pkts)

/-- Cut the acknowledged octets off the oldest packet. -/
def trimOldest (ack : Value) (bufsize : ℕ) : List RingIdx → List RingIdx
  | [] => []
  | pkt :: rest =>
    let totalAcked := ack - pkt.seq
    if 0 < totalAcked.toInt then
      { pkt with off := addOff pkt.off totalAcked.toNat bufsize,
                 size := pkt.size - totalAcked, seq := pkt.seq + totalAcked } :: rest
    else pkt :: rest

def recvAck (sl : SentList) (ack : Value) (bufsize : ℕ) :
    Except Panic (SentList × Option Err) :=
  match sl.newest with
  | none => .ok (sl, some .drop)
  | some newest =>
    if Value.lessThan newest.endSeq ack then .ok (sl, some .drop)
    else
      match removeRecvd (markRcvd ack sl.ssn sl.pkts).2 with
      | .error p => .error p
      | .ok pkts =>
        .ok ({ sl with ssn := (markRcvd ack sl.ssn sl.pkts).1,
                       pkts := trimOldest ack bufsize pkts }, none)

end SentList

structure RingTx where
  rawbuf : List UInt8 := []
  unsentoff : ℕ := 0
  unsentend : ℕ := 0
  sentoff : ℕ := 0
  sentend : ℕ := 0
  slist : SentList := {}
  iss : Value := 0
deriving DecidableEq, Repr

namespace RingTx

def size (rtx : RingTx) : ℕ := rtx.rawbuf.length

def reset (rtx : RingTx) (buf : List UInt8) (maxqueuedPackets : ℤ) (iss : Value) :
    RingTx × Option Err :=
  if maxqueuedPackets ≤ 0 then (rtx, some .invalidConfig)
  else if buf.length < minBufferSize ∨ (buf.length : ℤ) < maxqueuedPackets then
    (rtx, some .shortBuffer)
  else
    ({ rawbuf := buf, slist := rtx.slist.reset maxqueuedPackets.toNat iss, iss := iss }, none)

/-- A nil buffer and a zero packet count reuse what is there. -/
def resetOrReuse (rtx : RingTx) (buf : Option (List UInt8)) (maxQueuedPackets : ℤ)
    (ack : Value) : RingTx × Option Err :=
  rtx.reset (buf.getD rtx.rawbuf)
    (if maxQueuedPackets = 0 then (rtx.slist.cap : ℤ) else maxQueuedPackets) ack

def ring (rtx : RingTx) (off endOff : ℕ) : ByteRing :=
  { buf := rtx.rawbuf, off := off, endOff := endOff }

def unsentRing (rtx : RingTx) : ByteRing := rtx.ring rtx.unsentoff rtx.unsentend

def sentRing (rtx : RingTx) : ByteRing := rtx.ring rtx.sentoff rtx.sentend

def bufferedUnsent (rtx : RingTx) : ℕ := rtx.unsentRing.buffered

def bufferedSent (rtx : RingTx) : ℕ := rtx.sentRing.buffered

def sentAndUnsentBuffer (rtx : RingTx) : ByteRing :=
  if rtx.unsentend = 0 then rtx.ring rtx.sentoff rtx.sentend
  else if rtx.sentend = 0 then rtx.ring rtx.unsentoff rtx.unsentend
  else rtx.ring rtx.sentoff rtx.unsentend

def free (rtx : RingTx) : ℕ := rtx.sentAndUnsentBuffer.free

def write (rtx : RingTx) (b : List UInt8) : Except Panic (RingTx × ℕ × Option Err) :=
  let written := if rtx.sentend = 0 then rtx.unsentRing.write b
    else rtx.unsentRing.writeLimited b rtx.sentoff
  match written with
  | .error p => .error p
  | .ok (_, _, some err) => .ok (rtx, 0, some err)
  | .ok (unsent, n, none) =>
    .ok ({ rtx with rawbuf := unsent.buf, unsentend := unsent.endOff }, n, none)

def sentEndSeq (rtx : RingTx) : Option Value := rtx.slist.newest.map RingIdx.endSeq

/-- The retransmission half of MakePacket: the packet that starts at seq. -/
def resendPacket (rtx : RingTx) (n : ℕ) (currentSeq : Value) :
    Except Panic (List UInt8 × Option Err) :=
  match rtx.slist.pkts.find? fun pkt => pkt.seq == currentSeq with
  | none => .ok ([], some .bug)
  | some pkt =>
    match (rtx.ring pkt.off pkt.endOff).read n with
    | .error p => .error p
    | .ok (_, bytes, err) => .ok (bytes, err)

/-- The other half: turn up to n unsent bytes into a new sent packet. -/
def newPacket (rtx : RingTx) (n : ℕ) (currentSeq : Value) :
    Except Panic (RingTx × List UInt8 × Option Err) :=
  if rtx.unsentRing.isEmpty then .ok (rtx, [], none)
  else
    match rtx.unsentRing.read n with
    | .error p => .error p
    | .ok (_, _, some err) => .ok (rtx, [], some err)
    | .ok (unsent, bytes, none) =>
      match rtx.slist.addPacket bytes.length rtx.unsentoff rtx.size currentSeq with
      | .error p => .error p
      | .ok (slist, pkt) =>
        if pkt.off ≠ rtx.unsentoff ∨ pkt.endOff ≠ addEnd pkt.off bytes.length rtx.size then
          .error .invalidGeneratedPacket
        else
          .ok ({ rtx with
                  slist := slist
                  sentoff := if rtx.sentend = 0 then pkt.off else rtx.sentoff
                  unsentoff := if unsent.endOff = 0 then pkt.endOff else unsent.off
                  sentend := pkt.endOff
                  unsentend := unsent.endOff }, bytes, none)

/-- MakePacket into a destination of n bytes. -/
def makePacket (rtx : RingTx) (n : ℕ) (currentSeq : Value) :
    Except Panic (RingTx × List UInt8 × Option Err) :=
  if rtx.slist.free = 0 then .ok (rtx, [], some .bufferFull)
  else if rtx.sentEndSeq.any fun endSeq => Value.lessThan currentSeq endSeq then
    match rtx.resendPacket n currentSeq with
    | .error p => .error p
    | .ok (bytes, err) => .ok (rtx, bytes, err)
  else rtx.newPacket n currentSeq

def consolidateBufs (rtx : RingTx) : RingTx :=
  if rtx.unsentend = 0 ∧ rtx.sentend = 0 then { rtx with sentoff := 0, unsentoff := 0 } else rtx

def recvACK (rtx : RingTx) (ack : Value) : Except Panic (RingTx × Option Err) :=
  match rtx.slist.recvAck ack rtx.size with
  | .error p => .error p
  | .ok (slist, some err) => .ok ({ rtx with slist := slist }, some err)
  | .ok (slist, none) =>
    match slist.oldest, slist.newest with
    | some oldest, some newest =>
      .ok ({ rtx with slist := slist, sentoff := oldest.off,
                      sentend := newest.endOff }.consolidateBufs, none)
    | _, _ => .ok ({ rtx with slist := slist, sentend := 0 }.consolidateBufs, none)

/-- Make the packet that covers seq and all later ones unsent again. -/
def retransmitFrom (rtx : RingTx) (seq : Value) : RingTx :=
  match rtx.slist.packetContaining seq with
  | none => rtx
  | some pkt =>
    let writeEnd := if rtx.unsentend = 0 then rtx.sentend else rtx.unsentend
    { rtx with
      sentoff := if pkt.off = rtx.sentoff then 0 else rtx.sentoff
      sentend := if pkt.off = rtx.sentoff then 0 else pkt.off
      unsentoff := pkt.off
      unsentend := writeEnd
      slist := rtx.slist.truncateFrom pkt.seq }

def retransmitFromUNA (rtx : RingTx) : RingTx :=
  match rtx.slist.oldest with
  | none => rtx
  | some oldest => rtx.retransmitFrom oldest.seq

end RingTx

end Lneto.TransmitRing
