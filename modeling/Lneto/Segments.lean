import Lneto.SerialNumbers

/-!
Sequence numbers, segments, flags and connection states.
Value and Size are 32-bit words and every operation wraps as the source's
unsigned arithmetic does. The comparison of sequence numbers is the signed
reading of their difference.
-/
namespace Lneto.Segments

open SerialNumbers BitVec

abbrev Value := BitVec 32

abbrev Size := BitVec 32

namespace Value

def lessThan (v w : Value) : Bool := decide (Before v w)

def lessThanEq (v w : Value) : Bool := v == w || lessThan v w

def inRange (v a b : Value) : Bool := decide (v - a < b - a)

def add (v : Value) (s : Size) : Value := v + s

def inWindow (v first : Value) (size : Size) : Bool := inRange v first (add first size)

def sizeof (v w : Value) : Size := w - v

end Value

open Value

abbrev Flags := BitVec 16

def flagFIN : Flags := 1
def flagSYN : Flags := 2
def flagRST : Flags := 4
def flagPSH : Flags := 8
def flagACK : Flags := 16
def flagMask : Flags := 0x01ff

def synack : Flags := flagSYN ||| flagACK
def flagctl : Flags := flagSYN ||| flagFIN ||| flagRST

namespace Flags

def hasAll (flags mask : Flags) : Bool := flags &&& mask == mask

def hasAny (flags mask : Flags) : Bool := flags &&& mask != 0

def mask (flags : Flags) : Flags := flags &&& flagMask

def clear (flags off : Flags) : Flags := flags &&& ~~~off

end Flags

open Flags

structure Segment where
  seq : Value := 0
  ack : Value := 0
  datalen : Size := 0
  wnd : Size := 0
  flags : Flags := 0
deriving DecidableEq, Repr

namespace Segment

/-- Octets of sequence space, counting FIN and SYN by their flag bits. -/
def len (seg : Segment) : Size :=
  seg.datalen + (seg.flags.setWidth 32 &&& 1#32) + ((seg.flags >>> 1).setWidth 32 &&& 1#32)

def last (seg : Segment) : Value :=
  if seg.len = 0 then seg.seq else Value.add seg.seq seg.len - 1

def isFirstSYN (seg : Segment) : Bool :=
  seg.flags == flagSYN && seg.ack == 0 && seg.datalen == 0 && decide (0 < seg.wnd)

end Segment

def clientSynSegment (clientISS : Value) (clientWND : Size) : Segment :=
  { seq := clientISS, wnd := clientWND, flags := flagSYN }

inductive State where
  | closed
  | listen
  | synRcvd
  | synSent
  | established
  | finWait1
  | finWait2
  | closing
  | timeWait
  | closeWait
  | lastAck
deriving DecidableEq, Repr

namespace State

def isPreestablished (s : State) : Bool := s == synRcvd || s == synSent || s == listen

def isClosed (s : State) : Bool := s == closed || s == timeWait

/-- At or past ESTABLISHED in the source's numbering and not closed. -/
def isSynchronized (s : State) : Bool :=
  match s with
  | closed | listen | synRcvd | synSent => false
  | established | finWait1 | finWait2 | closing | timeWait | closeWait | lastAck => !s.isClosed

def txDataOpen (s : State) : Bool := s == established || s == closeWait

def txQueuedDataOpen (s : State) : Bool :=
  s.txDataOpen || s == finWait1 || s == closing || s == lastAck

def rxDataOpen (s : State) : Bool := s == established || s == finWait1 || s == finWait2

end State

/-- Errors returned by the connection code; `drop` is the packet-drop error. -/
inductive Err where
  | drop
  | windowTooLarge
  | shortBuffer
  | needClosedTCBToOpen
  | invalidState
  | connNotExist
  | connectionClosing
  | expectedSYN
  | badSegack
  | finwaitExpectedACK
  | windowOverflow
  | seqNotInWindow
  | zeroWindow
  | lastNotInWindow
  | requireSequential
  | ackNotNext
  | closedPipe
  | netClosed
  | eof
  | bufferFull
  | ringNoData
  | ringInvalidCommit
  | ioShortBuffer
  | bug
  | truncatedFrame
  | invalidLengthField
  | zeroDestination
  | zeroSource
  | mismatch
  | invalidConfig
deriving DecidableEq, Repr

/-- The places at which the source stops the program. -/
inductive Panic where
  | unexpectedRecvState (s : State)
  | badCalculation
  | zeroEndAfterWrite
  | invalidOnReadEnd
  | badLimitOffset
  | sliceBounds
  | nilDereference
  | invalidGeneratedPacket
  | pktBufferFull
  | packetOffsetMismatch
  | overflowPayloadSize
  | tcpOffsetTooLarge
  | tcpWindowOverflow
deriving DecidableEq, Repr

/-- The largest window a 16-bit field can announce at the largest scale. -/
def maxWindow : Size := 0xFFFF <<< 14

theorem lessThan_iff (v w : Value) : lessThan v w ↔ 0 < ahead v w ∧ ahead v w ≤ 2 ^ 31 := by
  simp only [lessThan, decide_eq_true_eq]
  exact before_iff (by omega) v w

theorem lessThan_self (v : Value) : lessThan v v = false := by
  simp [lessThan, Before]

theorem lessThanEq_iff (v w : Value) : lessThanEq v w ↔ ahead v w ≤ 2 ^ 31 := by
  simp only [lessThanEq, Bool.or_eq_true, beq_iff_eq, lessThan_iff]
  constructor
  · rintro (rfl | h)
    · simp
    · exact h.2
  intro h
  rcases Nat.eq_zero_or_pos (ahead v w) with h0 | hpos
  · exact Or.inl ((ahead_eq_zero_iff v w).mp h0)
  · exact Or.inr ⟨hpos, h⟩

theorem lessThan_advance_iff (base : Value) {m n : ℕ} (hmn : m < n + 2 ^ 31)
    (hnm : n ≤ m + 2 ^ 31) : lessThan (advance base m) (advance base n) ↔ m < n := by
  simp only [lessThan, decide_eq_true_eq]
  exact before_advance_iff (by omega) base hmn hnm

theorem hasAny_or (a b m : Flags) : hasAny (a ||| b) m = (hasAny a m || hasAny b m) := by
  simp only [hasAny, and_or_distrib_right]
  rw [Bool.eq_iff_iff]
  simp only [bne_iff_ne, ne_eq, Bool.or_eq_true, ofNat_eq_ofNat, or_eq_zero_iff]
  tauto

theorem hasAny_mask_or (a m n : Flags) : hasAny a (m ||| n) = (hasAny a m || hasAny a n) := by
  simp only [hasAny, and_or_distrib_left]
  rw [Bool.eq_iff_iff]
  simp only [bne_iff_ne, ne_eq, Bool.or_eq_true, ofNat_eq_ofNat, or_eq_zero_iff]
  tauto

theorem hasAny_zero (m : Flags) : hasAny 0 m = false := by
  simp [hasAny]

theorem hasAny_twoPow (f : Flags) (i : ℕ) (hi : i < 16) : hasAny f (twoPow 16 i) = f.getLsbD i := by
  simp only [hasAny, and_twoPow]
  cases h : f.getLsbD i with
  | false => simp
  | true =>
  have hne : twoPow 16 i ≠ 0 := by
    intro h0
    have hbit := congrArg (fun x => x.getLsbD i) h0
    simp [hi] at hbit
  simpa using hne

theorem hasAny_clear_twoPow (f g : Flags) (i : ℕ) (hi : i < 16) : hasAny (clear f g) (twoPow 16 i) =
      (hasAny f (twoPow 16 i) && !hasAny g (twoPow 16 i)) := by
  rw [hasAny_twoPow _ _ hi, hasAny_twoPow _ _ hi, hasAny_twoPow _ _ hi]
  simp [clear, hi]

theorem hasAny_clear_FIN (f g : Flags) : hasAny (clear f g) flagFIN =
    (hasAny f flagFIN && !hasAny g flagFIN) :=
  hasAny_clear_twoPow f g 0 (by omega)

theorem hasAny_clear_SYN (f g : Flags) : hasAny (clear f g) flagSYN =
    (hasAny f flagSYN && !hasAny g flagSYN) :=
  hasAny_clear_twoPow f g 1 (by omega)

theorem hasAny_clear_RST (f g : Flags) : hasAny (clear f g) flagRST =
    (hasAny f flagRST && !hasAny g flagRST) :=
  hasAny_clear_twoPow f g 2 (by omega)

theorem Segment.len_eq (seg : Segment) :
    seg.len = seg.datalen + (if hasAny seg.flags flagFIN then 1 else 0) +
      (if hasAny seg.flags flagSYN then 1 else 0) := by
  have hbit : ∀ f : Flags, f.setWidth 32 &&& 1#32 =
      if f.getLsbD 0 then 1 else (0 : Size) := by
    intro f
    apply eq_of_getLsbD_eq
    intro i hi
    by_cases h0 : i = 0
    · cases h : f.getLsbD 0 <;> simp_all
    · cases h : f.getLsbD 0 <;> simp [h0, getLsbD_one]
  have hfin : hasAny seg.flags flagFIN = seg.flags.getLsbD 0 := hasAny_twoPow seg.flags 0 (by omega)
  have hsyn : hasAny seg.flags flagSYN = (seg.flags >>> 1).getLsbD 0 := by
    exact hasAny_twoPow seg.flags 1 (by omega)
  rw [Segment.len, hbit, hbit, hfin, hsyn]

end Lneto.Segments
