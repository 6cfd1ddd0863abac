import Lneto.Connection

/-!
The retransmission timer of the rto package: round-trip estimator, timeout
and a shadow of the send sequence space that is rebuilt from the segments it
observes. Durations and clock readings are the 64-bit numbers of the source.
-/
namespace Lneto.RetransmitTimer

open Segments SerialNumbers Connection

abbrev Duration := BitVec 64

def rtoInitial : Duration := 1000000000
def rtoMin : Duration := 200000000
def rtoMax : Duration := 60000000000
def rttGainShift : ℕ := 3
def rttvarGainShift : ℕ := 2
def rttvarK : Duration := 4
def backoffMax : BitVec 8 := 12

/-- The clock is an argument of the methods that read it. -/
structure Timer where
  srtt : Duration := 0
  rttvar : Duration := 0
  rto : Duration := rtoInitial
  haveRTT : Bool := false
  haveSeq : Bool := false
  sndUNA : Value := 0
  sndNXT : Value := 0
  timing : Bool := false
  timedSeq : Value := 0
  timedAt : BitVec 64 := 0
  running : Bool := false
  deadline : BitVec 64 := 0
  backoff : BitVec 8 := 0
  expirations : BitVec 32 := 0
deriving DecidableEq, Repr

namespace Timer

/-- Configure and Reset leave only the clock and the initial timeout. -/
def reset (_r : Timer) : Timer := {}

def currentRTO (r : Timer) : Duration :=
  if r.rto.slt rtoMin then rtoMin
  else if rtoMax.slt r.rto then rtoMax
  else r.rto

def updateRTT (r : Timer) (sample : Duration) : Timer :=
  if sample.sle 0 then r
  else
    let r :=
      if !r.haveRTT then { r with srtt := sample, rttvar := sample.sdiv 2, haveRTT := true }
      else
        let diff := if (r.srtt - sample).slt 0 then -(r.srtt - sample) else r.srtt - sample
        { r with
          rttvar := r.rttvar + (diff - r.rttvar).sshiftRight rttvarGainShift
          srtt := r.srtt + (sample - r.srtt).sshiftRight rttGainShift }
    { r with rto := r.srtt + rttvarK * r.rttvar }

def takeSample (r : Timer) (ack : Value) (now : BitVec 64) : Timer :=
  if r.timing && !Value.lessThan ack r.timedSeq then
    { r.updateRTT (now - r.timedAt) with timing := false, backoff := 0 }
  else r

/-- The shadow takes an ACK past sndUNA that is not past sndNXT. -/
def acknowledge (r : Timer) (ack : Value) : Timer :=
  if Value.lessThan r.sndUNA ack && !Value.lessThan r.sndNXT ack then { r with sndUNA := ack }
  else r

def postRx (r : Timer) (incoming : Segment) (now : BitVec 64) : Timer :=
  if !r.haveSeq || !Flags.hasAny incoming.flags flagACK then r
  else
    let r := (r.takeSample incoming.ack now).acknowledge incoming.ack
    if r.sndUNA = r.sndNXT then { r with running := false }
    else { r with running := true, deadline := now + r.currentRTO }

/-- Before a segment goes out: on a timeout back off and rewind to una. -/
def preTx (r : Timer) (now : BitVec 64) (una : Value) : Timer × PolicyTx :=
  if !r.running || now.slt r.deadline || r.sndUNA == r.sndNXT then (r, {})
  else
    let r := { r with expirations := r.expirations + 1, timing := false }
    let r := if r.backoff < backoffMax then
      { r with
        backoff := r.backoff + 1
        rto := if (r.currentRTO * 2).slt rtoMax then r.currentRTO * 2 else rtoMax } else r
    ({ r with running := true, deadline := now + r.currentRTO }, { rtxFrom := una, doRtx := true })

def startSample (r : Timer) (segEnd : Value) (now : BitVec 64) : Timer :=
  if !r.timing then { r with timing := true, timedSeq := segEnd, timedAt := now } else r

def arm (r : Timer) (now : BitVec 64) : Timer :=
  if !r.running then { r with running := true, deadline := now + r.currentRTO } else r

/-- An emitted segment; only data arms the timer. -/
def postTx (r : Timer) (outgoing : Segment) (now : BitVec 64) : Timer :=
  if outgoing.datalen = 0 then r
  else
    let segEnd := outgoing.seq + outgoing.len
    let r := if !r.haveSeq then
      { r with haveSeq := true, sndUNA := outgoing.seq, sndNXT := outgoing.seq } else r
    if !Value.lessThan r.sndNXT segEnd then { r with timing := false }
    else ({ r with sndNXT := segEnd }.startSample segEnd now).arm now

theorem postRx_ignored (r : Timer) (seg : Segment) (now : BitVec 64)
    (h : r.haveSeq = false ∨ Flags.hasAny seg.flags flagACK = false) : r.postRx seg now = r := by
  unfold postRx
  rcases h with h | h <;> simp [h]

section
variable (r : Timer) (seg : Segment) (now : BitVec 64)
include r seg now

end

def postRxAll (r : Timer) (arrivals : List (Segment × BitVec 64)) : Timer :=
  arrivals.foldl (fun r a => r.postRx a.1 a.2) r

/-- None of them acknowledges anything new, nor the segment that is timed. -/
def Repeated (r : Timer) (arrivals : List (Segment × BitVec 64)) : Prop :=
  ∀ a ∈ arrivals, Flags.hasAny a.1.flags flagACK = true →
    (r.acknowledge a.1.ack).sndUNA = r.sndUNA ∧
      (r.timing = true → Value.lessThan a.1.ack r.timedSeq = true)

instance (r : Timer) (arrivals : List (Segment × BitVec 64)) : Decidable (r.Repeated arrivals) :=
  inferInstanceAs (Decidable (∀ a ∈ arrivals, _))

/-- Those that carry an ACK come so early that a timeout counted from them ends by the
deadline. -/
def Early (r : Timer) (arrivals : List (Segment × BitVec 64)) : Prop :=
  ∀ a ∈ arrivals, Flags.hasAny a.1.flags flagACK = true →
    (a.2 + r.currentRTO).toInt ≤ r.deadline.toInt

instance (r : Timer) (arrivals : List (Segment × BitVec 64)) : Decidable (r.Early arrivals) :=
  inferInstanceAs (Decidable (∀ a ∈ arrivals, _))

theorem preTx_due (r : Timer) (now : BitVec 64) (una : Value) (hrun : r.running)
    (hout : r.sndUNA ≠ r.sndNXT) (hdue : r.deadline.sle now) : (r.preTx now una).2.doRtx := by
  have hlt : now.slt r.deadline = false := by
    rw [BitVec.sle_eq_not_slt, Bool.not_eq_true'] at hdue
    exact hdue
  unfold preTx
  rw [if_neg (by simp [hrun, hout, hlt])]

/-- The deadline behind them, each ACK of which restarts the timer. -/
def restarted (r : Timer) (arrivals : List (Segment × BitVec 64)) (d : BitVec 64) : BitVec 64 :=
  arrivals.foldl (fun d a => if Flags.hasAny a.1.flags flagACK then a.2 + r.currentRTO else d) d

section
variable {r : Timer} (hseq : r.haveSeq = true) (hrun : r.running = true)
  (hout : r.sndUNA ≠ r.sndNXT)
include hseq hrun hout

theorem postRx_repeated {a : Segment × BitVec 64} (hold : r.Repeated [a]) (d : BitVec 64) :
    ({ r with deadline := d } : Timer).postRx a.1 a.2 =
      { r with deadline := if Flags.hasAny a.1.flags flagACK then a.2 + r.currentRTO else d } := by
  by_cases hack : Flags.hasAny a.1.flags flagACK
  swap
  · rw [postRx_ignored _ _ _ (.inr (Bool.not_eq_true _ ▸ hack)), if_neg hack]
  obtain ⟨huna, htimed⟩ := hold a (List.mem_singleton_self a) hack
  have hsample : ({ r with deadline := d } : Timer).takeSample a.1.ack a.2 =
      { r with deadline := d } := by
    refine if_neg fun h => ?_
    obtain ⟨htime, hlate⟩ := Bool.and_eq_true_iff.1 h
    simp [htimed htime] at hlate
  have hsame : ({ r with deadline := d } : Timer).acknowledge a.1.ack =
      { r with deadline := d } := by
    unfold acknowledge at huna ⊢
    split_ifs at huna ⊢ with hnew
    · simp only at huna
      simp only [huna]
    · rfl
  rw [postRx, if_neg (by simp [hseq, hack])]
  simp only [hsample, hsame, hout, if_false, if_pos hack]
  exact congrArg (fun b => ({ r with running := b, deadline := _ } : Timer)) hrun.symm

theorem postRxAll_repeated : ∀ {arrivals : List (Segment × BitVec 64)}, r.Repeated arrivals →
    ∀ d, ({ r with deadline := d } : Timer).postRxAll arrivals =
      { r with deadline := r.restarted arrivals d } := by
  intro arrivals
  induction arrivals with
  | nil => exact fun _ _ => rfl
  | cons a rest ih =>
    intro hold d
    have hfirst := postRx_repeated hseq hrun hout
      (fun b hb => hold b (List.mem_singleton.1 hb ▸ List.mem_cons_self)) d
    rw [postRxAll, List.foldl_cons, hfirst]
    exact ih (fun b hb => hold b (List.mem_cons_of_mem a hb)) _

end

def sentTen : Timer := ({} : Timer).postTx { seq := 100, datalen := 10, flags := flagACK } 0

def duplicateACK : Segment := { ack := 100, flags := flagACK }

end Timer

end Lneto.RetransmitTimer
