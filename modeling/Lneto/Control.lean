import Lneto.Segments

/-!
The transmission control block: sequence spaces, pending flags and the state
machine driven by Open, Send, Recv, Close, Abort, QueueRST and RetransmitFrom.
Methods return the new block, also with an error; the log calls of the source
are left out.
-/
namespace Lneto.Control

open Segments

def retransmitAfterDupacks : BitVec 8 := 3
def retransmitMaxQueued : BitVec 8 := 2
def maxChallengeRejects : ℤ := 8

structure SendSpace where
  iss : Value := 0
  una : Value := 0
  nxt : Value := 0
  wnd : Size := 0
  mss : Size := 0
  wl1 : Value := 0
  wl2 : Value := 0
deriving DecidableEq, Repr

namespace SendSpace

def inFlight (snd : SendSpace) : Size := Value.sizeof snd.una snd.nxt

def maxSend (snd : SendSpace) : Size :=
  if snd.wnd ≤ snd.inFlight then 0 else snd.wnd - snd.inFlight

end SendSpace

structure RecvSpace where
  irs : Value := 0
  nxt : Value := 0
  wnd : Size := 0
deriving DecidableEq, Repr

/-- A negative challengeAcks means that a challenge ACK waits to be sent. -/
structure ControlBlock where
  snd : SendSpace := {}
  rcv : RecvSpace := {}
  rstPtr : Value := 0
  pending0 : Flags := 0
  pending1 : Flags := 0
  state : State := .closed
  challengeAcks : BitVec 8 := 0
  dupack : BitVec 8 := 0
  nRetransmit : BitVec 8 := 0
deriving DecidableEq, Repr

namespace ControlBlock

def setRecvWindow (tcb : ControlBlock) (wnd : Size) : ControlBlock :=
  { tcb with rcv := { tcb.rcv with wnd := wnd } }

def incomingIsKeepalive (tcb : ControlBlock) (seg : Segment) : Bool :=
  seg.seq == tcb.rcv.nxt - 1 && seg.flags == flagACK && seg.ack == tcb.snd.nxt &&
    seg.datalen == 0

def incomingIsDupACK (tcb : ControlBlock) (ack : Value) : Bool :=
  ack == tcb.snd.una && Value.lessThan ack tcb.snd.nxt

def queueRST (tcb : ControlBlock) (seq : Value) : ControlBlock :=
  { tcb with pending0 := flagRST, pending1 := 0, rstPtr := seq }

def makeChallengeACK (tcb : ControlBlock) : Segment :=
  { seq := tcb.snd.nxt, ack := tcb.rcv.nxt, flags := flagACK, wnd := tcb.rcv.wnd }

def resetSnd (tcb : ControlBlock) (localISS : Value) (remoteWND : Size) : ControlBlock :=
  { tcb with snd := { iss := localISS, una := localISS, nxt := localISS, wnd := remoteWND } }

def resetRcv (tcb : ControlBlock) (localWND : Size) (remoteISS : Value) : ControlBlock :=
  { tcb with rcv := { irs := remoteISS, nxt := remoteISS, wnd := localWND } }

/-- Everything but the logger returns to its zero value. -/
def reset (_tcb : ControlBlock) : ControlBlock := {}

def abort (tcb : ControlBlock) : ControlBlock := tcb.reset

def prepareToHandshake (tcb : ControlBlock) (iss : Value) (wnd : Size) (newState : State) :
    ControlBlock :=
  { ((tcb.reset.resetRcv wnd 0).resetSnd iss 1) with state := newState }

/-- `Open` of the source, the passive open. -/
def openPassive (tcb : ControlBlock) (iss : Value) (wnd : Size) : ControlBlock × Option Err :=
  if tcb.state ≠ .closed ∧ tcb.state ≠ .timeWait then (tcb, some .needClosedTCBToOpen)
  else if maxWindow < wnd then (tcb, some .windowTooLarge)
  else (tcb.prepareToHandshake iss wnd .listen, none)

def triggerChallengeAckSatisfied (tcb : ControlBlock) : ControlBlock :=
  { tcb with challengeAcks := 0 }

def triggerChallengeAckEmit (tcb : ControlBlock) : ControlBlock :=
  if 0 ≤ tcb.challengeAcks.toInt then { tcb with challengeAcks := -tcb.challengeAcks - 1 }
  else tcb

def triggerChallengeAckSent (tcb : ControlBlock) : ControlBlock :=
  if tcb.challengeAcks.toInt < 0 then { tcb with challengeAcks := -tcb.challengeAcks }
  else tcb

def pendingChallengeAck (tcb : ControlBlock) : Bool := decide (tcb.challengeAcks.toInt < 0)

def tooManyChallengeAcks (tcb : ControlBlock) : Bool :=
  if 0 ≤ tcb.challengeAcks.toInt then decide (maxChallengeRejects < tcb.challengeAcks.toInt)
  else decide (tcb.challengeAcks.toInt < -maxChallengeRejects)

def hasPendingRetransmit (tcb : ControlBlock) : Bool :=
  tcb.state.txDataOpen && decide (retransmitAfterDupacks ≤ tcb.dupack) &&
    decide (tcb.nRetransmit ≤ tcb.dupack - retransmitAfterDupacks)

def hasPending (tcb : ControlBlock) : Bool :=
  tcb.pending0 != 0 || tcb.pendingChallengeAck || tcb.hasPendingRetransmit

/-- Rewind snd.nxt; false leaves the block unchanged. -/
def retransmitFrom (tcb : ControlBlock) (newNxt : Value) : ControlBlock × Bool :=
  if !tcb.state.txQueuedDataOpen then (tcb, false)
  else if Value.lessThan newNxt tcb.snd.una || Value.lessThan tcb.snd.nxt newNxt then (tcb, false)
  else ({ tcb with snd := { tcb.snd with nxt := newNxt }, dupack := 0, nRetransmit := 0 }, true)

/-- The request, cut to the send window and to the peer's MSS. -/
def limitPayload (tcb : ControlBlock) (payloadLen : ℕ) : ℕ :=
  let byWindow := min payloadLen tcb.snd.maxSend.toNat
  if 0 < tcb.snd.mss ∧ tcb.snd.mss.toNat < byWindow then tcb.snd.mss.toNat else byWindow

def pendingSegment (tcb : ControlBlock) (payloadLen : ℕ) : Except Panic (Option Segment) :=
  if tcb.pendingChallengeAck then .ok (some tcb.makeChallengeACK)
  else if !Flags.hasAny tcb.pending0 flagctl && tcb.hasPendingRetransmit then
    -- fast retransmit of the oldest data, not limited by window or MSS
    .ok (some { seq := tcb.snd.una, datalen := BitVec.ofNat 32 payloadLen, ack := tcb.rcv.nxt,
                wnd := tcb.rcv.wnd, flags := flagACK })
  else
    let canSendData := tcb.state.txQueuedDataOpen
    let request := if canSendData then payloadLen else 0
    if tcb.pending0 = 0 ∧ request = 0 then .ok none
    else if tcb.snd.maxSend.toNat < request ∧ tcb.snd.maxSend = 0 ∧ tcb.pending0 = 0 then .ok none
    else if tcb.snd.maxSend.toNat < request ∧ tcb.snd.wnd < tcb.snd.maxSend then
      .error .badCalculation
    else
      let flags := if canSendData then tcb.pending0 ||| flagACK else tcb.pending0
      .ok (some {
        seq := if Flags.hasAny flags flagRST then tcb.rstPtr else tcb.snd.nxt
        ack := if Flags.hasAny flags flagACK then tcb.rcv.nxt else 0
        wnd := tcb.rcv.wnd
        flags := flags
        datalen := BitVec.ofNat 32 (if canSendData then tcb.limitPayload request else 0) })

def rcvListen (tcb : ControlBlock) (seg : Segment) : ControlBlock × Flags × Option Err :=
  if !Flags.hasAll seg.flags flagSYN then (tcb, 0, some .expectedSYN)
  else
    ({ ((tcb.resetSnd tcb.snd.iss seg.wnd).resetRcv tcb.rcv.wnd seg.seq) with
        pending0 := synack, state := .synRcvd }, synack, none)

def rcvSynSent (tcb : ControlBlock) (seg : Segment) : ControlBlock × Flags × Option Err :=
  let hasAck := Flags.hasAny seg.flags flagACK
  if !Flags.hasAny seg.flags flagSYN then (tcb, 0, some .expectedSYN)
  else if hasAck && seg.ack != tcb.snd.una + 1 then (tcb, 0, some .badSegack)
  else if hasAck then
    ({ tcb.resetRcv tcb.rcv.wnd seg.seq with state := .established }, flagACK, none)
  else
    -- simultaneous open
    ({ ((tcb.resetSnd tcb.snd.iss seg.wnd).resetRcv tcb.rcv.wnd seg.seq) with
        state := .synRcvd }, synack, none)

def rcvSynRcvd (tcb : ControlBlock) (seg : Segment) : ControlBlock × Flags × Option Err :=
  if !Flags.hasAll seg.flags flagACK then (tcb, 0, some .badSegack)
  else if seg.ack ≠ tcb.snd.una + 1 then (tcb, 0, some .badSegack)
  else ({ tcb with state := .established }, 0, none)

def rcvEstablished (tcb : ControlBlock) (seg : Segment) : ControlBlock × Flags × Option Err :=
  let hasFin := Flags.hasAny seg.flags flagFIN
  if 0 < seg.datalen ∨ hasFin then
    (if hasFin then { tcb with state := .closeWait } else tcb, flagACK, none)
  else (tcb, 0, none)

def rcvFinWait1 (tcb : ControlBlock) (seg : Segment) : ControlBlock × Flags × Option Err :=
  let hasFin := Flags.hasAny seg.flags flagFIN
  let hasAck := Flags.hasAny seg.flags flagACK
  let pending := if 0 < seg.datalen ∨ hasFin then flagACK else 0
  if hasFin && hasAck && seg.ack == tcb.snd.nxt then
    ({ tcb with state := .timeWait }, pending, none)
  else if hasFin then ({ tcb with state := .closing }, pending, none)
  else if hasAck && seg.ack == tcb.snd.nxt then ({ tcb with state := .finWait2 }, pending, none)
  else if hasAck then (tcb, pending, none)
  else (tcb, 0, some .finwaitExpectedACK)

def rcvFinWait2 (tcb : ControlBlock) (seg : Segment) : ControlBlock × Flags × Option Err :=
  if Flags.hasAny seg.flags flagFIN then ({ tcb with state := .timeWait }, flagACK, none)
  else if 0 < seg.datalen then (tcb, flagACK, none)
  else (tcb, 0, none)

def rstJump : Value := 100

def handleRST (tcb : ControlBlock) (seq : Value) : ControlBlock × Option Err :=
  match tcb.state with
  | .synSent => (tcb.abort, some .netClosed)
  | .listen => (tcb, some .drop)
  | .synRcvd =>
    -- a passive open falls back to LISTEN under a fresh initial sequence number
    let tcb := { tcb with pending0 := 0, state := .listen }
    let tcb := tcb.resetSnd (tcb.snd.iss + rstJump) tcb.snd.wnd
    (tcb.resetRcv tcb.rcv.wnd (3141592653#32 ^^^ tcb.rcv.irs), some .drop)
  | _ =>
    if seq ≠ tcb.rcv.nxt then
      let tcb := tcb.triggerChallengeAckEmit
      ({ tcb with pending0 := tcb.pending0 ||| flagACK }, some .drop)
    else (tcb.abort, some .netClosed)

/-- Sequence checks are skipped for a SYN before ESTABLISHED and in LISTEN. -/
def checkSEQ (tcb : ControlBlock) (seg : Segment) : Bool :=
  (!Flags.hasAny seg.flags flagSYN || !tcb.state.isPreestablished) && tcb.state != .listen

def rcvZeroWindowOK (tcb : ControlBlock) (seg : Segment) : Bool :=
  tcb.rcv.wnd == 0 && seg.datalen == 0 && seg.seq == tcb.rcv.nxt

/-- The acceptability switch that opens validateIncomingSegment. -/
def incomingError (tcb : ControlBlock) (seg : Segment) : Option Err :=
  let check := tcb.checkSEQ seg
  let zeroWindowOK := tcb.rcvZeroWindowOK seg
  if maxWindow < seg.wnd then some .windowOverflow
  else if tcb.state = .closed then some .closedPipe
  else if check ∧ tcb.rcv.wnd = 0 ∧ 0 < seg.datalen ∧ seg.seq = tcb.rcv.nxt then
    some .zeroWindow
  else if check ∧ ¬ Value.inWindow seg.seq tcb.rcv.nxt tcb.rcv.wnd ∧ ¬ zeroWindowOK then
    some .seqNotInWindow
  else if check ∧ ¬ Value.inWindow seg.last tcb.rcv.nxt tcb.rcv.wnd ∧ ¬ zeroWindowOK then
    some .lastNotInWindow
  else if check ∧ ¬ Flags.hasAny seg.flags flagRST ∧ seg.seq ≠ tcb.rcv.nxt then
    some .requireSequential
  else none

/-- The rejections answered with a challenge ACK. -/
def challenged (err : Err) : Bool :=
  err == .seqNotInWindow || err == .lastNotInWindow || err == .requireSequential ||
    err == .zeroWindow

def acksOld (tcb : ControlBlock) (seg : Segment) : Bool :=
  Flags.hasAll seg.flags flagACK && !Value.lessThan tcb.snd.una seg.ack

def acksUnsentData (tcb : ControlBlock) (seg : Segment) : Bool :=
  Flags.hasAll seg.flags flagACK && !Value.lessThanEq seg.ack tcb.snd.nxt

/-- The drop-segment switch that ends validateIncomingSegment. -/
def dropCheck (tcb : ControlBlock) (seg : Segment) : ControlBlock × Option Err :=
  let established := tcb.state == .established
  let ctlOrDataSegment := established &&
    (decide (0 < seg.datalen) || Flags.hasAny seg.flags (flagFIN ||| flagRST))
  if established && tcb.acksOld seg && !ctlOrDataSegment then (tcb, none)
  else if established && tcb.acksUnsentData seg then
    ({ tcb with pending0 := tcb.pending0 ||| flagACK }, some .drop)
  else if tcb.state.isPreestablished && (tcb.acksOld seg || tcb.acksUnsentData seg) then
    ({ tcb with pending0 := flagRST, rstPtr := seg.ack }.resetSnd tcb.snd.iss seg.wnd,
      some .drop)
  else (tcb, none)

def validateIncomingSegment (tcb : ControlBlock) (seg : Segment) : ControlBlock × Option Err :=
  match tcb.incomingError seg with
  | some err =>
    if challenged err && !Flags.hasAny seg.flags flagRST then
      if tcb.tooManyChallengeAcks then (tcb.abort, some .netClosed)
      else (tcb.triggerChallengeAckEmit, some err)
    else (tcb, some err)
  | none =>
    if Flags.hasAny seg.flags flagRST then tcb.handleRST seg.seq else tcb.dropCheck seg

/-- The state switch of Recv. TIME-WAIT and CLOSED have no case of their own. -/
def rcvState (tcb : ControlBlock) (seg : Segment) :
    Except Panic (ControlBlock × Flags × Option Err) :=
  match tcb.state with
  | .listen => .ok (tcb.rcvListen seg)
  | .synSent => .ok (tcb.rcvSynSent seg)
  | .synRcvd => .ok (tcb.rcvSynRcvd seg)
  | .established => .ok (tcb.rcvEstablished seg)
  | .finWait1 => .ok (tcb.rcvFinWait1 seg)
  | .finWait2 => .ok (tcb.rcvFinWait2 seg)
  | .closeWait => .ok (tcb, 0, none)
  | .lastAck =>
    .ok (if Flags.hasAny seg.flags flagACK then tcb.abort else tcb, 0, none)
  | .closing =>
    .ok (if Flags.hasAny seg.flags flagACK then { tcb with state := .timeWait } else tcb, 0, none)
  | .closed => .error (.unexpectedRecvState .closed)
  | .timeWait => .error (.unexpectedRecvState .timeWait)

/-- Send-window update of an accepted segment, by the WL1/WL2 rule. -/
def updateSendWindow (tcb : ControlBlock) (seg : Segment) : ControlBlock :=
  let snd := tcb.snd
  if (snd.wl1 = 0 ∧ snd.wl2 = 0) ∨ Value.lessThan snd.wl1 seg.seq ∨
      (snd.wl1 = seg.seq ∧ Value.lessThanEq snd.wl2 seg.ack) then
    let wnd := if Value.lessThan snd.una seg.ack ∨ snd.wnd < seg.wnd then seg.wnd else snd.wnd
    { tcb with snd := { snd with wnd := wnd, wl1 := seg.seq, wl2 := seg.ack } }
  else tcb

def updateAck (tcb : ControlBlock) (seg : Segment) : ControlBlock :=
  if Flags.hasAny seg.flags flagACK ∧ Value.lessThanEq seg.ack tcb.snd.nxt then
    if tcb.incomingIsDupACK seg.ack ∧ tcb.state.txDataOpen ∧ ¬ Flags.hasAny seg.flags flagctl ∧
        tcb.dupack < tcb.nRetransmit + retransmitMaxQueued + retransmitMaxQueued then
      { tcb with dupack := tcb.dupack + 1 }
    else if Value.lessThan tcb.snd.una seg.ack then
      { tcb with snd := { tcb.snd with una := seg.ack }, dupack := 0, nRetransmit := 0 }
    else tcb
  else tcb

def acceptSegment (tcb : ControlBlock) (seg : Segment) (pending : Flags) : ControlBlock :=
  let tcb := tcb.triggerChallengeAckSatisfied
  let tcb := { tcb with pending0 := tcb.pending0 ||| pending }
  let tcb := (tcb.updateSendWindow seg).updateAck seg
  { tcb with rcv := { tcb.rcv with nxt := tcb.rcv.nxt + seg.len } }

def recv (tcb : ControlBlock) (seg : Segment) : Except Panic (ControlBlock × Option Err) :=
  match tcb.validateIncomingSegment seg with
  | (tcb, some err) => .ok (tcb, some err)
  | (tcb, none) =>
    if Flags.hasAny seg.flags flagSYN && !tcb.state.isPreestablished then
      let tcb := tcb.triggerChallengeAckEmit
      .ok ({ tcb with pending0 := tcb.pending0 ||| flagACK }, some .drop)
    else
      match tcb.rcvState seg with
      | .error p => .error p
      | .ok (tcb, _, some err) => .ok (tcb, some err)
      | .ok (tcb, pending, none) => .ok (tcb.acceptSegment seg pending, none)

def validateOutgoingSegment (tcb : ControlBlock) (seg : Segment) : Option Err :=
  let hasAck := Flags.hasAny seg.flags flagACK
  let isFirst := tcb.state == .closed && seg.isFirstSYN
  let checkSeq := !isFirst && !Flags.hasAny seg.flags flagRST
  let zeroWindowOK := tcb.snd.wnd == 0 && seg.datalen == 0 && seg.seq == tcb.snd.nxt
  let outOfWindow := checkSeq && !Value.inWindow seg.seq tcb.snd.nxt tcb.snd.wnd && !zeroWindowOK
  let isRetransmit := checkSeq && Value.inRange seg.seq tcb.snd.una tcb.snd.nxt
  if tcb.state = .closed ∧ ¬ isFirst then some .closedPipe
  else if maxWindow < seg.wnd then some .windowTooLarge
  else if hasAck ∧ seg.ack ≠ tcb.rcv.nxt then some .ackNotNext
  else if outOfWindow ∧ ¬ isRetransmit then
    some (if tcb.snd.wnd = 0 then .zeroWindow else .seqNotInWindow)
  else if 0 < seg.datalen ∧ tcb.state = .finWait2 then some .connectionClosing
  else if checkSeq ∧ tcb.snd.wnd = 0 ∧ 0 < seg.datalen ∧ seg.seq = tcb.snd.nxt then
    some .zeroWindow
  else if checkSeq ∧ ¬ Value.inWindow seg.last tcb.snd.nxt tcb.snd.wnd ∧ ¬ zeroWindowOK ∧
      ¬ isRetransmit then
    some .lastNotInWindow
  else none

def sendState (tcb : ControlBlock) (seg : Segment) : ControlBlock :=
  let hasFIN := Flags.hasAny seg.flags flagFIN
  match tcb.state with
  | .closed =>
    if seg.flags = flagSYN then tcb.prepareToHandshake seg.seq seg.wnd .synSent else tcb
  | .synRcvd | .established => if hasFIN then { tcb with state := .finWait1 } else tcb
  | .closing =>
    if Flags.hasAny seg.flags flagACK then { tcb with state := .timeWait } else tcb
  | .closeWait => if hasFIN then { tcb with state := .lastAck } else tcb
  | _ => tcb

/-- Sent flags leave the queue; an emptied first slot takes the second one. -/
def advancePending (tcb : ControlBlock) (flags : Flags) : ControlBlock :=
  let first := Flags.clear tcb.pending0 flags
  if first = 0 then
    { tcb with pending0 := Flags.clear tcb.pending1 (flags &&& flagFIN), pending1 := 0 }
  else { tcb with pending0 := first }

/-- Advance of snd.nxt; a segment below it counts as a retransmission. -/
def advanceNxt (tcb : ControlBlock) (seg : Segment) : ControlBlock :=
  if Value.lessThan seg.seq tcb.snd.nxt then
    if tcb.nRetransmit < 255 - retransmitMaxQueued - retransmitAfterDupacks then
      { tcb with nRetransmit := tcb.nRetransmit + 1 }
    else tcb
  else { tcb with snd := { tcb.snd with nxt := tcb.snd.nxt + seg.len } }

def commitSend (tcb : ControlBlock) (seg : Segment) : ControlBlock :=
  let tcb := (tcb.sendState seg).advancePending seg.flags
  let tcb := if tcb.pendingChallengeAck && Flags.hasAny seg.flags flagACK then
    tcb.triggerChallengeAckSent else tcb
  let tcb := tcb.advanceNxt seg
  tcb.setRecvWindow seg.wnd

def send (tcb : ControlBlock) (seg : Segment) : ControlBlock × Option Err :=
  match tcb.validateOutgoingSegment seg with
  | some err => (tcb, some err)
  | none => (tcb.commitSend seg, none)

def close (tcb : ControlBlock) : ControlBlock × Option Err :=
  match tcb.state with
  | .closed => (tcb, some .connNotExist)
  | .closeWait =>
    ({ tcb with state := .lastAck, pending0 := flagFIN ||| flagACK, pending1 := 0 }, none)
  | .listen | .synSent => (tcb.abort, none)
  | .synRcvd | .established =>
    ({ tcb with pending0 := (tcb.pending0 &&& flagACK) ||| flagFIN }, none)
  | .finWait2 | .timeWait => (tcb, some .connectionClosing)
  | .finWait1 | .closing | .lastAck => (tcb, some .invalidState)

end ControlBlock

end Lneto.Control
