import Lneto.Control
import Lneto.Frames
import Lneto.OutOfOrder
import Lneto.TransmitRing

/-!
The connection handler: control block, transmit ring, receive ring and
reassembly behind Recv, Send, Read, Write and the open and close calls. The
verdicts and answers of a Policy are arguments. Logging is left out.
-/
namespace Lneto.Connection

open Segments Control InternalRing TransmitRing OutOfOrder Frames

def maxWndShift : ℕ := 14

structure Handler where
  connid : BitVec 64 := 0
  scb : ControlBlock := {}
  bufTx : RingTx := {}
  bufRx : ByteRing := {}
  /-- bufRx.Buf is not nil. -/
  rxBufSet : Bool := false
  localPort : BitVec 16 := 0
  remotePort : BitVec 16 := 0
  wndShiftLocal : ℕ := 0
  wndShiftPeer : ℕ := 0
  peerOfferedWS : Bool := false
  reasm : Reassembly := {}
  policyEnabled : Bool := false
  closing : Bool := false
  shutdownRx : Bool := false
  requeueControl : Bool := false
deriving DecidableEq, Repr

def headerWords : Fin 16 := 5

/-- What a Policy's PreTx answers, with the data offset it left in the frame. -/
structure PolicyTx where
  limit : Size := BitVec.allOnes 32
  rtxFrom : Value := 0
  doRtx : Bool := false
  offset : Fin 16 := headerWords
deriving DecidableEq, Repr

/-- An emitted frame; seg has the window as it stands on the wire. -/
structure TxFrame where
  sourcePort : BitVec 16
  destinationPort : BitVec 16
  seg : Segment
  offset : ℕ
  options : List UInt8
  payload : List UInt8
deriving DecidableEq, Repr

structure SendResult where
  n : ℕ := 0
  err : Option Err := none
  frame : Option TxFrame := none
deriving DecidableEq, Repr

/-- The shift search of wndShiftFor; the first argument bounds its rounds. -/
def wndShiftFrom (bufSize : ℕ) : ℕ → ℕ → ℕ
  | 0, shift => shift
  | rounds + 1, shift =>
    if 0xFFFF < bufSize >>> shift then wndShiftFrom bufSize rounds (shift + 1) else shift

def wndShiftFor (bufSize : ℕ) : ℕ := wndShiftFrom bufSize maxWndShift 0

namespace Handler

def awaitingSynSend (h : Handler) : Bool := h.remotePort != 0 && h.scb.state == .closed

def awaitingSynResponse (h : Handler) : Bool := h.remotePort != 0 && h.scb.state == .synSent

def isAwaitingControl (h : Handler) : Bool := h.awaitingSynResponse || h.scb.state == .synRcvd

def isTxOver (h : Handler) : Bool :=
  (h.scb.state == .closed && !h.awaitingSynSend) ||
    (h.scb.state == .timeWait && !h.scb.hasPending)

/-- Free receive space less the bytes held out of order. -/
def recvWindow (h : Handler) : Size :=
  let free : Size := BitVec.ofNat 32 h.bufRx.free
  if !h.reasm.enabled then free
  else
    let ooo : Size := BitVec.ofNat 32 h.reasm.bufferedBytes
    if ooo < free then free - ooo else 0

def wireWnd (h : Handler) (seg : Segment) : Size :=
  let wnd := if h.peerOfferedWS && !Flags.hasAny seg.flags flagSYN then seg.wnd >>> h.wndShiftLocal
    else seg.wnd
  if 0xFFFF < wnd then 0xFFFF else wnd

def nextSegmentIsRetransmit (h : Handler) : Bool :=
  h.bufTx.sentEndSeq.any fun endSeq => Value.lessThan h.scb.snd.nxt endSeq

/-- Everything but the control block, the configuration and the memory is cleared. -/
def reset (h : Handler) (localPort remotePort : BitVec 16) (iss : Value) : Handler :=
  { connid := h.connid + 1
    scb := h.scb
    localPort := localPort
    remotePort := remotePort
    policyEnabled := h.policyEnabled
    wndShiftLocal := h.wndShiftLocal
    bufTx := (h.bufTx.resetOrReuse none 0 iss).1
    bufRx := h.bufRx.reset
    rxBufSet := h.rxBufSet
    reasm := h.reasm.clear }

def setBuffers (h : Handler) (txbuf rxbuf : Option (List UInt8)) (packets : ℤ) :
    Handler × Option Err :=
  if !h.rxBufSet ∧ ((rxbuf.getD []).length < minBufferSize ∨
      (txbuf.getD []).length < minBufferSize) then
    (h, some .shortBuffer)
  else if !h.scb.state.isClosed then (h, some .invalidConfig)
  else
    let buf := rxbuf.getD h.bufRx.buf
    let h := { h with
      bufRx := { buf := buf }
      rxBufSet := h.rxBufSet || rxbuf.isSome
      scb := h.scb.setRecvWindow (BitVec.ofNat 32 buf.length)
      wndShiftLocal := wndShiftFor buf.length
      reasm := h.reasm.reset maxReasmSegments }
    ({ h with bufTx := (h.bufTx.resetOrReuse txbuf packets 0).1 },
      (h.bufTx.resetOrReuse txbuf packets 0).2)

def openActive (h : Handler) (localPort remotePort : BitVec 16) (iss : Value) :
    Handler × Option Err :=
  if remotePort = 0 then (h, some .zeroDestination)
  else if h.bufRx.size < minBufferSize ∨ h.bufTx.size < minBufferSize then
    (h, some .shortBuffer)
  else if h.scb.state ≠ .closed ∧ h.scb.state ≠ .timeWait then (h, some .needClosedTCBToOpen)
  else
    let h := { h with scb := h.scb.reset }.reset localPort remotePort iss
    ({ h with scb := h.scb.setRecvWindow (BitVec.ofNat 32 h.bufRx.size) }, none)

def openListen (h : Handler) (localPort : BitVec 16) (iss : Value) : Handler × Option Err :=
  if localPort = 0 then (h, some .zeroSource)
  else if h.bufRx.size < minBufferSize ∨ h.bufTx.size < minBufferSize then
    (h, some .shortBuffer)
  else
    match h.scb.openPassive iss (BitVec.ofNat 32 h.bufRx.size) with
    | (scb, some err) => ({ h with scb := scb }, some err)
    | (scb, none) => ({ h with scb := scb }.reset localPort 0 iss, none)

def abort (h : Handler) : Handler := { h with scb := h.scb.abort }.reset 0 0 0

def close (h : Handler) : Handler × Option Err :=
  if h.closing then (h, some .connectionClosing)
  else if h.scb.state.isClosed then (h, some .netClosed)
  else ({ h with closing := true }, none)

def shutdownRead (h : Handler) : Handler := { h with shutdownRx := true }

def requeue (h : Handler) : Handler :=
  if h.isAwaitingControl then { h with requeueControl := true } else h

/-- Buffer an in-window data segment ahead of the next expected one. -/
def handleOutOfOrder (h : Handler) (seg : Segment) (payload : List UInt8) :
    Except Panic (Handler × Bool) :=
  if h.shutdownRx then .ok (h, false)
  else if seg.datalen = 0 ∨ Flags.hasAny seg.flags flagctl then .ok (h, false)
  else if seg.seq = h.scb.rcv.nxt then .ok (h, false)
  else if ¬ Value.inWindow seg.seq h.scb.rcv.nxt h.scb.rcv.wnd ∨
      ¬ Value.inWindow seg.last h.scb.rcv.nxt h.scb.rcv.wnd then .ok (h, false)
  else
    match h.reasm.store h.bufRx h.scb.rcv.nxt seg.seq payload with
    | .error p => .error p
    | .ok (_, _, false) => .ok (h, false)
    | .ok (reasm, rx, true) =>
      .ok ({ h with reasm := reasm, bufRx := rx,
                    scb := { h.scb with pending0 := h.scb.pending0 ||| flagACK } }, true)

def deliverReassembled (h : Handler) : Handler :=
  if h.reasm.buffered = 0 then h
  else if h.shutdownRx then { h with reasm := h.reasm.clear }
  else
    let (reasm, rx, delivered) := h.reasm.reassemble h.bufRx h.scb.rcv.nxt
    let h := { h with reasm := reasm, bufRx := rx }
    if 0 < delivered then
      { h with scb := { h.scb with
          rcv := { h.scb.rcv with nxt := h.scb.rcv.nxt + delivered }
          pending0 := h.scb.pending0 ||| flagACK } }
    else h

def applyOption (h : Handler) (opt : UInt8 × List UInt8) : Handler :=
  match opt with
  | (kind, [hi, lo]) =>
    if kind = optMaxSegmentSize ∧ (hi ≠ 0 ∨ lo ≠ 0) then
      { h with scb := { h.scb with
          snd := { h.scb.snd with mss := BitVec.ofNat 32 (hi.toNat * 256 + lo.toNat) } } }
    else h
  | (kind, [shift]) =>
    if kind = optWindowScale then
      { h with peerOfferedWS := true, wndShiftPeer := min shift.toNat maxWndShift }
    else h
  | _ => h

def acceptSyn (h : Handler) (tfrm : Frame) : Except Panic Handler :=
  match tfrm.options with
  | .error p => .error p
  | .ok opts =>
    let h := (forEachOption opts).foldl applyOption h
    .ok (if h.remotePort = 0 then { h with remotePort := tfrm.sourcePort } else h)

/-- An ACK that moved snd.UNA frees transmitted data. -/
def freeAcked (h : Handler) (seg : Segment) (prevUNA : Value) : Except Panic Handler :=
  if Flags.hasAny seg.flags flagACK ∧ seg.ack ≠ prevUNA then
    match h.bufTx.recvACK seg.ack with
    | .error p => .error p
    | .ok (bufTx, _) => .ok { h with bufTx := bufTx }
  else .ok h

/-- The payload of an accepted segment and what it makes contiguous. -/
def acceptPayload (h : Handler) (seg : Segment) (payload : List UInt8) :
    Except Panic (Handler × Option Err) :=
  if seg.datalen = 0 then .ok (h, none)
  else if h.shutdownRx then .ok (h.deliverReassembled, none)
  else
    match h.bufRx.write payload with
    | .error p => .error p
    | .ok (rx, _, some err) => .ok ({ h with bufRx := rx }, some err)
    | .ok (rx, _, none) => .ok ({ h with bufRx := rx }.deliverReassembled, none)

def acceptSegment (h : Handler) (tfrm : Frame) (payload : List UInt8) (seg : Segment)
    (prevUNA : Value) : Except Panic (Handler × Option Err) :=
  if seg.datalen ≠ 0 ∧ h.shutdownRx ∧ (h.scb.state = .finWait1 ∨ h.scb.state = .finWait2) then
    -- closed in both directions: answer data with a reset
    .ok ({ h with scb := h.scb.queueRST seg.ack }, none)
  else
    match h.acceptPayload seg payload with
    | .error p => .error p
    | .ok (h, some err) => .ok (h, some err)
    | .ok (h, none) =>
      match h.freeAcked seg prevUNA with
      | .error p => .error p
      | .ok h =>
        if Flags.hasAny seg.flags flagSYN then
          match h.acceptSyn tfrm with
          | .error p => .error p
          | .ok h => .ok (h, none)
        else .ok (h, none)

def recvControl (h : Handler) (tfrm : Frame) (payload : List UInt8) (seg : Segment) :
    Except Panic (Handler × Option Err) :=
  if !h.shutdownRx ∧ h.bufRx.free < payload.length then .ok (h, some .bufferFull)
  else
    match h.scb.recv seg with
    | .error p => .error p
    | .ok (scb, some err) =>
      .ok ({ h with scb := scb }, some (if scb.state = .closed then .netClosed else err))
    | .ok (scb, none) =>
      if scb.state = .closed then .ok ({ h with scb := scb }, some .netClosed)
      else { h with scb := scb }.acceptSegment tfrm payload seg h.scb.snd.una

/-- Recv from the parsed segment on; keep is the verdict of the Policy's PreRx. -/
def recvSegment (h : Handler) (keep : Bool) (tfrm : Frame) (payload : List UInt8)
    (seg : Segment) : Except Panic (Handler × Option Err) :=
  if h.scb.incomingIsKeepalive seg then .ok (h, none)
  else if h.policyEnabled && !keep then .ok (h, none)
  else if h.reasm.enabled then
    match h.handleOutOfOrder seg payload with
    | .error p => .error p
    | .ok (h, true) => .ok (h, none)
    | .ok (h, false) => h.recvControl tfrm payload seg
  else h.recvControl tfrm payload seg

/-- The front of Recv: validation, port match and the segment in real octets. -/
def parseIncoming (h : Handler) (incomingPacket : List UInt8) :
    Except Panic (Except Err (Frame × List UInt8 × Segment)) :=
  match newFrame incomingPacket with
  | .error err => .ok (.error err)
  | .ok tfrm =>
    match tfrm.validateExceptCRC with
    | some err => .ok (.error err)
    | none =>
      if h.remotePort ≠ 0 ∧ tfrm.sourcePort ≠ h.remotePort then .ok (.error .mismatch)
      else if h.localPort ≠ tfrm.destinationPort then .ok (.error .mismatch)
      else
        match tfrm.payload with
        | .error p => .error p
        | .ok payload =>
          match tfrm.segment payload.length with
          | .error p => .error p
          | .ok seg =>
            let wnd := if h.peerOfferedWS && !Flags.hasAny seg.flags flagSYN then
              seg.wnd <<< h.wndShiftPeer else seg.wnd
            .ok (.ok (tfrm, payload, { seg with wnd := wnd }))

def recv (h : Handler) (keep : Bool) (incomingPacket : List UInt8) :
    Except Panic (Handler × Option Err) :=
  if h.isTxOver then .ok (h, some .netClosed)
  else
    match h.parseIncoming incomingPacket with
    | .error p => .error p
    | .ok (.error err) => .ok (h, some err)
    | .ok (.ok (tfrm, payload, seg)) => h.recvSegment keep tfrm payload seg

/-- The Policy's say before a frame is written: a rewind and the option space. -/
def preTx (h : Handler) (pol : PolicyTx) : Handler :=
  if h.policyEnabled && pol.doRtx then
    match h.scb.retransmitFrom pol.rtxFrom with
    | (_, false) => h
    | (scb, true) => { h with scb := scb, bufTx := h.bufTx.retransmitFrom pol.rtxFrom }
  else h

/-- The data offset at which the Handler's own options begin. -/
def txOffset (h : Handler) (len : ℕ) (pol : PolicyTx) : ℕ :=
  if h.policyEnabled ∧ 5 < pol.offset.val ∧ pol.offset.val * 4 < len then pol.offset.val else 5

/-- In CLOSE-WAIT with nothing left to send the Handler closes by itself. -/
def autoClose (h : Handler) : Handler :=
  if h.scb.state = .closeWait ∧ !h.closing ∧ h.bufTx.bufferedUnsent = 0 ∧ !h.scb.hasPending then
    { h with closing := true }
  else h

def nothingToSend (h : Handler) : Bool :=
  !h.awaitingSynSend && !h.requeueControl && h.bufTx.bufferedUnsent == 0 && !h.closing &&
    !h.scb.hasPending

/-- Close was called and no data is left: start the close handshake. -/
def closeDue (h : Handler) : Bool :=
  h.bufTx.bufferedUnsent == 0 && h.closing && (h.scb.state != .closeWait || !h.scb.hasPending)

/-- MSS and window-scale options of a SYN, and the header words they take. -/
def putSynOptions (h : Handler) (space : ℕ) (mss : BitVec 16) (isSynack : Bool) :
    ℕ × List UInt8 :=
  let mssOption : List UInt8 :=
    if space < 4 then []
    else [optMaxSegmentSize, 4, UInt8.ofNat (mss >>> 8).toNat, UInt8.ofNat mss.toNat]
  if (!isSynack || h.peerOfferedWS) ∧ 8 ≤ space then
    (2, mssOption ++ [optNop, optWindowScale, 3, UInt8.ofNat h.wndShiftLocal])
  else (1, mssOption)

inductive Choice where
  | yield (err : Option Err)
  | segment (seg : Segment) (offset : ℕ) (options payload : List UInt8)
deriving DecidableEq, Repr

/-- The payload of a pending segment, taken out of the transmit ring. -/
def fillSegment (h : Handler) (seg : Segment) (offset : ℕ) :
    Except Panic (Handler × Choice) :=
  match h.bufTx.makePacket seg.datalen.toNat seg.seq with
  | .error p => .error p
  | .ok (bufTx, _, some err) => .ok ({ h with bufTx := bufTx }, .yield (some err))
  | .ok (bufTx, bytes, none) =>
    .ok ({ h with bufTx := bufTx },
      .segment { seg with
        datalen := BitVec.ofNat 32 bytes.length
        flags := if bytes = [] then seg.flags else seg.flags ||| flagPSH } offset [] bytes)

def payloadRoom (h : Handler) (len offset : ℕ) (txLimit : Size) : ℕ :=
  let maxPayload := len - offset * 4
  if txLimit < BitVec.ofNat 32 maxPayload ∧ !h.nextSegmentIsRetransmit then txLimit.toNat
  else maxPayload

/-- awaitingSyn is read before a due close, which may abort the control block. -/
def chooseSegment (h : Handler) (awaitingSyn : Bool) (len offset : ℕ) (txLimit : Size) :
    Except Panic (Handler × Choice) :=
  let mss : BitVec 16 := BitVec.ofNat 16 (len - sizeHeaderTCP)
  let space := len - offset * 4
  if awaitingSyn || (h.requeueControl && h.scb.state == .synSent) then
    let opts := h.putSynOptions space mss false
    .ok (h, .segment (clientSynSegment h.bufTx.iss (BitVec.ofNat 32 h.bufRx.size))
      (offset + opts.1) opts.2 [])
  else if h.requeueControl && h.scb.state == .synRcvd then
    let opts := h.putSynOptions space mss true
    .ok (h, .segment { seq := h.scb.snd.una, ack := h.scb.rcv.nxt,
                       wnd := BitVec.ofNat 32 h.bufRx.free, flags := synack }
      (offset + opts.1) opts.2 [])
  else if h.requeueControl then .ok ({ h with requeueControl := false }, .yield none)
  else
    match h.scb.pendingSegment (h.payloadRoom len offset txLimit) with
    | .error p => .error p
    | .ok none => .ok (h, .yield none)
    | .ok (some seg) =>
      let seg := { seg with wnd := h.recvWindow }
      if seg.flags = synack then
        let opts := h.putSynOptions space mss true
        .ok (h, .segment seg (offset + opts.1) opts.2 [])
      else if 0 < seg.datalen then h.fillSegment seg offset
      else .ok (h, .segment seg offset [] [])

def emit (h : Handler) (cap : ℕ) (seg : Segment) (offset : ℕ) (options payload : List UInt8) :
    Except Panic (Handler × SendResult) :=
  let prevState := h.scb.state
  match h.scb.send seg with
  | (scb, some err) => .ok ({ h with scb := scb }, { err := some err })
  | (scb, none) =>
    let h := { h with scb := scb, requeueControl := false }
    if 16 ≤ offset then .error .tcpOffsetTooLarge
    else if 0xFFFF < h.wireWnd seg then .error .tcpWindowOverflow
    else
      let datalen := offset * 4 + seg.datalen.toNat
      if h.policyEnabled ∧ cap < datalen then .error .sliceBounds
      else
        let frame : TxFrame :=
          { sourcePort := h.localPort, destinationPort := h.remotePort,
            seg := { seg with wnd := h.wireWnd seg }, offset := offset, options := options,
            payload := payload }
        let h := if prevState = .timeWait ∧ Flags.hasAny seg.flags flagACK then h.reset 0 0 0
          else if Flags.hasAny seg.flags flagRST then h.abort
          else h
        .ok (h, { n := datalen, frame := some frame })

def transmit (h : Handler) (awaitingSyn : Bool) (len cap offset : ℕ) (txLimit : Size) :
    Except Panic (Handler × SendResult) :=
  match h.chooseSegment awaitingSyn len offset txLimit with
  | .error p => .error p
  | .ok (h, .yield err) => .ok (h, { err := err })
  | .ok (h, .segment seg offset options payload) => h.emit cap seg offset options payload

def send (h : Handler) (len cap : ℕ) (pol : PolicyTx) : Except Panic (Handler × SendResult) :=
  if h.isTxOver then .ok (h, { err := some .netClosed })
  else if len < sizeHeaderTCP then .ok (h, { err := some .truncatedFrame })
  else
    let txLimit : Size := if h.policyEnabled then pol.limit else BitVec.allOnes 32
    let offset := h.txOffset len pol
    let h := (h.preTx pol).autoClose
    if h.nothingToSend then .ok (h, {})
    else if h.closeDue then
      match h.scb.close with
      | (scb, some _) =>
        .ok ({ h with scb := scb, closing := false }.abort, { err := some .eof })
      | (scb, none) =>
        { h with scb := scb, closing := false }.transmit h.awaitingSynSend len cap offset txLimit
    else h.transmit h.awaitingSynSend len cap offset txLimit

def maybeQueueWindowUpdate (h : Handler) : Handler :=
  let currentFree := h.recvWindow
  let lastAdvertised := h.scb.rcv.wnd
  if currentFree ≤ lastAdvertised then h
  else
    let half : Size := BitVec.ofNat 32 h.bufRx.size / 2
    let thresh := if 0 < h.scb.snd.mss ∧ h.scb.snd.mss < half then h.scb.snd.mss else half
    if thresh ≤ currentFree - lastAdvertised then
      { h with scb := { h.scb with pending0 := h.scb.pending0 ||| flagACK } }
    else h

def write (h : Handler) (b : List UInt8) : Except Panic (Handler × ℕ × Option Err) :=
  if h.closing then .ok (h, 0, some .connectionClosing)
  else if !h.scb.state.txDataOpen then .ok (h, 0, some .netClosed)
  else
    match h.bufTx.write b with
    | .error p => .error p
    | .ok (bufTx, n, err) => .ok ({ h with bufTx := bufTx }, n, err)

/-- The error Read reports when it has no bytes and none of its own. -/
def readEnd (h : Handler) : Option Err :=
  if h.scb.state.isClosed then some .netClosed
  else if !h.scb.state.rxDataOpen then some .eof
  else none

def read (h : Handler) (n : ℕ) : Except Panic (Handler × List UInt8 × Option Err) :=
  if h.shutdownRx then .ok (h, [], some .eof)
  else if h.bufRx.buffered = 0 then .ok (h, [], h.readEnd)
  else
    match h.bufRx.read n with
    | .error p => .error p
    | .ok (rx, bytes, err) =>
      let h := { h with bufRx := rx }
      if bytes = [] then .ok (h, [], if err.isNone then h.readEnd else err)
      else .ok (h.deliverReassembled.maybeQueueWindowUpdate, bytes, err)

end Handler

end Lneto.Connection
