import Lneto.SendProgress

/-!
A pending reset and the next Send. The reset goes out alone if and only if
nothing else claims that Send and the transmit ring has no bytes for its
sequence number.
-/
namespace Lneto.Connection

open Segments Control InternalRing TransmitRing OutOfOrder Frames CircularBuffers GuardedRuns Flags
  ControlBlock SendCursors SendProgress

namespace Handler

variable {h h' : Handler} {room : ℕ}

/-- A reset is pending, no challenge ACK, requeued handshake segment or due close
comes first, the ACK that ends TIME-WAIT is not due, and either no byte is asked of the
ring or it has none to add. -/
structure OnlyReset (h : Handler) (room : ℕ) : Prop where
  live : h.scb.state ≠ .closed
  pending : hasAny h.scb.pending0 flagRST = true
  challenge : h.scb.pendingChallengeAck = false
  requeue : h.requeueControl = false
  due : h.closeDue = false
  ackless : h.scb.state = .timeWait → hasAny h.scb.pending0 flagACK = false
  wnd : ¬ maxWindow < h.recvWindow
  empty : (h.scb.ordinarySegment room).datalen = 0 ∨
    h.bufTx.slist.free ≠ 0 ∧ Spent h.bufTx h.scb.rstPtr

def resetSegment (h : Handler) : Segment :=
  { h.scb.ordinarySegment 0 with wnd := h.recvWindow, datalen := 0 }

theorem OnlyReset.flags (hr : h.OnlyReset room) : hasAny h.scb.pendingFlags flagRST := by
  rw [h.scb.hasAny_pendingFlags (by decide)]
  exact hr.pending

theorem OnlyReset.pending_ne (hr : h.OnlyReset room) : h.scb.pending0 ≠ 0 := by
  intro h0
  have hrst := hr.pending
  rw [h0, hasAny_zero] at hrst
  cases hrst

theorem hasPending_of_ne {scb : ControlBlock} (hne : scb.pending0 ≠ 0) : scb.hasPending := by
  rw [hasPending, bne_iff_ne.mpr hne]
  rfl

theorem OnlyReset.pends (hr : h.OnlyReset room) :
    h.scb.pendingSegment room = .ok (some (h.scb.ordinarySegment room)) := by
  obtain ⟨r, heq, hp⟩ := h.scb.pendingSegment_outcome room
  cases hp with
  | challenge hc => simp [hr.challenge] at hc
  | resend _ hctl =>
    have hrst := hr.pending
    simp [flagctl, hasAny_mask_or, hrst] at hctl
  | nothing _ h0 => exact absurd h0 hr.pending_ne
  | ordinary => exact heq

theorem OnlyReset.chosen {len offset : ℕ} {txLimit : Size}
    (hr : h.OnlyReset (h.payloadRoom len offset txLimit)) :
    h.chooseSegment false len offset txLimit =
      .ok (h, .segment h.resetSegment offset [] []) := by
  unfold chooseSegment
  have hreq := hr.requeue
  have hempty := hr.empty
  have hpends := hr.pends
  set room := h.payloadRoom len offset txLimit
  have hrst : hasAny (h.scb.ordinarySegment room).flags flagRST := hr.flags
  rw [if_neg (by simp [hreq]), if_neg (by simp [hreq]), if_neg (by simp [hreq]), hpends]
  simp only []
  rw [if_neg fun h0 => by rw [h0] at hrst; revert hrst; decide]
  split_ifs with hdata
  · obtain ⟨hfree, hspent⟩ := hempty.resolve_left fun hzero => by simp [hzero] at hdata
    have hseq : (h.scb.ordinarySegment room).seq = h.scb.rstPtr := if_pos hrst
    have hmake : h.bufTx.makePacket (h.scb.ordinarySegment room).datalen.toNat
        (h.scb.ordinarySegment room).seq = .ok (h.bufTx, [], none) := by
      rw [hseq, RingTx.makePacket, if_neg hfree, if_neg (by simp [hspent.2]), RingTx.newPacket,
        if_pos hspent.1]
    simp only [fillSegment, hmake, if_true]
    rfl
  have hzero : (h.scb.ordinarySegment room).datalen = 0 := by bv_omega
  rw [hzero]
  rfl

theorem OnlyReset.valid (hr : h.OnlyReset room) : (h.scb.send h.resetSegment).2 = none := by
  have hrst : hasAny h.resetSegment.flags flagRST := hr.flags
  have hack : ¬ (hasAny h.resetSegment.flags flagACK ∧
      h.resetSegment.ack ≠ h.scb.rcv.nxt) := fun ⟨hf, hne⟩ => hne (if_pos hf)
  have hwnd : ¬ maxWindow < h.resetSegment.wnd := hr.wnd
  have hval : h.scb.validateOutgoingSegment h.resetSegment = none := by
    unfold ControlBlock.validateOutgoingSegment
    simp only [hrst, Bool.not_true, Bool.and_false, Bool.false_and]
    rw [if_neg fun hc => hr.live hc.1, if_neg hwnd, if_neg hack]
    simp [resetSegment]
  simp [ControlBlock.send, hval]

theorem preTx_autoClose_eq (h : Handler) (pol : PolicyTx) :
    (h.preTx pol).autoClose.scb.state = h.scb.state ∧
      (h.preTx pol).autoClose.scb.pending0 = h.scb.pending0 ∧
      (h.preTx pol).autoClose.scb.rstPtr = h.scb.rstPtr := by
  obtain ⟨nxt, dup, nrt, heq⟩ := h.preTx_scb pol
  rw [autoClose_scb, heq]
  exact ⟨rfl, rfl, rfl⟩

/-- The reset leaves without payload and the connection ends. -/
theorem OnlyReset.transmit {len cap offset : ℕ} {txLimit : Size}
    (hr : h.OnlyReset (h.payloadRoom len offset txLimit)) (hoff : offset < 16)
    (hcap : offset * 4 ≤ cap) :
    ∃ h' frame, h.transmit false len cap offset txLimit =
        .ok (h', { n := offset * 4, frame := some frame }) ∧
      hasAny frame.seg.flags flagRST ∧ frame.seg.seq = h.scb.rstPtr ∧
      frame.seg.datalen = 0 ∧ frame.payload = [] ∧ h'.scb.state = .closed := by
  have hrst : hasAny h.resetSegment.flags flagRST := hr.flags
  have hfits : ¬ (h.policyEnabled ∧ cap < offset * 4 + h.resetSegment.datalen.toNat) := by
    rintro ⟨-, hlt⟩
    exact absurd hlt (Nat.not_lt.mpr hcap)
  unfold Handler.transmit
  simp only [hr.chosen]
  rw [emit_sent hr.valid, if_neg (Nat.not_le.mpr hoff), if_neg hfits]
  refine ⟨_, _, rfl, hrst, if_pos hrst, rfl, rfl, ?_⟩
  unfold afterSend
  split_ifs with htw
  · have hst : h.scb.state = .timeWait := htw.1
    have hack : hasAny h.scb.pendingFlags flagACK := htw.2
    simp [pendingFlags, State.txQueuedDataOpen, State.txDataOpen, hst, hr.ackless hst] at hack
  · rfl

theorem txOffset_le (h : Handler) {len : ℕ} (pol : PolicyTx) (hlen : 60 ≤ len) :
    h.txOffset len pol < 16 ∧ h.txOffset len pol * 4 ≤ len := by
  unfold txOffset
  split_ifs with hraise
  · exact ⟨pol.offset.isLt, hraise.2.2.le⟩
  · omega

section Converse
variable {mid : Handler} {awaitingSyn : Bool} {seg : Segment} {offset : ℕ}
  {options payload : List UInt8}

theorem chosen_rst_pending
    (hch : Chosen h awaitingSyn room mid (.segment seg offset options payload))
    (hrst : hasAny seg.flags flagRST) : hasAny h.scb.pending0 flagRST := by
  cases hch with
  | syn => exact absurd (show hasAny flagSYN flagRST from hrst) (by decide)
  | synackAgain => exact absurd (show hasAny synack flagRST from hrst) (by decide)
  | bare hp => exact (pends_flagged hp (by decide) hrst).2.2
  | filled hp =>
    rw [dataSegment_hasAny _ _ _ (by decide)] at hrst
    exact (pends_flagged hp (by decide) hrst).2.2

theorem chosen_alone (hch : Chosen h awaitingSyn room mid (.segment seg offset options []))
    (hrst : hasAny seg.flags flagRST) : h.scb.pendingChallengeAck = false ∧
      seg.wnd = h.recvWindow ∧ seg.flags = h.scb.pendingFlags ∧
      ((h.scb.ordinarySegment room).datalen = 0 ∨
        h.bufTx.slist.free ≠ 0 ∧ Spent h.bufTx h.scb.rstPtr) := by
  cases hch with
  | syn => exact absurd (show hasAny flagSYN flagRST from hrst) (by decide)
  | synackAgain => exact absurd (show hasAny synack flagRST from hrst) (by decide)
  | bare hp hwhy =>
    obtain ⟨hno, rfl, -⟩ := pends_flagged hp (by decide) hrst
    refine ⟨hno.challenge, rfl, rfl, .inl (hwhy.resolve_left fun hsyn => ?_)⟩
    change hasAny (h.scb.ordinarySegment room).flags flagRST at hrst
    rw [hsyn] at hrst
    exact absurd hrst (by decide)
  | filled hp hsyn hdata hmake =>
    obtain ⟨hno, rfl, -⟩ := pends_flagged hp (by decide) hrst
    rw [show (h.scb.ordinarySegment room).seq = h.scb.rstPtr from if_pos hrst] at hmake
    exact ⟨hno.challenge, rfl, rfl, .inr (spent_of_makePacket (by bv_omega) hmake)⟩

/-- A requeued handshake segment goes out in the place of everything else. -/
theorem requeued_no_rst {len : ℕ} {txLimit : Size} {off : ℕ} (hreq : h.requeueControl = true)
    (hch : h.chooseSegment awaitingSyn len off txLimit =
      .ok (mid, .segment seg offset options payload)) : hasAny seg.flags flagRST = false := by
  unfold chooseSegment at hch
  simp only [hreq, Bool.true_and, if_true] at hch
  split_ifs at hch
  · cases hch
    exact show hasAny flagSYN flagRST = false by decide
  · cases hch
    exact show hasAny synack flagRST = false by decide
  · cases hch

theorem onlyReset_of_transmit {len cap : ℕ} {txLimit : Size} {off : ℕ} {r : SendResult}
    {frame : TxFrame} (hdue : h.closeDue = false)
    (ht : h.transmit h.awaitingSynSend len cap off txLimit = .ok (h', r))
    (hf : r.frame = some frame) (hrst : hasAny frame.seg.flags flagRST) (hpay : frame.payload = [])
    (hclosed : h'.scb.state = .closed) : h.OnlyReset (h.payloadRoom len off txLimit) := by
  have hrequeue : h.requeueControl = false := by
    rw [← Bool.not_eq_true]
    intro hreq
    unfold Handler.transmit at ht
    rcases hch : h.chooseSegment h.awaitingSynSend len off txLimit with p | ⟨mid, choice⟩
    · rw [hch] at ht
      cases ht
    rw [hch] at ht
    cases choice with
    | yield err =>
      cases ht
      cases hf
    | segment seg offset options payload =>
    have hno := requeued_no_rst hreq hch
    cases hsend : (mid.scb.send seg).2 with
    | some err =>
      simp only [emit_refused hsend] at ht
      cases ht
      cases hf
    | none =>
    simp only [emit_sent hsend] at ht
    split_ifs at ht
    cases ht
    cases hf
    cases hno.symm.trans hrst
  cases transmit_outcome ht with
  | yielded | refused => cases hf
  | @emitted mid seg offset options payload hch hsend =>
  cases hf
  have hscb := chosen_scb hch
  rw [hscb] at hsend hclosed
  obtain rfl : payload = [] := hpay
  have hrst : hasAny seg.flags flagRST := hrst
  obtain ⟨hchal, hwnd, hflags, hempty⟩ := chosen_alone hch hrst
  have hval := (send_ok hsend).1
  have hlive : h.scb.state ≠ .closed := by
    intro hst
    rw [(h.scb.commitSend_closed seg hst hval).1] at hrst
    exact absurd hrst (by decide)
  refine ⟨hlive, chosen_rst_pending hch hrst, hchal, hrequeue, hdue, fun htw => ?_, ?_, hempty⟩
  · rw [← Bool.not_eq_true]
    intro hack
    have hlast : hasAny seg.flags flagACK := by
      rw [hflags, pendingFlags, htw]
      exact hack
    rw [afterSend, hscb, if_pos ⟨htw, hlast⟩] at hclosed
    obtain ⟨_, _, _, _, heq, -⟩ := h.scb.commitSend_eq seg hlive
    change (h.scb.commitSend seg).state = .closed at hclosed
    rw [heq] at hclosed
    simp only [htw] at hclosed
    cases hclosed
  · rw [← hwnd]
    intro hbig
    unfold validateOutgoingSegment at hval
    dsimp only at hval
    rw [if_neg fun hc => hlive hc.1, if_pos hbig] at hval
    cases hval

end Converse

/-- How many bytes Send may ask of the ring. -/
def sendRoom (h : Handler) (len : ℕ) (pol : PolicyTx) : ℕ :=
  (h.preTx pol).autoClose.payloadRoom len (h.txOffset len pol)
    (if h.policyEnabled then pol.limit else BitVec.allOnes 32)

/-- A reset goes out with the sequence number it was queued with and without payload, and the
connection is CLOSED, if and only if nothing comes before it and the ring adds nothing. -/
theorem pending_reset_is_sent (h : Handler) (pol : PolicyTx) {len cap : ℕ} (hlen : 60 ≤ len)
    (hcap : len ≤ cap) : (∃ h' frame, h.send len cap pol =
        .ok (h', { n := h.txOffset len pol * 4, frame := some frame }) ∧
      hasAny frame.seg.flags flagRST = true ∧ frame.seg.seq = h.scb.rstPtr ∧
      frame.seg.datalen = 0 ∧ frame.payload = [] ∧ h'.scb.state = .closed) ↔
    (h.preTx pol).autoClose.OnlyReset (h.sendRoom len pol) := by
  obtain ⟨hstate, hpending, hptr⟩ := h.preTx_autoClose_eq pol
  have hlong : ¬ len < sizeHeaderTCP := by unfold sizeHeaderTCP; omega
  constructor
  · rintro ⟨h', frame, hsend, hrst, -, -, hpay, hclosed⟩
    generalize hres : ({ n := _, frame := some frame } : SendResult) = r at hsend
    have hf : r.frame = some frame := by rw [← hres]
    unfold send at hsend
    by_cases hover : h.isTxOver = true
    · rw [if_pos hover] at hsend
      cases hsend
      cases hf
    rw [if_neg hover, if_neg hlong] at hsend
    by_cases hquiet : (h.preTx pol).autoClose.nothingToSend = true
    · rw [if_pos hquiet] at hsend
      cases hsend
      cases hf
    rw [if_neg hquiet] at hsend
    by_cases hdue : (h.preTx pol).autoClose.closeDue = true
    · -- the close drops the reset
      rw [if_pos hdue] at hsend
      rcases hclose : (h.preTx pol).autoClose.scb.close with ⟨scb, _ | err⟩
      · rw [hclose] at hsend
        have hgone := close_pending0 (by rw [hclose] : (h.preTx pol).autoClose.scb.close.2 = none)
        rw [hclose] at hgone
        cases transmit_outcome hsend with
        | yielded | refused => cases hf
        | emitted hch =>
        cases hf
        cases hgone.symm.trans (chosen_rst_pending hch hrst)
      · rw [hclose] at hsend
        cases hsend
        cases hf
    rw [if_neg hdue] at hsend
    exact onlyReset_of_transmit (by simpa using hdue) hsend hf hrst hpay hclosed
  intro hr
  have hlive := hr.live
  have hne := hr.pending_ne
  rw [hstate] at hlive
  rw [hpending] at hne
  have hover : h.isTxOver = false := by simp [isTxOver, hlive, hasPending_of_ne hne]
  have hbusy : (h.preTx pol).autoClose.nothingToSend = false := by
    simp [nothingToSend, hasPending_of_ne hr.pending_ne]
  have hsyn : (h.preTx pol).autoClose.awaitingSynSend = false := by simp [awaitingSynSend, hr.live]
  obtain ⟨hoff, hfits⟩ := h.txOffset_le pol hlen
  unfold send
  rw [if_neg (by simp [hover]), if_neg hlong]
  rw [if_neg (by simp [hbusy]), if_neg (by simp [hr.due]), hsyn, ← hptr]
  exact hr.transmit hoff (hfits.trans hcap)

def badAckOps : List HandlerOp :=
  serverOps.take 4 ++
    [.recv true (packet 1234 80 { seq := 301, ack := 7, wnd := 1000, flags := flagACK } [])]

/-- Its next Send resets the connection. -/
theorem pending_reset_is_sent_badAck : ∃ h, exec handlerStep {} badAckOps = .ok h ∧
    ∃ h' frame, h.send 60 60 {} = .ok (h', { n := 20, frame := some frame }) ∧
      hasAny frame.seg.flags flagRST = true ∧ frame.seg.seq = h.scb.rstPtr ∧
      frame.seg.datalen = 0 ∧ frame.payload = [] ∧ h'.scb.state = .closed := by
  obtain ⟨h, hrun, hst, hp, hc, hq, hd, hw, hoff⟩ : ∃ h, exec handlerStep {} badAckOps = .ok h ∧
      (h.preTx {}).autoClose.scb.state = .synRcvd ∧
      hasAny (h.preTx {}).autoClose.scb.pending0 flagRST = true ∧
      (h.preTx {}).autoClose.scb.pendingChallengeAck = false ∧
      (h.preTx {}).autoClose.requeueControl = false ∧ (h.preTx {}).autoClose.closeDue = false ∧
      ¬ maxWindow < (h.preTx {}).autoClose.recvWindow ∧ h.txOffset 60 {} = 5 :=
    exists_exec (by decide +kernel)
  have hr : (h.preTx {}).autoClose.OnlyReset (h.sendRoom 60 {}) :=
    { live := by rw [hst]; decide
      pending := hp, challenge := hc, requeue := hq, due := hd
      ackless := fun htw => by rw [hst] at htw; cases htw
      wnd := hw
      empty := .inl (by rw [ordinarySegment, hst]; rfl) }
  have hsent := (pending_reset_is_sent h {} (Nat.le_refl 60) (Nat.le_refl 60)).2 hr
  rw [hoff] at hsent
  exact ⟨h, hrun, hsent⟩

/-- The server sends two bytes and its FIN, stops reading, and gets data before its
two bytes are acknowledged. -/
def resetWithDataOps : List HandlerOp :=
  serverOps ++ [.write [7, 8], .send 60 0 {}, .close, .send 60 0 {}, .shutdownRead,
    .recv true (packet 1234 80 { seq := 301, ack := 101, wnd := 1000, flags := flagACK } [9])]

/-- The reset then carries the two bytes. -/
theorem pending_reset_carries_data : ∃ h, exec handlerStep {} resetWithDataOps = .ok h ∧
    hasAny h.scb.pending0 flagRST = true ∧
    ∃ r, h.send 60 60 {} = .ok r ∧ r.2.frame.map (·.payload) = some [7, 8] := by
  obtain ⟨h, hrun, hrst, hsend⟩ : ∃ h, exec handlerStep {} resetWithDataOps = .ok h ∧
      hasAny h.scb.pending0 flagRST = true ∧
      (h.send 60 60 {}).map (·.2.frame.map (·.payload)) = .ok (some [7, 8]) :=
    exists_exec (by decide +kernel)
  obtain ⟨r, hr, hpay⟩ := map_ok hsend
  exact ⟨h, hrun, hrst, r, hr, hpay⟩
end Handler
end Lneto.Connection
