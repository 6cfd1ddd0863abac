import Lneto.HandlerRuns

/-!
Handlers whose control block has returned to CLOSED. Send takes a CLOSED block with a
remote port for one that has yet to send its SYN; it keeps silent if the port was
cleared, or if a close is due. A run carries whether the block has returned to CLOSED
since the last open.
-/
namespace Lneto.ClosedSilence

open Segments GuardedRuns Control InternalRing TransmitRing Frames Connection Connection.Handler
  Except

variable {h h' : Handler}

/-- A CLOSED handler in this condition sends nothing. -/
def Hushed (h : Handler) : Prop :=
  h.remotePort = 0 ∨ (h.closing = true ∧ h.bufTx.bufferedUnsent = 0)

instance (h : Handler) : Decidable (Hushed h) :=
  inferInstanceAs (Decidable (_ ∨ _))

structure Silent (h : Handler) : Prop where
  closed : h.scb.state = .closed
  hushed : Hushed h

/-- A handler and whether it returned to CLOSED since it was last opened. -/
structure Watched where
  h : Handler := {}
  shut : Bool := false

def returned (h h' : Handler) : Bool := h.scb.state != .closed && h'.scb.state == .closed

def step (w : Watched) (op : HandlerOp) : Except Panic Watched :=
  (w.h.handlerStep op).map fun h' =>
    { h := h', shut := !opens w.h op && (w.shut || returned w.h h') }

/-- A return to CLOSED clears the remote port, or leaves a close due with nothing to
send. -/
def Clears (w : Watched) (op : HandlerOp) : Prop :=
  ∀ h', w.h.handlerStep op = .ok h' → returned w.h h' = true → Hushed h'

instance (w : Watched) (op : HandlerOp) : Decidable (Clears w op) := decidableNext

/-- The control block, the port, the close request and the data to send decide. -/
theorem Silent.kept (hs : Silent h) (hst : h'.scb.state = h.scb.state)
    (hport : h'.remotePort = h.remotePort) (hclosing : h'.closing = h.closing)
    (htx : h'.bufTx = h.bufTx) : Silent h' := by
  refine ⟨hst.trans hs.closed, ?_⟩
  unfold Hushed
  rw [hport, hclosing, htx]
  exact hs.hushed

theorem silent_received {keep : Bool} {pkt : List UInt8} {err : Option Err} (hs : Silent h)
    (hout : Received h keep pkt h' err) : Silent h' := by
  cases hout with
  | untouched => exact hs
  | staged => exact hs.kept rfl rfl rfl rfl
  | @rejected _ _ seg _ _ _ hrecv =>
    obtain ⟨err, herr⟩ := ControlBlock.recv_closed hs.closed seg
    cases hrecv.symm.trans herr
    exact hs
  | @finished _ _ seg _ _ hrecv | @reset _ _ seg _ _ hrecv | @accepted _ _ seg _ _ _ hrecv
  | @acceptedSyn _ _ seg _ _ _ hrecv =>
    obtain ⟨err, herr⟩ := ControlBlock.recv_closed hs.closed seg
    cases hrecv.symm.trans herr

theorem preTx_closed (hclosed : h.scb.state = .closed) (pol : PolicyTx) :
    (h.preTx pol).autoClose = h := by
  have hpre : h.preTx pol = h := by
    unfold preTx
    split
    · have hrefused : h.scb.retransmitFrom pol.rtxFrom = (h.scb, false) := by
        rw [ControlBlock.retransmitFrom, hclosed]
        rfl
      rw [hrefused]
    · rfl
  rw [hpre, autoClose, if_neg (by simp [hclosed])]

theorem silent_send {len cap : ℕ} {pol : PolicyTx} {r : SendResult} (hs : Silent h)
    (hsend : h.send len cap pol = .ok (h', r)) : r.frame = none ∧ Silent h' := by
  have hpre := preTx_closed hs.closed pol
  have hlive : h.isTxOver = false → h.remotePort ≠ 0 := by
    intro hover hport
    simp [isTxOver, awaitingSynSend, hs.closed, hport] at hover
  have hdue : h.remotePort ≠ 0 → h.closeDue := by
    intro hport
    obtain ⟨hclosing, hunsent⟩ := hs.hushed.resolve_left hport
    simp [closeDue, hclosing, hunsent, hs.closed]
  have hnone : h.scb.close.2 ≠ none := by simp [ControlBlock.close, hs.closed]
  cases sends_of_send hsend with
  | idle => exact ⟨rfl, hs⟩
  | quiet =>
    rw [hpre]
    exact ⟨rfl, hs⟩
  | ended => exact ⟨rfl, rfl, .inl rfl⟩
  | transmitted hover hstart =>
  have hport := hlive hover
  cases hstart with
  | going _ hnotDue =>
    rw [hpre, hdue hport] at hnotDue
    cases hnotDue
  | closed _ hclose =>
    rw [hpre] at hclose
    exact absurd hclose hnone

theorem bufferedUnsent_resetOrReuse (rtx : RingTx) (buf : Option (List UInt8)) (packets : ℤ)
    (iss : Value) (h : rtx.bufferedUnsent = 0) :
    (rtx.resetOrReuse buf packets iss).1.bufferedUnsent = 0 := by
  have hreset : ∀ buf packets, (rtx.reset buf packets iss).1.bufferedUnsent = 0 := by
    intro buf packets
    unfold RingTx.reset
    split_ifs
    · exact h
    · exact h
    · simp [RingTx.bufferedUnsent, RingTx.unsentRing, RingTx.ring, ByteRing.buffered,
        ByteRing.free, ByteRing.size]
  exact hreset _ _

theorem silent_setBuffers (hs : Silent h) (txbuf rxbuf : Option (List UInt8)) (packets : ℤ) :
    Silent (h.setBuffers txbuf rxbuf packets).1 := by
  unfold setBuffers
  split_ifs
  · exact hs
  · exact hs
  refine ⟨hs.closed, ?_⟩
  rcases hs.hushed with hport | ⟨hclosing, hunsent⟩
  · exact .inl hport
  · exact .inr ⟨hclosing, bufferedUnsent_resetOrReuse _ _ _ _ hunsent⟩

theorem openListen_cases (h : Handler) (localPort : BitVec 16) (iss : Value) :
    (h.openListen localPort iss).2 = none ∨ (h.openListen localPort iss).1 = h := by
  unfold openListen
  split_ifs
  · exact .inr rfl
  · exact .inr rfl
  have hopen : ∀ wnd, (h.scb.openPassive iss wnd).2 = none ∨
      (h.scb.openPassive iss wnd).1 = h.scb := by
    intro wnd
    unfold ControlBlock.openPassive
    split_ifs <;> simp
  have hone := hopen (BitVec.ofNat 32 h.bufRx.size)
  split
  · next heq =>
    rw [heq] at hone
    right
    simp only [reduceCtorEq, false_or] at hone
    rw [hone]
  · exact .inl rfl

theorem openActive_cases (h : Handler) (localPort remotePort : BitVec 16) (iss : Value) :
    (h.openActive localPort remotePort iss).2 = none ∨
      (h.openActive localPort remotePort iss).1 = h := by
  unfold openActive
  split_ifs <;> simp

theorem silent_step {op : HandlerOp} (hin : InBounds h.bufRx) (hs : Silent h)
    (hopen : opens h op = false) (hstep : h.handlerStep op = .ok h') : Silent h' := by
  cases op with
  | setBuffers txbuf rxbuf packets =>
    obtain rfl := ok.inj hstep
    exact silent_setBuffers hs txbuf rxbuf packets
  | setPolicy | shutdownRead =>
    obtain rfl := ok.inj hstep
    exact hs.kept rfl rfl rfl rfl
  | openActive localPort remotePort iss =>
    obtain rfl := ok.inj hstep
    rcases openActive_cases h localPort remotePort iss with hnone | hsame
    · simp [opens, hnone] at hopen
    · rw [hsame]
      exact hs
  | openListen localPort iss =>
    obtain rfl := ok.inj hstep
    rcases openListen_cases h localPort iss with hnone | hsame
    · simp [opens, hnone] at hopen
    · rw [hsame]
      exact hs
  | abort =>
    obtain rfl := ok.inj hstep
    exact ⟨rfl, .inl rfl⟩
  | recv keep pkt =>
    obtain ⟨err, hrecv⟩ := map_fst_ok hstep
    exact silent_received hs (received_of_recv hin hrecv)
  | send len extra pol =>
    obtain ⟨r, hsend⟩ := map_fst_ok hstep
    exact (silent_send hs hsend).2
  | close =>
    obtain rfl := ok.inj hstep
    unfold close
    split_ifs with hclosing hclosed
    · exact hs
    · exact hs
    · simp [hs.closed, State.isClosed] at hclosed
  | write b =>
    obtain ⟨r, hwrite⟩ := map_fst_ok hstep
    have hsame : h.write b = .ok (h, 0, some .connectionClosing) ∨
        h.write b = .ok (h, 0, some .netClosed) := by
      unfold write
      rw [hs.closed]
      by_cases hclosing : h.closing
      · exact .inl (if_pos hclosing)
      · exact .inr (by rw [if_neg hclosing]; rfl)
    rcases hsame with hsame | hsame
    all_goals
      cases hwrite.symm.trans hsame
      exact hs
  | read n =>
    obtain ⟨r, hread⟩ := map_fst_ok hstep
    rcases read_outcome hin n with ⟨err, heq⟩ | ⟨-, -, -, heq⟩
    · cases hread.symm.trans heq
      exact hs
    cases hread.symm.trans heq
    obtain ⟨reasm, rx, d, pending, hafter, -⟩ := h.afterRead_eq (min n h.bufRx.buffered)
    rw [hafter]
    exact hs.kept rfl rfl rfl rfl
  | requeue =>
  obtain rfl := ok.inj hstep
  unfold requeue
  split_ifs
  · exact hs.kept rfl rfl rfl rfl
  · exact hs

structure Sound (w : Watched) : Prop where
  inBounds : InBounds w.h.bufRx
  silent : w.shut = true → Silent w.h

theorem sound_step {w w' : Watched} {op : HandlerOp} (hw : Sound w) (hop : Clears w op)
    (hstep : step w op = .ok w') : Sound w' := by
  obtain ⟨h', hh, rfl⟩ := map_ok hstep
  refine ⟨step_inBounds hw.inBounds hh, fun hover => ?_⟩
  rw [Bool.and_eq_true, Bool.not_eq_true', Bool.or_eq_true] at hover
  obtain ⟨hopen, hover | hreturned⟩ := hover
  · exact silent_step hw.inBounds (hw.silent hover) hopen hh
  refine ⟨?_, hop h' hh hreturned⟩
  rw [returned, Bool.and_eq_true, beq_iff_eq] at hreturned
  exact hreturned.2

theorem send_syn (hclosed : h.scb.state = .closed) (hloud : ¬ Hushed h) (hpos : 0 < h.bufRx.size)
    (hwnd : h.bufRx.size ≤ maxWindow.toNat) : ∃ h' r f, h.send 60 60 {} = .ok (h', r) ∧
      r.frame = some f ∧ f.seg.flags = flagSYN := by
  obtain ⟨hport, hbusy⟩ := not_or.1 hloud
  have hawait : h.awaitingSynSend := by
    rw [awaitingSynSend, hclosed, Bool.and_eq_true, bne_iff_ne]
    exact ⟨hport, rfl⟩
  have hlive : h.isTxOver = false := by simp [isTxOver, hawait, hclosed]
  have hquiet : h.nothingToSend = false := by simp [nothingToSend, hawait]
  have hdue : h.closeDue = false := by
    simp only [closeDue, Bool.and_eq_false_iff, beq_eq_false_iff_ne]
    left
    by_contra hno
    rw [not_or, not_not, Bool.not_eq_false] at hno
    exact hbusy ⟨hno.2, hno.1⟩
  have hoffset : h.txOffset 60 {} = 5 := by
    rw [txOffset, if_neg]
    rintro ⟨-, hlong, -⟩
    exact absurd hlong (by decide)
  set seg := clientSynSegment h.bufTx.iss (BitVec.ofNat 32 h.bufRx.size) with hseg
  have hvalid : (h.scb.send seg).2 = none := by
    have hsize : seg.wnd.toNat = h.bufRx.size := by
      rw [hseg, clientSynSegment, BitVec.toNat_ofNat, Nat.mod_eq_of_lt (by omega)]
    have hfits : ¬ maxWindow < seg.wnd := by
      rw [BitVec.lt_def]
      omega
    have hfirst : seg.isFirstSYN := by
      have hopen : 0 < seg.wnd := by
        rw [BitVec.lt_def, hsize]
        exact hpos
      simp only [Segment.isFirstSYN, hopen, decide_true, Bool.and_true]
      rfl
    have hack : Flags.hasAny seg.flags flagACK = false := by
      change Flags.hasAny flagSYN flagACK = false
      decide
    have hok : h.scb.validateOutgoingSegment seg = none := by
      simp [ControlBlock.validateOutgoingSegment, hclosed, hfits, hfirst, hack]
    rw [ControlBlock.send, hok]
  obtain ⟨offset, options, hsmall, hchoose⟩ : ∃ offset options, offset ≤ 7 ∧
      h.chooseSegment true 60 5 (if h.policyEnabled then ({} : PolicyTx).limit
        else BitVec.allOnes 32) = .ok (h, .segment seg offset options []) := by
    refine ⟨_, _, ?_, rfl⟩
    unfold putSynOptions
    split_ifs <;> simp
  have hsent : h.send 60 60 {} = .ok (h.afterSend (h.scb.commitSend seg) seg,
      { n := offset * 4 + seg.datalen.toNat,
        frame := some (h.frameOf seg offset options []) }) := by
    rw [send, hlive, if_neg (by simp), if_neg (by decide), hoffset]
    simp only [preTx_closed hclosed, hquiet, hdue, hawait, transmit]
    rw [if_neg (by simp), if_neg (by simp), hchoose]
    have hdata : seg.datalen.toNat = 0 := rfl
    simp only [emit_sent hvalid]
    rw [if_neg (by omega), if_neg (by omega)]
  exact ⟨_, _, _, hsent, rfl, rfl⟩

/-- In runs whose returns to CLOSED clear the remote port, or leave a close due with
nothing to send, no Send emits a segment between such a return and the next open.
Otherwise the very next Send emits a SYN. -/
theorem closed_stays_silent (ops : List HandlerOp) (w : Watched) (len extra : ℕ) (pol : PolicyTx)
    (h' : Handler) (r : SendResult) (hrun : exec step {} ops = .ok w) :
    (Guarded step Clears {} ops → w.shut = true → w.h.send len (len + extra) pol = .ok (h', r) →
      r.frame = none) ∧
    (w.h.scb.state = .closed → ¬ Hushed w.h → 0 < w.h.bufRx.size →
      w.h.bufRx.size ≤ maxWindow.toNat →
      ∃ h' r f, w.h.send 60 60 {} = .ok (h', r) ∧ r.frame = some f ∧ f.seg.flags = flagSYN) := by
  refine ⟨fun hops hover hsend => ?_, send_syn⟩
  have hsound : Sound w := exec_invariant (I := Sound) (fun _ _ _ hw hop hs => sound_step hw hop hs)
    ops {} w ⟨⟨le_rfl, le_rfl⟩, by simp⟩ hops hrun
  exact (silent_send (hsound.silent hover) hsend).1

def peerReset : HandlerOp :=
  .recv true (packet 1234 80 { seq := 301, wnd := 1000, flags := flagRST } [])

theorem closed_stays_silent_closing : Guarded step Clears {} (serverOps ++ [.close, peerReset]) ∧
    ∃ w, exec step {} (serverOps ++ [.close, peerReset]) = .ok w ∧ w.shut = true ∧
      ∀ h' r, w.h.send 60 60 {} = .ok (h', r) → r.frame = none := by
  have hops : Guarded step Clears {} (serverOps ++ [.close, peerReset]) := by decide +kernel
  obtain ⟨w, hrun, hover⟩ : ∃ w, exec step {} (serverOps ++ [.close, peerReset]) = .ok w ∧
      w.shut = true := exists_exec (by decide +kernel)
  exact ⟨hops, w, hrun, hover, fun h' r hsend =>
    (closed_stays_silent _ w 60 0 {} h' r hrun).1 hops hover hsend⟩

def Reopens (ops : List HandlerOp) : Prop :=
  ∃ w, exec step {} ops = .ok w ∧ (w.shut = true ∧ w.h.scb.state = .closed ∧
    ((w.h.send 60 60 {}).toOption.any fun out =>
      out.2.frame.any fun f => f.seg.flags == flagSYN) = true)

def lastAckOps : List HandlerOp :=
  serverOps ++ [.recv true
      (packet 1234 80 { seq := 301, ack := 101, wnd := 1000, flags := flagFIN ||| flagACK } []),
    .send 60 0 {}, .send 60 0 {},
    .recv true (packet 1234 80 { seq := 302, ack := 102, wnd := 1000, flags := flagACK } [])]

def cancelledOps : List HandlerOp :=
  [.setBuffers (some (List.replicate 8 0)) (some (List.replicate 8 0)) 4,
    .openActive 80 1234 100, .send 60 0 {}, .close, .send 60 0 {}]

def challengeOps : List HandlerOp :=
  let old : HandlerOp :=
    .recv true (packet 1234 80 { seq := 5000, ack := 101, wnd := 1000, flags := flagACK } [])
  serverOps ++ (List.replicate 9 [old, .send 60 0 {}]).flatten ++ [old]

theorem closed_sends_syn : Reopens (serverOps ++ [peerReset]) ∧ Reopens lastAckOps ∧
    Reopens cancelledOps ∧ Reopens challengeOps :=
  ⟨exists_exec (by decide +kernel), exists_exec (by decide +kernel),
    exists_exec (by decide +kernel), exists_exec (by decide +kernel)⟩

end Lneto.ClosedSilence
