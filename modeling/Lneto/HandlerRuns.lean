import Lneto.ChallengeAcks
import Lneto.HandlerSteps

/-!
Runs of a connection handler from its zero value. The receive ring stays in
bounds along every run, so that Recv can be stopped only by an oversized
payload or by the control block's missing TIME-WAIT case.
-/
namespace Lneto.Connection

open Segments Control InternalRing TransmitRing OutOfOrder Frames CircularBuffers GuardedRuns
  ControlBlock Except

variable {h h' : Handler}

/-- The calls a handler takes, with the verdict or the answer of the Policy; a buffer
has a length and extra capacity. -/
inductive HandlerOp where
  | setBuffers (txbuf rxbuf : Option (List UInt8)) (packets : ℤ)
  | setPolicy (enabled : Bool)
  | openActive (localPort remotePort : BitVec 16) (iss : Value)
  | openListen (localPort : BitVec 16) (iss : Value)
  | abort
  | recv (keep : Bool) (pkt : List UInt8)
  | send (len extra : ℕ) (pol : PolicyTx)
  | close
  | shutdownRead
  | write (b : List UInt8)
  | read (n : ℕ)
  | requeue
deriving DecidableEq, Repr

namespace Handler

def handlerStep (h : Handler) : HandlerOp → Except Panic Handler
  | .setBuffers txbuf rxbuf packets => .ok (h.setBuffers txbuf rxbuf packets).1
  | .setPolicy enabled => .ok { h with policyEnabled := enabled }
  | .openActive localPort remotePort iss => .ok (h.openActive localPort remotePort iss).1
  | .openListen localPort iss => .ok (h.openListen localPort iss).1
  | .abort => .ok h.abort
  | .recv keep pkt => (h.recv keep pkt).map Prod.fst
  | .send len extra pol => (h.send len (len + extra) pol).map Prod.fst
  | .close => .ok h.close.1
  | .shutdownRead => .ok h.shutdownRead
  | .write b => (h.write b).map Prod.fst
  | .read n => (h.read n).map Prod.fst
  | .requeue => .ok h.requeue

def opens (h : Handler) : HandlerOp → Bool
  | .openActive localPort remotePort iss => (h.openActive localPort remotePort iss).2 == none
  | .openListen localPort iss => (h.openListen localPort iss).2 == none
  | _ => false

theorem received_inBounds {keep : Bool} {pkt : List UInt8} {err : Option Err}
    (hin : InBounds h.bufRx) (hout : Received h keep pkt h' err) : InBounds h'.bufRx := by
  cases hout with
  | untouched | rejected | finished | reset => exact hin
  | staged _ hs =>
    obtain ⟨r, rx, ok, hstore, hshape⟩ := store_outcome h.reasm hin h.scb.rcv.nxt _ _
    rw [hs.stored] at hstore
    cases hstore
    exact hshape.inBounds hin
  | accepted hr | acceptedSyn hr => exact withPayload_inBounds _ hin hr.fits

theorem reset_inBounds (h : Handler) (localPort remotePort : BitVec 16) (iss : Value) :
    InBounds (h.reset localPort remotePort iss).bufRx := ⟨Nat.zero_le _, Nat.zero_le _⟩

theorem preTx_bufRx (h : Handler) (pol : PolicyTx) : (h.preTx pol).bufRx = h.bufRx := by
  unfold preTx
  split
  · split <;> rfl
  · rfl

theorem chosen_bufRx {mid : Handler} {awaitingSyn : Bool} {room : ℕ} {choice : Choice}
    (hch : Chosen h awaitingSyn room mid choice) : mid.bufRx = h.bufRx := by
  cases hch <;> rfl

theorem afterSend_inBounds (hin : InBounds h.bufRx) (scb : ControlBlock) (seg : Segment) :
    InBounds (h.afterSend scb seg).bufRx := by
  unfold afterSend
  split_ifs
  · exact reset_inBounds _ _ _ _
  · exact reset_inBounds _ _ _ _
  · exact hin

theorem sends_inBounds {len : ℕ} {pol : PolicyTx} {r : SendResult} (hin : InBounds h.bufRx)
    (hout : Sends h len pol h' r) : InBounds h'.bufRx := by
  have hpre : InBounds (h.preTx pol).autoClose.bufRx := by
    rw [← preTx_bufRx h pol] at hin
    unfold autoClose
    split_ifs <;> exact hin
  cases hout with
  | idle => exact hin
  | quiet => exact hpre
  | ended => exact reset_inBounds _ _ _ _
  | @transmitted mid _ _ _ _ hstart ht =>
  have hmid : InBounds mid.bufRx := by
    cases hstart with
    | going | closed => exact hpre
  cases ht with
  | yielded hch | refused hch =>
    rw [chosen_bufRx hch]
    exact hmid
  | emitted hch =>
  refine afterSend_inBounds ?_ _ _
  rw [chosen_bufRx hch]
  exact hmid

theorem step_inBounds {op : HandlerOp} (hin : InBounds h.bufRx)
    (hstep : h.handlerStep op = .ok h') : InBounds h'.bufRx := by
  cases op with
  | setBuffers txbuf rxbuf packets =>
    obtain rfl := ok.inj hstep
    unfold setBuffers
    split_ifs
    · exact hin
    · exact hin
    · exact ⟨Nat.zero_le _, Nat.zero_le _⟩
  | setPolicy | shutdownRead =>
    obtain rfl := ok.inj hstep
    exact hin
  | openActive localPort remotePort iss =>
    obtain rfl := ok.inj hstep
    unfold openActive
    split_ifs
    · exact hin
    · exact hin
    · exact hin
    · exact ⟨Nat.zero_le _, Nat.zero_le _⟩
  | openListen localPort iss =>
    obtain rfl := ok.inj hstep
    unfold openListen
    split_ifs
    · exact hin
    · exact hin
    split
    · exact hin
    · exact reset_inBounds _ _ _ _
  | abort =>
    obtain rfl := ok.inj hstep
    exact reset_inBounds _ _ _ _
  | recv keep pkt =>
    obtain ⟨err, hrecv⟩ := map_fst_ok hstep
    exact received_inBounds hin (received_of_recv hin hrecv)
  | send len extra pol =>
    obtain ⟨r, hsend⟩ := map_fst_ok hstep
    exact sends_inBounds hin (sends_of_send hsend)
  | close =>
    obtain rfl := ok.inj hstep
    unfold close
    split_ifs <;> exact hin
  | write b =>
    obtain ⟨r, hwrite⟩ := map_fst_ok hstep
    obtain ⟨tx, rfl⟩ := write_eq hwrite
    exact hin
  | read n =>
    obtain ⟨r, hread⟩ := map_fst_ok hstep
    rcases read_outcome hin n with ⟨err, heq⟩ | ⟨hwf, hend, hn, heq⟩
    · rw [heq] at hread
      cases hread
      exact hin
    rw [heq] at hread
    cases hread
    exact afterRead_inBounds hwf hend hn
  | requeue =>
  obtain rfl := ok.inj hstep
  unfold requeue
  split_ifs <;> exact hin

theorem run_inBounds {ops : List HandlerOp} (hrun : exec handlerStep {} ops = .ok h) :
    InBounds h.bufRx :=
  exec_always (I := fun h : Handler => InBounds h.bufRx)
    (fun _ _ _ hs hstep => step_inBounds hs hstep)
    ops {} h ⟨le_rfl, le_rfl⟩ hrun

/-- What a call other than Recv and Send leaves of the control block. -/
inductive Touched (scb : ControlBlock) : ControlBlock → Prop where
  | eased (d wnd : Size) {pending : Flags}
      (hp : pending = scb.pending0 ∨ pending = scb.pending0 ||| flagACK) :
      Touched scb { scb with
        rcv := { scb.rcv with nxt := scb.rcv.nxt + d, wnd := wnd }
        pending0 := pending }
  | cleared (wnd : Size) : Touched scb (scb.reset.setRecvWindow wnd)
  | listening (iss : Value) (wnd : Size) : Touched scb (scb.prepareToHandshake iss wnd .listen)

theorem Touched.same (scb : ControlBlock) : Touched scb scb := by
  have h : Touched scb _ := .eased 0 scb.rcv.wnd (.inl rfl)
  simpa using h

/-- Calls that hand the block no segment: they end the connection, or keep its send side
and, unless it is closed, its ring. -/
inductive Quiet (h h' : Handler) : Prop where
  | aborted (heq : h' = h.abort)
  | kept (d wnd : Size) {pending : Flags}
      (hp : pending = h.scb.pending0 ∨ pending = h.scb.pending0 ||| flagACK)
      (hscb : h'.scb = { h.scb with
        rcv := { h.scb.rcv with nxt := h.scb.rcv.nxt + d, wnd := wnd }
        pending0 := pending })
      (htx : h'.bufTx = h.bufTx ∨ h.scb.state.isClosed = true ∧
        ∃ txbuf packets, h'.bufTx = (h.bufTx.resetOrReuse txbuf packets 0).1)
      (hid : h'.connid = h.connid)

theorem Quiet.same (hscb : h'.scb = h.scb) (htx : h'.bufTx = h.bufTx) (hid : h'.connid = h.connid) :
    Quiet h h' :=
  .kept 0 h.scb.rcv.wnd (.inl rfl) (by rw [hscb]; simp) (.inl htx) hid

theorem open_failed {op : HandlerOp}
    (hop : (∃ l r iss, op = .openActive l r iss) ∨ ∃ l iss, op = .openListen l iss)
    (hopens : h.opens op = false) (hh : h.handlerStep op = .ok h') : h' = h := by
  rcases hop with ⟨l, r, iss, rfl⟩ | ⟨l, iss, rfl⟩
  · obtain rfl := ok.inj hh
    simp only [opens, beq_eq_false_iff_ne] at hopens
    unfold openActive at hopens ⊢
    split_ifs at hopens ⊢ <;> first | rfl | exact absurd rfl hopens
  obtain rfl := ok.inj hh
  simp only [opens, beq_eq_false_iff_ne] at hopens
  unfold openListen openPassive at hopens ⊢
  split_ifs at hopens ⊢ <;> first | rfl | exact absurd rfl hopens

theorem step_quiet {op : HandlerOp} (hin : InBounds h.bufRx) (hwrite : ∀ b, op ≠ .write b)
    (hrecv : ∀ keep pkt, op ≠ .recv keep pkt) (hsend : ∀ len extra pol, op ≠ .send len extra pol)
    (hopens : h.opens op = false) (hstep : h.handlerStep op = .ok h') : Quiet h h' := by
  have hsame : Quiet h h := .same rfl rfl rfl
  cases op with
  | setBuffers txbuf rxbuf packets =>
    obtain rfl := ok.inj hstep
    unfold setBuffers
    split_ifs with hshort hopen
    · exact hsame
    · exact hsame
    rw [Bool.not_eq_true, Bool.not_eq_false'] at hopen
    exact .kept 0 (BitVec.ofNat 32 (rxbuf.getD h.bufRx.buf).length) (.inl rfl)
      (by simp [setRecvWindow]) (.inr ⟨hopen, txbuf, packets, rfl⟩) rfl
  | openActive l r iss =>
    rw [open_failed (.inl ⟨l, r, iss, rfl⟩) hopens hstep]
    exact hsame
  | openListen l iss =>
    rw [open_failed (.inr ⟨l, iss, rfl⟩) hopens hstep]
    exact hsame
  | abort => exact .aborted (ok.inj hstep).symm
  | recv keep pkt => exact absurd rfl (hrecv keep pkt)
  | send len extra pol => exact absurd rfl (hsend len extra pol)
  | write b => exact absurd rfl (hwrite b)
  | close =>
    obtain rfl := ok.inj hstep
    unfold close
    split_ifs <;> exact .same rfl rfl rfl
  | shutdownRead | setPolicy =>
    obtain rfl := ok.inj hstep
    exact .same rfl rfl rfl
  | read n =>
    obtain ⟨r, hread⟩ := map_fst_ok hstep
    rcases read_outcome hin n with ⟨err, heq⟩ | ⟨-, -, -, heq⟩
    · rw [heq] at hread
      cases hread
      exact hsame
    rw [heq] at hread
    cases hread
    obtain ⟨_, _, d, _, hafter, hp⟩ := h.afterRead_eq (min n h.bufRx.buffered)
    rw [hafter]
    exact .kept d h.scb.rcv.wnd hp rfl (.inl rfl) rfl
  | requeue =>
  obtain rfl := ok.inj hstep
  unfold requeue
  split_ifs <;> exact .same rfl rfl rfl

theorem step_touched {op : HandlerOp} (hin : InBounds h.bufRx)
    (hrecv : ∀ keep pkt, op ≠ .recv keep pkt) (hsend : ∀ len extra pol, op ≠ .send len extra pol)
    (hstep : h.handlerStep op = .ok h') : Touched h.scb h'.scb := by
  by_cases hw : ∃ b, op = .write b
  · obtain ⟨b, rfl⟩ := hw
    obtain ⟨r, hwrite⟩ := map_fst_ok hstep
    obtain ⟨tx, rfl⟩ := write_eq hwrite
    exact .same _
  cases hopens : h.opens op with
  | true =>
    cases op with
    | openActive l r iss =>
      obtain rfl := ok.inj hstep
      rw [opens, beq_iff_eq] at hopens
      unfold openActive at hopens ⊢
      split_ifs at hopens ⊢
      exact .cleared _
    | openListen l iss =>
      obtain rfl := ok.inj hstep
      rw [opens, beq_iff_eq] at hopens
      unfold openListen openPassive at hopens ⊢
      split_ifs at hopens ⊢
      exact .listening iss _
    | _ => cases hopens
  | false =>
  cases step_quiet hin (by simpa using hw) hrecv hsend hopens hstep with
  | aborted heq =>
    rw [heq]
    exact .cleared 0
  | kept d wnd hp hscb =>
    rw [hscb]
    exact .eased d wnd hp

/-- An acceptable segment without RST is the next one, except before ESTABLISHED. -/
theorem incomingError_sequential {tcb : ControlBlock} {seg : Segment}
    (hacc : tcb.incomingError seg = none) (hcheck : tcb.checkSEQ seg)
    (hrst : Flags.hasAny seg.flags flagRST = false) : seg.seq = tcb.rcv.nxt := by
  by_contra hne
  unfold incomingError at hacc
  simp only [hcheck, hrst, true_and] at hacc
  split_ifs at hacc with h1 h2 h3 h4 h5 h6
  exact h6 ⟨by simp, hne⟩

/-- The payload is too long for a segment, or the packet reaches the block in TIME-WAIT,
acceptable and without RST or SYN. -/
def RecvStops (h : Handler) (keep : Bool) (pkt : List UInt8) : Prop :=
  h.isTxOver = false ∧ ∃ tfrm, h.Addressed pkt tfrm ∧
    (Frame.maxPayload < (pkt.drop tfrm.headerLength).length ∨
      ((h.policyEnabled = true → keep = true) ∧ h.Fits (pkt.drop tfrm.headerLength) ∧
        h.scb.state = .timeWait ∧
        h.scb.incomingError (h.incomingSegment tfrm (pkt.drop tfrm.headerLength)) = none ∧
        Flags.hasAny tfrm.flags flagRST = false ∧ Flags.hasAny tfrm.flags flagSYN = false))

theorem reaches_of_acceptable {keep : Bool} {pkt payload : List UInt8} {tfrm : Frame}
    {seg : Segment} (hlive : h.isTxOver = false)
    (hparse : h.parseIncoming pkt = .ok (.ok (tfrm, payload, seg)))
    (hkept : h.policyEnabled → keep) (hfits : h.Fits payload)
    (hseq : seg.seq = h.scb.rcv.nxt) : h.Reaches keep pkt tfrm payload seg := by
  refine ⟨hlive, hparse, ?_, hkept, fun _ => ?_, hfits⟩
  · have hne : (seg.seq == h.scb.rcv.nxt - 1) = false := by
      rw [hseq, beq_eq_false_iff_ne]
      bv_omega
    rw [incomingIsKeepalive, hne]
    rfl
  · simp only [handleOutOfOrder, hseq, if_true]
    split_ifs <;> rfl

theorem recv_stops_iff (hin : InBounds h.bufRx) (keep : Bool) (pkt : List UInt8) :
    (∃ p, h.recv keep pkt = .error p) ↔ h.RecvStops keep pkt := by
  constructor
  · rintro ⟨p, hp⟩
    rcases recv_outcome hin keep pkt with
      (⟨h1, e1, hok, -⟩ | ⟨tfrm, payload, seg, p', hr, hctl, -⟩) |
      ⟨hlive, p', hparse, -⟩
    · rw [hok] at hp
      cases hp
    · obtain ⟨haddr, rfl, rfl, -⟩ := parseIncoming_ok hr.parsed
      obtain ⟨hst, hacc, hrst, hsyn⟩ := (recv_error_iff _ _).mp ⟨p', hctl⟩
      exact ⟨hr.live, tfrm, haddr, .inr ⟨hr.kept, hr.fits, hst, hacc, hrst, hsyn⟩⟩
    have haddr : ∃ tfrm, h.Addressed pkt tfrm := by
      by_contra hno
      obtain ⟨err, herr⟩ := parseIncoming_refused (not_exists.mp hno)
      rw [herr] at hparse
      cases hparse
    obtain ⟨tfrm, haddr⟩ := haddr
    rw [parseIncoming_eq haddr] at hparse
    split_ifs at hparse with hbig
    exact ⟨hlive, tfrm, haddr, .inl hbig⟩
  rintro ⟨hlive, tfrm, haddr, hwhy⟩
  have hparse := parseIncoming_eq haddr
  by_cases hbig : Frame.maxPayload < (pkt.drop tfrm.headerLength).length
  · rw [if_pos hbig] at hparse
    refine ⟨.overflowPayloadSize, ?_⟩
    rw [recv, hlive, if_neg (by simp), hparse]
  rw [if_neg hbig] at hparse
  obtain ⟨hkept, hfits, hst, hacc, hrst, hsyn⟩ := hwhy.resolve_left hbig
  have hcheck : h.scb.checkSEQ (h.incomingSegment tfrm (pkt.drop tfrm.headerLength)) := by
    simp [checkSEQ, hst, State.isPreestablished]
  have hr := reaches_of_acceptable hlive hparse hkept hfits
    (incomingError_sequential hacc hcheck hrst)
  obtain ⟨p, hctl⟩ := (recv_error_iff _ _).mpr ⟨hst, hacc, hrst, hsyn⟩
  exact ⟨p, by rw [recv_of_reaches hr, hctl]⟩

/-- For every control block and every handler that a run reaches, Recv stops the program
exactly on what TIME-WAIT lets through, or on an oversized payload. -/
theorem recv_stops_only_in_timeWait (tcb : ControlBlock) (seg : Segment)
    (ops : List HandlerOp) (h : Handler) (hrun : exec handlerStep {} ops = .ok h) (keep : Bool)
    (pkt : List UInt8) :
    ((∃ p, tcb.recv seg = .error p) ↔ tcb.state = .timeWait ∧ tcb.incomingError seg = none ∧
      Flags.hasAny seg.flags flagRST = false ∧ Flags.hasAny seg.flags flagSYN = false) ∧
    ((∃ p, h.recv keep pkt = .error p) ↔ h.RecvStops keep pkt) :=
  ⟨tcb.recv_error_iff seg, recv_stops_iff (run_inBounds hrun) keep pkt⟩

/-- The block closes and reaches TIME-WAIT, with the ACK of the peer's FIN still to be
sent. -/
def timeWaitOps : List BlockOp :=
  ControlBlock.establishedOps ++ [.close,
    .send { seq := 101, ack := 301, wnd := 1000, flags := flagFIN ||| flagACK },
    .recv { seq := 301, ack := 102, wnd := 1000, flags := flagACK },
    .recv { seq := 301, ack := 102, wnd := 1000, flags := flagFIN ||| flagACK }]

def packet (sourcePort destinationPort : BitVec 16) (seg : Segment) (payload : List UInt8) :
    List UInt8 :=
  let be16 : BitVec 16 → List UInt8 := fun x => [⟨(x >>> 8).setWidth 8⟩, ⟨x.setWidth 8⟩]
  let be32 : BitVec 32 → List UInt8 := fun x =>
    be16 ((x >>> 16).setWidth 16) ++ be16 (x.setWidth 16)
  be16 sourcePort ++ be16 destinationPort ++ be32 seg.seq ++ be32 seg.ack ++
    be16 (0x5000 ||| seg.flags) ++ be16 (seg.wnd.setWidth 16) ++ [0, 0, 0, 0] ++ payload

def serverOps : List HandlerOp :=
  [.setBuffers (some (List.replicate 8 0)) (some (List.replicate 8 0)) 4, .openListen 80 100,
    .recv true (packet 1234 80 { seq := 300, wnd := 1000, flags := flagSYN } []),
    .send 60 0 {},
    .recv true (packet 1234 80 { seq := 301, ack := 101, wnd := 1000, flags := flagACK } [])]

theorem recv_stops_only_in_timeWait_server :
    ∃ tcb h, exec ControlBlock.blockStep {} timeWaitOps = .ok tcb ∧
      exec handlerStep {} serverOps = .ok h ∧
      ((∃ p, tcb.recv {} = .error p) ↔ tcb.state = .timeWait ∧ tcb.incomingError {} = none ∧
        Flags.hasAny 0 flagRST = false ∧ Flags.hasAny 0 flagSYN = false) ∧
      ((∃ p, h.recv true [] = .error p) ↔ h.RecvStops true []) := by
  obtain ⟨tcb, hblock, -⟩ : ∃ tcb, exec blockStep {} timeWaitOps = .ok tcb ∧
      tcb.state = .timeWait := exists_exec (by decide +kernel)
  obtain ⟨h, hrun, -⟩ : ∃ h, exec handlerStep {} serverOps = .ok h ∧
      h.scb.state = .established := exists_exec (by decide +kernel)
  exact ⟨tcb, h, hblock, hrun, recv_stops_only_in_timeWait tcb {} serverOps h hrun true []⟩

def serverTimeWaitOps : List HandlerOp :=
  serverOps ++ [.close, .send 60 0 {},
    .recv true (packet 1234 80 { seq := 301, ack := 102, wnd := 1000, flags := flagACK } []),
    .recv true
      (packet 1234 80 { seq := 301, ack := 102, wnd := 1000, flags := flagFIN ||| flagACK } [])]

/-- One more in-order segment before the next Send stops both. -/
theorem recv_stops_before_send : (∃ tcb, exec ControlBlock.blockStep {} timeWaitOps = .ok tcb ∧
      tcb.recv { seq := 302, ack := 102, wnd := 1000, flags := flagACK } =
        .error (.unexpectedRecvState .timeWait)) ∧
    ∃ h, exec handlerStep {} serverTimeWaitOps = .ok h ∧
      h.recv true (packet 1234 80 { seq := 302, ack := 102, wnd := 1000, flags := flagACK } []) =
        .error (.unexpectedRecvState .timeWait) :=
  ⟨exists_exec (by decide +kernel), exists_exec (by decide +kernel)⟩

end Handler

end Lneto.Connection
