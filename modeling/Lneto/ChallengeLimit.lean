import Lneto.HandlerRuns

/-!
When Recv closes a connection. A run counts the challenge ACKs raised since
the control block last accepted a segment; the block's own counter never runs
ahead of that count, so a connection is not given up before nine of them.
-/
namespace Lneto.Connection

open Segments Control InternalRing TransmitRing OutOfOrder Frames GuardedRuns ControlBlock Handler

variable {scb scb' : ControlBlock} {raised : ℕ} {h h' : Handler} {pkt : List UInt8}
  {err : Option Err} {keep : Bool} {seg : Segment}

namespace Handler

def stagesSegment (h : Handler) (seg : Segment) (payload : List UInt8) : Bool :=
  h.reasm.enabled && (match h.handleOutOfOrder seg payload with
    | .ok (_, staged) => staged
    | .error _ => false)

/-- The segment that Recv hands to the control block, if any. -/
def controlSegment (h : Handler) (keep : Bool) (pkt : List UInt8) : Option Segment :=
  if h.isTxOver then none
  else
    match h.parseIncoming pkt with
    | .ok (.ok (_, payload, seg)) =>
      if h.scb.incomingIsKeepalive seg || (h.policyEnabled && !keep) ||
          h.stagesSegment seg payload ||
          (!h.shutdownRx && decide (h.bufRx.free < payload.length)) then none
      else some seg
    | _ => none

theorem controlSegment_of_reaches {payload : List UInt8} {tfrm : Frame}
    (hr : h.Reaches keep pkt tfrm payload seg) : h.controlSegment keep pkt = some seg := by
  have hpolicy : (h.policyEnabled && !keep) = false := by
    cases hp : h.policyEnabled with
    | false => rfl
    | true => rw [hr.kept hp]; rfl
  have hstaged : h.stagesSegment seg payload = false := by
    unfold stagesSegment
    cases henabled : h.reasm.enabled with
    | false => rfl
    | true => rw [hr.notStaged henabled]; rfl
  have hfull : (!h.shutdownRx && decide (h.bufRx.free < payload.length)) = false := by
    rcases hr.fits with hs | hf
    · simp [hs]
    · simp [hf]
  simp [controlSegment, hr.live, hr.parsed, hr.notKeepalive, hpolicy, hstaged, hfull]

theorem controlSegment_of_stopped (hin : InBounds h.bufRx) (hstop : h.Stopped keep pkt) :
    h.controlSegment keep pkt = none := by
  unfold controlSegment
  cases hlive : h.isTxOver with
  | true => rfl
  | false =>
  rw [if_neg (by simp)]
  cases hparse : h.parseIncoming pkt with
  | error p => rfl
  | ok r =>
  cases r with
  | error err => rfl
  | ok parsed =>
  obtain ⟨tfrm, payload, seg⟩ := parsed
  by_contra hne
  rw [ite_eq_left_iff, not_forall] at hne
  obtain ⟨hnot, -⟩ := hne
  simp only [Bool.or_eq_true, not_or, Bool.not_eq_true] at hnot
  obtain ⟨⟨⟨hkeepalive, hpolicy⟩, hstaged⟩, hfull⟩ := hnot
  refine hstop tfrm payload seg ⟨hlive, hparse, hkeepalive, ?_, ?_, ?_⟩
  · intro hp
    simpa [hp] using hpolicy
  · intro henabled
    rcases handleOutOfOrder_outcome hin hparse henabled with hpass | ⟨reasm, rx, -, htake⟩
    · exact hpass
    · simp [stagesSegment, henabled, htake] at hstaged
  unfold Fits
  cases hs : h.shutdownRx with
  | true => exact .inl rfl
  | false =>
    right
    simpa [hs] using hfull

/-- What a verdict of the control block does to the count. -/
def recount (scb scb' : ControlBlock) (err : Option Err) (raised : ℕ) : ℕ :=
  if err = none then 0
  else if !scb.pendingChallengeAck && scb'.pendingChallengeAck then raised + 1
  else raised

/-- The number of challenge ACKs raised since the last accepted segment, after Recv. -/
def raisedAfter (h : Handler) (keep : Bool) (pkt : List UInt8) (raised : ℕ) : ℕ :=
  match h.controlSegment keep pkt with
  | none => raised
  | some seg =>
    match h.scb.recv seg with
    | .ok (scb, err) => recount h.scb scb err raised
    | .error _ => raised

end Handler

/-- A handler and its count of raised challenges. -/
structure Counted where
  h : Handler := {}
  raised : ℕ := 0

namespace Counted

def step (c : Counted) : HandlerOp → Except Panic Counted
  | .recv keep pkt =>
    (c.h.recv keep pkt).map fun r => { h := r.1, raised := c.h.raisedAfter keep pkt c.raised }
  | op => (c.h.handlerStep op).map fun h => { c with h := h }

def Covered (scb : ControlBlock) (raised : ℕ) : Prop := scb.challengeAcks.toInt.natAbs ≤ raised

theorem covered_zero (h : scb.challengeAcks = 0) (raised : ℕ) : Covered scb raised := by
  rw [Covered, h]
  exact Nat.zero_le _

theorem Covered.same (h : Covered scb raised) (heq : scb'.challengeAcks = scb.challengeAcks) :
    Covered scb' raised := by
  rw [Covered, heq]
  exact h

theorem covered_or_zero (h : Covered scb raised)
    (heq : scb'.challengeAcks = scb.challengeAcks ∨ scb'.challengeAcks = 0) :
    Covered scb' raised := by
  rcases heq with heq | heq
  · exact h.same heq
  · exact covered_zero heq raised

theorem covered_commitSend (h : Covered scb raised) (seg : Segment) :
    Covered (scb.commitSend seg) raised := by
  have hsize : ∀ c : BitVec 8, (-c).toInt.natAbs = c.toInt.natAbs := by decide
  have hst := covered_or_zero h (scb.challengeAcks_sendState seg)
  rw [Covered, challengeAcks_commitSend]
  split_ifs
  · unfold triggerChallengeAckSent
    split_ifs
    · simp only [hsize]
      exact hst
    · exact hst
  · exact hst

theorem covered_emit (h : Covered scb raised) : Covered scb.triggerChallengeAckEmit
      (if !scb.pendingChallengeAck && scb.triggerChallengeAckEmit.pendingChallengeAck
        then raised + 1 else raised) := by
  have hemit := scb.challengeAcks_emit
  unfold Covered at h ⊢
  simp only [pendingChallengeAck, hemit]
  by_cases hpos : 0 ≤ scb.challengeAcks.toInt
  · have hnow : -scb.challengeAcks.toInt - 1 < 0 := by omega
    have hbefore : ¬ scb.challengeAcks.toInt < 0 := by omega
    simp only [if_pos hpos, hnow, hbefore, decide_true, decide_false, Bool.not_false,
      Bool.and_self, if_true]
    omega
  have hbefore : scb.challengeAcks.toInt < 0 := by omega
  simp only [if_neg hpos, hbefore, decide_true, Bool.not_true, Bool.false_and,
    Bool.false_eq_true, if_false]
  exact h

theorem covered_recv (h : Covered scb raised) (hrecv : scb.recv seg = .ok (scb', err)) :
    Covered scb' (recount scb scb' err raised) := by
  have hsame : ∀ (t : ControlBlock) (e : Err), t.challengeAcks = scb.challengeAcks →
      Covered t (recount scb t (some e) raised) := by
    intro t e heq
    have hno : (!scb.pendingChallengeAck && t.pendingChallengeAck) = false := by
      simp only [pendingChallengeAck, heq]
      cases decide (scb.challengeAcks.toInt < 0) <;> rfl
    rw [recount, if_neg (by simp), hno]
    exact h.same heq
  have hemit : ∀ e : Err, Covered scb.triggerChallengeAckEmit
      (recount scb scb.triggerChallengeAckEmit (some e) raised) := fun e => covered_emit h
  cases recv_outcome hrecv with
  | accepted => exact covered_zero (challengeAcks_acceptSegment _ _ _) _
  | ignored e => exact hsame scb e rfl
  | challenge e => exact hemit e
  | limit | rstAbort => exact covered_zero rfl _
  | synChallenge | rstChallenge => exact hemit .drop
  | ackDrop | preReset | relisten => exact hsame _ .drop rfl

theorem covered_received (hin : InBounds h.bufRx) (hc : Covered h.scb raised)
    (hrecv : h.recv keep pkt = .ok (h', err)) : Covered h'.scb (h.raisedAfter keep pkt raised) := by
  rcases received_scb hin (received_of_recv hin hrecv) with
    ⟨hstop, heq⟩ | ⟨_, _, seg, scb, e, hr, hb, hset⟩
  · simp only [raisedAfter, controlSegment_of_stopped hin hstop]
    rcases heq with heq | heq <;> exact hc.same (by rw [heq])
  simp only [raisedAfter, controlSegment_of_reaches hr, hb]
  have hcb := covered_recv hc hb
  generalize h'.scb = out at hset ⊢
  cases hset with
  | verdict => exact hcb
  | reset | taken => exact hcb.same rfl

theorem covered_sends {len : ℕ} {pol : PolicyTx} {r : SendResult} (hc : Covered h.scb raised)
    (hout : Sends h len pol h' r) : Covered h'.scb raised := by
  have hpre : Covered (h.preTx pol).autoClose.scb raised := by
    obtain ⟨_, _, _, heq⟩ := h.preTx_scb pol
    rw [autoClose_scb, heq]
    exact hc
  cases hout with
  | idle => exact hc
  | quiet => exact hpre
  | ended => exact covered_zero rfl _
  | @transmitted mid _ _ _ _ hstart ht =>
  have hmid : Covered mid.scb raised := by
    cases hstart with
    | going => exact hpre
    | closed => exact covered_or_zero hpre (challengeAcks_close _)
  cases ht with
  | yielded hch | refused hch =>
    rw [chosen_scb hch]
    exact hmid
  | @emitted mid' seg _ _ _ hch =>
  have hsent : Covered (mid'.scb.commitSend seg) raised := by
    rw [chosen_scb hch]
    exact covered_commitSend hmid seg
  unfold afterSend
  split_ifs
  · exact hsent
  · exact covered_zero rfl _
  · exact hsent

structure Sound (c : Counted) : Prop where
  inBounds : InBounds c.h.bufRx
  covered : Covered c.h.scb c.raised

theorem covered_handlerStep {op : HandlerOp} (hin : InBounds h.bufRx) (hc : Covered h.scb raised)
    (hop : ∀ keep pkt, op ≠ .recv keep pkt) (hstep : h.handlerStep op = .ok h') :
    Covered h'.scb raised := by
  by_cases hsend : ∃ len extra pol, op = .send len extra pol
  · obtain ⟨len, extra, pol, rfl⟩ := hsend
    obtain ⟨r, hr⟩ := map_fst_ok hstep
    exact covered_sends hc (sends_of_send hr)
  have htouch := step_touched hin hop (fun len extra pol heq => hsend ⟨len, extra, pol, heq⟩) hstep
  generalize h'.scb = out at htouch ⊢
  cases htouch with
  | eased => exact hc.same rfl
  | cleared | listening => exact covered_zero rfl _

theorem sound_step {c c' : Counted} {op : HandlerOp} (hs : c.Sound)
    (hstep : c.step op = .ok c') : c'.Sound := by
  by_cases hop : ∃ keep pkt, op = .recv keep pkt
  · obtain ⟨keep, pkt, rfl⟩ := hop
    obtain ⟨⟨h', err⟩, hrecv, rfl⟩ := map_ok hstep
    exact ⟨received_inBounds hs.inBounds (received_of_recv hs.inBounds hrecv),
      covered_received hs.inBounds hs.covered hrecv⟩
  have hother : c.step op = (c.h.handlerStep op).map fun h => { c with h := h } := by
    cases op with
    | recv keep pkt => exact absurd ⟨keep, pkt, rfl⟩ hop
    | _ => rfl
  rw [hother] at hstep
  obtain ⟨h', hh, rfl⟩ := map_ok hstep
  exact ⟨step_inBounds hs.inBounds hh, covered_handlerStep hs.inBounds hs.covered
    (fun keep pkt heq => hop ⟨keep, pkt, heq⟩) hh⟩

/-- What lets the control block end in CLOSED: a RST, the ACK in LAST-ACK, or the
limit on challenges. -/
theorem recv_closes {tcb tcb' : ControlBlock} (hrecv : tcb.recv seg = .ok (tcb', err))
    (hopen : tcb.state ≠ .closed) (hclosed : tcb'.state = .closed) :
    Flags.hasAny seg.flags flagRST ∨
    (tcb.state = .lastAck ∧ Flags.hasAny seg.flags flagACK = true) ∨
    (tcb.Challenged seg ∧ tcb.tooManyChallengeAcks = true) := by
  obtain ⟨c, hemit⟩ := tcb.triggerChallengeAckEmit_eq
  cases recv_outcome hrecv with
  | @accepted mid pending hacc =>
    rw [acceptSegment_state] at hclosed
    cases rcvState_handled hacc.handled with
    | finished hst hack => exact .inr (.inl ⟨hst, hack⟩)
    | moved hmove =>
      cases hmove with
      | stay => exact absurd hclosed hopen
      | _ => cases hclosed
    | _ => cases hclosed
  | ignored | ackDrop | preReset => exact absurd hclosed hopen
  | challenge | synChallenge =>
    rw [hemit] at hclosed
    exact absurd hclosed hopen
  | limit hch hmany => exact .inr (.inr ⟨hch, hmany⟩)
  | rstChallenge hrst | rstAbort hrst | relisten hrst => exact .inl hrst

theorem received_closes {keep : Bool} {err : Option Err} (hin : InBounds h.bufRx)
    (hout : Received h keep pkt h' err) (hopen : h.scb.state ≠ .closed)
    (hclosed : h'.scb.state = .closed) : ∃ seg, h.controlSegment keep pkt = some seg ∧
      (Flags.hasAny seg.flags flagRST ∨
        (h.scb.state = .lastAck ∧ Flags.hasAny seg.flags flagACK = true) ∨
        (h.scb.Challenged seg ∧ h.scb.tooManyChallengeAcks = true)) := by
  rcases received_scb hin hout with ⟨-, heq⟩ | ⟨_, _, seg, scb, e, hr, hb, hset⟩
  · refine absurd hclosed ?_
    rcases heq with heq | heq <;> rw [heq] <;> exact hopen
  have hst : scb.state = .closed := by
    generalize h'.scb = out at hset hclosed
    cases hset with
    | verdict | reset | taken => exact hclosed
  exact ⟨seg, controlSegment_of_reaches hr, recv_closes hb hopen hst⟩

theorem nine_le_of_tooMany (hc : Covered scb raised) (hmany : scb.tooManyChallengeAcks) :
    9 ≤ raised := by
  unfold Covered at hc
  unfold tooManyChallengeAcks maxChallengeRejects at hmany
  split_ifs at hmany <;> rw [decide_eq_true_eq] at hmany <;> omega

/-- The segment carries a RST, or an ACK in LAST-ACK, or is rejected after nine
challenges. -/
def MayClose (c : Counted) (keep : Bool) (pkt : List UInt8) : Prop :=
  ∃ seg, c.h.controlSegment keep pkt = some seg ∧
    (Flags.hasAny seg.flags flagRST = true ∨
      (c.h.scb.state = .lastAck ∧ Flags.hasAny seg.flags flagACK = true) ∨
      (c.h.scb.Challenged seg ∧ 9 ≤ c.raised))

/-- A packet closes the connection only by a RST, by an ACK in LAST-ACK, or when
rejected after nine challenges with no accepted segment in between. -/
theorem closes_only_after_nine_challenges (ops : List HandlerOp) (c : Counted)
    (hrun : exec step {} ops = .ok c) (keep : Bool) (pkt : List UInt8) (h' : Handler)
    (err : Option Err) (hrecv : c.h.recv keep pkt = .ok (h', err))
    (hopen : c.h.scb.state ≠ .closed) (hclosed : h'.scb.state = .closed) : c.MayClose keep pkt := by
  have hs : c.Sound := exec_always (I := Sound) (fun _ _ _ hs hstep => sound_step hs hstep)
    ops {} c ⟨⟨le_rfl, le_rfl⟩, Nat.zero_le _⟩ hrun
  obtain ⟨seg, hseg, hwhy⟩ :=
    received_closes hs.inBounds (received_of_recv hs.inBounds hrecv) hopen hclosed
  refine ⟨seg, hseg, ?_⟩
  rcases hwhy with h1 | h1 | ⟨h1, hmany⟩
  · exact .inl h1
  · exact .inr (.inl h1)
  · exact .inr (.inr ⟨h1, nine_le_of_tooMany hs.covered hmany⟩)

def onePacket : List UInt8 :=
  Handler.packet 1234 80 { seq := 301, ack := 101, wnd := 1000, flags := flagACK ||| flagPSH } [7]

/-- The byte is delivered and acknowledged; then nine late copies of it arrive and
each is answered. -/
def staleOps : List HandlerOp :=
  Handler.serverOps ++ (List.replicate 10 [.recv true onePacket, .send 60 0 {}]).flatten

theorem closes_only_after_nine_challenges_stale :
    ∃ c h' err, exec step {} staleOps = .ok c ∧ c.h.recv true onePacket = .ok (h', err) ∧
      c.h.scb.state ≠ .closed ∧ h'.scb.state = .closed ∧ c.MayClose true onePacket := by
  have hrun : ∃ c, exec step {} staleOps = .ok c ∧ c.h.scb.state ≠ .closed ∧
      ((c.h.recv true onePacket).map fun r => r.1.scb.state) = .ok .closed :=
    exists_exec (by decide +kernel)
  obtain ⟨c, hrun, hopen, hclosed⟩ := hrun
  obtain ⟨⟨h', err⟩, hrecv, hst⟩ := map_ok hclosed
  exact ⟨c, h', err, hrun, hrecv, hopen, hst,
    closes_only_after_nine_challenges staleOps c hrun true onePacket h' err hrecv hopen hst⟩

/-- The tenth late copy of one byte closes an established connection, though the peer
sent nothing but that byte. -/
theorem closes_on_tenth_duplicate :
    ∃ h, exec Handler.handlerStep {} staleOps = .ok h ∧ h.scb.state = .established ∧
      ((h.recv true onePacket).map fun r => r.1.scb.state) = .ok .closed :=
  exists_exec (by decide +kernel)

end Counted

end Lneto.Connection
