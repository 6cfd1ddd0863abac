import Lneto.ControlSteps
import Lneto.GuardedRuns

/-!
The challenge-ACK counter over whole runs of a control block. The counter is
an 8-bit integer whose sign says that a challenge ACK waits to be sent; the
sign is cleared by negation, which is exact for every value but the least.
-/
namespace Lneto.Control

open Segments SerialNumbers GuardedRuns Except

inductive BlockOp where
  | openPassive (iss : Value) (wnd : Size)
  | send (seg : Segment)
  | recv (seg : Segment)
  | close
  | abort
  | queueRST (seq : Value)
  | setRecvWindow (wnd : Size)
  | retransmitFrom (seq : Value)
deriving DecidableEq, Repr

namespace ControlBlock

def blockStep (tcb : ControlBlock) : BlockOp → Except Panic ControlBlock
  | .openPassive iss wnd => .ok (tcb.openPassive iss wnd).1
  | .send seg => .ok (tcb.send seg).1
  | .recv seg =>
    match tcb.recv seg with
    | .error p => .error p
    | .ok (tcb', _) => .ok tcb'
  | .close => .ok tcb.close.1
  | .abort => .ok tcb.abort
  | .queueRST seq => .ok (tcb.queueRST seq)
  | .setRecvWindow wnd => .ok (tcb.setRecvWindow wnd)
  | .retransmitFrom seq => .ok (tcb.retransmitFrom seq).1

/-- A SYN, or a RST off the next sequence number, that is challenged without regard to
the limit. -/
def UncheckedChallenge (tcb : ControlBlock) (seg : Segment) : Prop :=
  tcb.incomingError seg = none ∧ tcb.state.isPreestablished = false ∧
    (Flags.hasAny seg.flags flagSYN = true ∨
      (Flags.hasAny seg.flags flagRST = true ∧ seg.seq ≠ tcb.rcv.nxt))

/-- No such segment arrives at a counter of 127. -/
def CounterRoom (tcb : ControlBlock) : BlockOp → Prop
  | .recv seg => tcb.challengeAcks.toInt = 127 → ¬ tcb.UncheckedChallenge seg
  | _ => True

instance (tcb : ControlBlock) (seg : Segment) : Decidable (tcb.UncheckedChallenge seg) := by
  unfold UncheckedChallenge
  infer_instance

instance (tcb : ControlBlock) (op : BlockOp) : Decidable (tcb.CounterRoom op) := by
  cases op <;> unfold CounterRoom <;> infer_instance

section
variable (tcb : ControlBlock)
include tcb

theorem challengeAcks_emit : tcb.triggerChallengeAckEmit.challengeAcks.toInt =
      if 0 ≤ tcb.challengeAcks.toInt then -tcb.challengeAcks.toInt - 1
      else tcb.challengeAcks.toInt := by
  unfold triggerChallengeAckEmit
  have hexact : ∀ c : BitVec 8, 0 ≤ c.toInt → (-c - 1).toInt = -c.toInt - 1 := by decide
  split_ifs with h
  · exact hexact _ h
  · rfl

theorem challengeAcks_sent (h : -127 ≤ tcb.challengeAcks.toInt) :
    tcb.triggerChallengeAckSent.challengeAcks.toInt = tcb.challengeAcks.toInt.natAbs := by
  unfold triggerChallengeAckSent
  have hexact : ∀ c : BitVec 8, -127 ≤ c.toInt → c.toInt < 0 →
      (-c).toInt = c.toInt.natAbs := by decide
  split_ifs with hneg
  · exact hexact _ h hneg
  · omega

theorem challengeAcks_sent_least (h : tcb.challengeAcks.toInt = -128) :
    tcb.triggerChallengeAckSent.challengeAcks.toInt = -128 := by
  unfold triggerChallengeAckSent
  have hexact : ∀ c : BitVec 8, c.toInt = -128 → (-c).toInt = -128 := by decide
  rw [if_pos (by omega)]
  exact hexact _ h

theorem challengeAcks_acceptSegment (seg : Segment) (pending : Flags) :
    (tcb.acceptSegment seg pending).challengeAcks = 0 := by
  obtain ⟨_, _, _, _, _, -, -, -, heq⟩ := acceptSegment_eq tcb seg pending
  rw [heq]

theorem challengeAcks_sendState (seg : Segment) :
    (tcb.sendState seg).challengeAcks = tcb.challengeAcks ∨
      (tcb.sendState seg).challengeAcks = 0 := by
  by_cases hc : tcb.state = .closed
  · unfold sendState
    simp only [hc]
    split_ifs
    · exact .inr rfl
    · exact .inl rfl
  · rw [sendState_eq tcb seg hc]
    exact .inl rfl

/-- Send touches the counter only to clear a pending challenge. -/
theorem challengeAcks_commitSend (seg : Segment) : (tcb.commitSend seg).challengeAcks =
      if (tcb.sendState seg).pendingChallengeAck && Flags.hasAny seg.flags flagACK then
        (tcb.sendState seg).triggerChallengeAckSent.challengeAcks
      else (tcb.sendState seg).challengeAcks := by
  have hpend : ((tcb.sendState seg).advancePending seg.flags).challengeAcks =
      (tcb.sendState seg).challengeAcks := by
    simp only [advancePending]
    split_ifs <;> rfl
  have hsent : ∀ t t' : ControlBlock, t.challengeAcks = t'.challengeAcks →
      t.triggerChallengeAckSent.challengeAcks = t'.triggerChallengeAckSent.challengeAcks := by
    intro t t' heq
    simp only [triggerChallengeAckSent, heq]
    split_ifs <;> simp_all
  have hflag : ((tcb.sendState seg).advancePending seg.flags).pendingChallengeAck =
      (tcb.sendState seg).pendingChallengeAck := by
    simp only [pendingChallengeAck, hpend]
  have hnxt : ∀ t : ControlBlock, ((t.advanceNxt seg).setRecvWindow seg.wnd).challengeAcks =
      t.challengeAcks := by
    intro t
    simp only [advanceNxt, setRecvWindow]
    split_ifs <;> rfl
  simp only [commitSend, hnxt, hflag]
  split_ifs
  · exact hsent _ _ hpend
  · exact hpend

/-- After a Send with ACK a challenge is pending exactly when the counter sits at
its least value. -/
theorem pendingChallengeAck_send_iff (seg : Segment)
    (hok : (tcb.send seg).2 = none) (hack : Flags.hasAny seg.flags flagACK) :
    (tcb.send seg).1.pendingChallengeAck ↔ (tcb.sendState seg).challengeAcks.toInt = -128 := by
  have hsend := (send_ok hok).2
  obtain ⟨c, hc⟩ : ∃ c, (tcb.sendState seg).challengeAcks = c := ⟨_, rfl⟩
  rw [hsend, pendingChallengeAck, challengeAcks_commitSend, hack, Bool.and_true, hc,
    pendingChallengeAck, hc, decide_eq_true_eq]
  have hleast := challengeAcks_sent_least (tcb.sendState seg)
  have hother := challengeAcks_sent (tcb.sendState seg)
  rw [hc] at hleast hother
  have hrange : ∀ c : BitVec 8, -128 ≤ c.toInt := by decide
  have hlow := hrange c
  split_ifs with hneg
  · by_cases hm : c.toInt = -128
    · omega
    · omega
  · rw [decide_eq_true_eq] at hneg
    omega

theorem challengeAcks_openPassive (iss : Value) (wnd : Size) :
    (tcb.openPassive iss wnd).1.challengeAcks = tcb.challengeAcks ∨
      (tcb.openPassive iss wnd).1.challengeAcks = 0 := by
  unfold openPassive
  split_ifs <;> simp [prepareToHandshake, resetSnd, resetRcv, reset]

theorem challengeAcks_close :
    tcb.close.1.challengeAcks = tcb.challengeAcks ∨ tcb.close.1.challengeAcks = 0 := by
  unfold close
  cases tcb.state <;> simp [abort, reset]

end

theorem challengeAcks_recv {tcb tcb' : ControlBlock} {seg : Segment} {err : Option Err}
    (hroom : tcb.challengeAcks.toInt = 127 → ¬ tcb.UncheckedChallenge seg)
    (hlow : -127 ≤ tcb.challengeAcks.toInt) (h : tcb.recv seg = .ok (tcb', err)) :
    -127 ≤ tcb'.challengeAcks.toInt := by
  have hemit := challengeAcks_emit tcb
  have hrange : ∀ c : BitVec 8, c.toInt ≤ 127 := by decide
  have hhigh := hrange tcb.challengeAcks
  cases recv_outcome h with
  | accepted hacc => rw [challengeAcks_acceptSegment]; decide
  | ignored | ackDrop | preReset | relisten => exact hlow
  | challenge err hch hfew =>
    have hfew' : tcb.challengeAcks.toInt ≤ 8 := by
      unfold tooManyChallengeAcks maxChallengeRejects at hfew
      split_ifs at hfew <;> simp at hfew <;> omega
    rw [hemit]
    split_ifs <;> omega
  | limit | rstAbort => simp [abort, reset]
  | synChallenge hsyn hst hacc =>
    have hne : tcb.challengeAcks.toInt ≠ 127 := fun heq => hroom heq ⟨hacc, hst, .inl hsyn⟩
    simp only [hemit]
    split_ifs <;> omega
  | rstChallenge hrst hseq hst hacc =>
    have hne : tcb.challengeAcks.toInt ≠ 127 := fun heq => hroom heq ⟨hacc, hst, .inr ⟨hrst, hseq⟩⟩
    simp only [hemit]
    split_ifs <;> omega

theorem challengeAcks_send {tcb : ControlBlock} (seg : Segment)
    (hlow : -127 ≤ tcb.challengeAcks.toInt) : -127 ≤ (tcb.send seg).1.challengeAcks.toInt := by
  unfold send
  cases tcb.validateOutgoingSegment seg with
  | some err => exact hlow
  | none =>
  have hst : -127 ≤ (tcb.sendState seg).challengeAcks.toInt := by
    rcases challengeAcks_sendState tcb seg with h | h
    · rw [h]
      exact hlow
    · rw [h]
      decide
  simp only [challengeAcks_commitSend]
  split_ifs
  · rw [challengeAcks_sent _ hst]
    omega
  · exact hst

theorem challengeAcks_step {tcb tcb' : ControlBlock} {op : BlockOp}
    (hlow : -127 ≤ tcb.challengeAcks.toInt) (hroom : tcb.CounterRoom op)
    (h : tcb.blockStep op = .ok tcb') : -127 ≤ tcb'.challengeAcks.toInt := by
  have hzero : -127 ≤ (0 : BitVec 8).toInt := by decide
  cases op with
  | openPassive iss wnd =>
    obtain rfl := ok.inj h
    rcases challengeAcks_openPassive tcb iss wnd with heq | heq <;> rw [heq] <;> assumption
  | send seg =>
    obtain rfl := ok.inj h
    exact challengeAcks_send seg hlow
  | recv seg =>
    simp only [blockStep] at h
    cases hrecv : tcb.recv seg with
    | error p =>
      rw [hrecv] at h
      cases h
    | ok r =>
    rw [hrecv] at h
    obtain rfl := ok.inj h
    exact challengeAcks_recv hroom hlow hrecv
  | close =>
    obtain rfl := ok.inj h
    rcases challengeAcks_close tcb with heq | heq <;> rw [heq] <;> assumption
  | abort =>
    obtain rfl := ok.inj h
    exact hzero
  | queueRST | setRecvWindow =>
    obtain rfl := ok.inj h
    exact hlow
  | retransmitFrom seq =>
  obtain rfl := ok.inj h
  unfold retransmitFrom
  split_ifs <;> exact hlow

/-- As long as no SYN or inexact RST is challenged at a counter of 127, the counter can
be negated, and a Send with ACK leaves no challenge pending. -/
theorem challenge_counter_sound (ops : List BlockOp)
    (hroom : Guarded blockStep CounterRoom {} ops) (tcb : ControlBlock)
    (hrun : exec blockStep {} ops = .ok tcb) :
    -127 ≤ tcb.challengeAcks.toInt ∧ tcb.challengeAcks.toInt ≤ 127 ∧
      ∀ seg, (tcb.send seg).2 = none → Flags.hasAny seg.flags flagACK = true →
        (tcb.send seg).1.pendingChallengeAck = false := by
  have hlow : -127 ≤ tcb.challengeAcks.toInt := by
    refine exec_invariant (I := fun t : ControlBlock => -127 ≤ t.challengeAcks.toInt) ?_ ops {} tcb
      (by decide) hroom hrun
    intro s e s' hs hg hstep
    exact challengeAcks_step hs hg hstep
  have hrange : ∀ c : BitVec 8, c.toInt ≤ 127 := by decide
  refine ⟨hlow, hrange _, ?_⟩
  intro seg hok hack
  have hiff := pendingChallengeAck_send_iff tcb seg hok hack
  have hne : (tcb.sendState seg).challengeAcks.toInt ≠ -128 := by
    rcases challengeAcks_sendState tcb seg with h | h
    · rw [h]
      omega
    · rw [h]
      decide
  cases hp : (tcb.send seg).1.pendingChallengeAck with
  | false => rfl
  | true => exact absurd (hiff.mp hp) hne

def establishedOps : List BlockOp :=
  [.openPassive 100 1000, .recv { seq := 300, wnd := 1000, flags := flagSYN },
    .send { seq := 100, ack := 301, wnd := 1000, flags := synack },
    .recv { seq := 301, ack := 101, wnd := 1000, flags := flagACK }]

def synRound : List BlockOp :=
  [.recv { seq := 301, wnd := 1000, flags := flagSYN },
    .send { seq := 101, ack := 301, wnd := 1000, flags := flagACK }]

theorem challenge_counter_sound_twice :
    ∃ tcb, exec blockStep {} (establishedOps ++ synRound ++ synRound) = .ok tcb ∧
      -127 ≤ tcb.challengeAcks.toInt ∧ tcb.challengeAcks.toInt ≤ 127 ∧
      ∀ seg, (tcb.send seg).2 = none → Flags.hasAny seg.flags flagACK = true →
        (tcb.send seg).1.pendingChallengeAck = false :=
  ⟨_, rfl, challenge_counter_sound (establishedOps ++ synRound ++ synRound) (by decide) _ rfl⟩

/-- 128 answered SYNs drive the counter to its least value; the last Send carries an ACK
and leaves the challenge pending. -/
theorem challenge_counter_overflows :
    ∃ tcb, exec blockStep {} (establishedOps ++ (List.replicate 127 synRound).flatten ++
        [.recv { seq := 301, wnd := 1000, flags := flagSYN }]) = .ok tcb ∧
      (tcb.send { seq := 101, ack := 301, wnd := 1000, flags := flagACK }).2 = none ∧
      (tcb.send { seq := 101, ack := 301, wnd := 1000, flags := flagACK }).1.challengeAcks.toInt =
        -128 ∧
      (tcb.send { seq := 101, ack := 301, wnd := 1000, flags := flagACK }).1.pendingChallengeAck =
        true := by
  have hrun : (exec blockStep {} (establishedOps ++ (List.replicate 127 synRound).flatten ++
      [.recv { seq := 301, wnd := 1000, flags := flagSYN }])) = .ok
        { snd := { iss := 100, una := 101, nxt := 101, wnd := 1000, wl1 := 301, wl2 := 101 }
          rcv := { irs := 300, nxt := 301, wnd := 1000 }
          pending0 := flagACK
          state := .established
          challengeAcks := 128 } := by decide +kernel
  exact ⟨_, hrun, by decide, by decide, by decide⟩

/-- The state diagram. Every state can be left for CLOSED as well. -/
def successors : State → List State
  | .closed => [.listen, .synSent]
  | .listen => [.synRcvd]
  | .synSent => [.synRcvd, .established]
  | .synRcvd => [.listen, .established, .finWait1]
  | .established => [.finWait1, .closeWait]
  | .finWait1 => [.finWait2, .closing, .timeWait]
  | .finWait2 | .closing => [.timeWait]
  | .closeWait => [.lastAck]
  | .lastAck => []
  | .timeWait => [.listen]

/-- Each call follows the diagram or keeps the state; it panics in TIME-WAIT only. -/
theorem calls_follow_diagram (tcb : ControlBlock) (op : BlockOp) : match tcb.blockStep op with
    | .ok tcb' => tcb'.state ∈ .closed :: tcb.state :: successors tcb.state
    | .error _ => tcb.state = .timeWait := by
  have hstay : tcb.state ∈ .closed :: tcb.state :: successors tcb.state := by simp
  cases op with
  | openPassive =>
    simp only [blockStep, openPassive]
    split_ifs with hst
    · exact hstay
    · exact hstay
    · cases h : tcb.state <;> simp_all [successors, prepareToHandshake]
  | send seg =>
    simp only [blockStep, send]
    cases hval : tcb.validateOutgoingSegment seg with
    | some err => exact hstay
    | none =>
    by_cases hc : tcb.state = .closed
    · simp [commitSend_closed tcb seg hc hval, hc, successors]
    obtain ⟨_, _, _, _, heq, -⟩ := commitSend_eq tcb seg hc
    rw [heq]
    cases tcb.state <;> simp only [sentState] <;> (try split_ifs) <;> simp [successors]
  | recv seg =>
    simp only [blockStep]
    cases hrecv : tcb.recv seg with
    | error p => exact ((recv_error_iff tcb seg).mp ⟨p, hrecv⟩).1
    | ok r =>
    obtain ⟨tcb', err⟩ := r
    obtain ⟨c, hemit⟩ := tcb.triggerChallengeAckEmit_eq
    cases recv_outcome hrecv with
    | accepted hacc =>
      simp only [acceptSegment_state]
      cases rcvState_handled hacc.handled with
      | moved hmove => cases hmove <;> simp_all [successors]
      | _ => simp_all [successors, abort, reset]
    | relisten _ hst => simp [hst, successors, resetRcv, resetSnd]
    | _ => simp [hemit, abort, reset, resetSnd]
  | close =>
    simp only [blockStep, close]
    cases h : tcb.state <;> simp [h, successors, abort, reset]
  | abort => exact List.mem_cons_self
  | queueRST | setRecvWindow => exact hstay
  | retransmitFrom =>
    simp only [blockStep, retransmitFrom]
    split_ifs <;> exact hstay

end ControlBlock

end Lneto.Control
