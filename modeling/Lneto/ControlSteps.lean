import Lneto.Control

/-!
What one call does to the control block, said once per method. Recv has ten
outcomes; nine of them reject the segment, and only the acceptance touches
the receive sequence space or moves the acknowledged send sequence.
-/
namespace Lneto.Control

open Segments SerialNumbers Flags

variable {tcb : ControlBlock} {seg : Segment} {pending : Flags}

namespace ControlBlock

/-- The segment passed validation and its state's handler took it. -/
structure Accepts (tcb : ControlBlock) (seg : Segment) (mid : ControlBlock) (pending : Flags) :
    Prop where
  acceptable : tcb.incomingError seg = none
  notRST : Flags.hasAny seg.flags flagRST = false
  kept : tcb.dropCheck seg = (tcb, none)
  syn : Flags.hasAny seg.flags flagSYN = true → tcb.state.isPreestablished = true
  handled : tcb.rcvState seg = .ok (mid, pending, none)

/-- A segment that the acceptability switch rejects with a challenge. -/
def Challenged (tcb : ControlBlock) (seg : Segment) : Prop :=
  ∃ err, tcb.incomingError seg = some err ∧ challenged err = true ∧
    Flags.hasAny seg.flags flagRST = false

inductive Recvd (tcb : ControlBlock) (seg : Segment) : ControlBlock → Option Err → Prop where
  | accepted {mid : ControlBlock} {pending : Flags} (h : tcb.Accepts seg mid pending) :
      Recvd tcb seg (mid.acceptSegment seg pending) none
  | ignored (err : Err) : Recvd tcb seg tcb (some err)
  | challenge (err : Err) (h : tcb.Challenged seg) (hfew : tcb.tooManyChallengeAcks = false) :
      Recvd tcb seg tcb.triggerChallengeAckEmit (some err)
  | limit (h : tcb.Challenged seg) (hmany : tcb.tooManyChallengeAcks = true) :
      Recvd tcb seg tcb.abort (some .netClosed)
  | synChallenge (hsyn : Flags.hasAny seg.flags flagSYN = true)
      (hstate : tcb.state.isPreestablished = false) (hacc : tcb.incomingError seg = none) :
      Recvd tcb seg { tcb.triggerChallengeAckEmit with
        pending0 := tcb.pending0 ||| flagACK } (some .drop)
  | rstChallenge (hrst : Flags.hasAny seg.flags flagRST = true) (hseq : seg.seq ≠ tcb.rcv.nxt)
      (hstate : tcb.state.isPreestablished = false) (hacc : tcb.incomingError seg = none) :
      Recvd tcb seg { tcb.triggerChallengeAckEmit with
        pending0 := tcb.pending0 ||| flagACK } (some .drop)
  | rstAbort (hrst : Flags.hasAny seg.flags flagRST = true) :
      Recvd tcb seg tcb.abort (some .netClosed)
  | ackDrop (hest : tcb.state = .established) (hack : tcb.acksUnsentData seg = true) :
      Recvd tcb seg { tcb with pending0 := tcb.pending0 ||| flagACK } (some .drop)
  | preReset (hstate : tcb.state.isPreestablished = true) (hacc : tcb.incomingError seg = none)
      (hdrop : (tcb.dropCheck seg).2 ≠ none) :
      Recvd tcb seg ({ tcb with pending0 := flagRST, rstPtr := seg.ack }.resetSnd tcb.snd.iss
        seg.wnd) (some .drop)
  | relisten (hrst : Flags.hasAny seg.flags flagRST = true) (hstate : tcb.state = .synRcvd) :
      Recvd tcb seg (({ tcb with pending0 := 0, state := .listen }.resetSnd
        (tcb.snd.iss + rstJump) tcb.snd.wnd).resetRcv tcb.rcv.wnd
          (3141592653#32 ^^^ tcb.rcv.irs)) (some .drop)

section
variable (tcb)

theorem dropCheck_outcome (seg : Segment) : tcb.dropCheck seg = (tcb, none) ∨
    (tcb.state = .established ∧ tcb.acksUnsentData seg ∧
      tcb.dropCheck seg = ({ tcb with pending0 := tcb.pending0 ||| flagACK }, some .drop)) ∨
    (tcb.state.isPreestablished ∧
      tcb.dropCheck seg = ({ tcb with pending0 := flagRST, rstPtr := seg.ack }.resetSnd
        tcb.snd.iss seg.wnd, some .drop)) := by
  unfold dropCheck
  simp only []
  split_ifs with h1 h2 h3
  · exact .inl rfl
  · rw [Bool.and_eq_true, beq_iff_eq] at h2
    exact .inr (.inl ⟨h2.1, h2.2, rfl⟩)
  · rw [Bool.and_eq_true] at h3
    exact .inr (.inr ⟨h3.1, rfl⟩)
  · exact .inl rfl

theorem triggerChallengeAckEmit_eq :
    ∃ c, tcb.triggerChallengeAckEmit = { tcb with challengeAcks := c } := by
  unfold triggerChallengeAckEmit
  split_ifs
  all_goals exact ⟨_, rfl⟩

theorem triggerChallengeAckEmit_pending0 : tcb.triggerChallengeAckEmit.pending0 = tcb.pending0 := by
  obtain ⟨c, hc⟩ := triggerChallengeAckEmit_eq tcb
  rw [hc]

theorem handleRST_outcome (seg : Segment)
    (hrst : hasAny seg.flags flagRST) (hacc : tcb.incomingError seg = none) :
    Recvd tcb seg (tcb.handleRST seg.seq).1 (tcb.handleRST seg.seq).2 ∧
      (tcb.handleRST seg.seq).2 ≠ none := by
  cases hst : tcb.state with
  | synSent =>
    simp only [handleRST, hst]
    exact ⟨.rstAbort hrst, by simp⟩
  | listen =>
    simp only [handleRST, hst]
    exact ⟨.ignored _, by simp⟩
  | synRcvd =>
    simp only [handleRST, hst]
    exact ⟨.relisten hrst hst, by simp⟩
  | _ =>
  simp only [handleRST, hst]
  split_ifs with hseq
  · simp only [triggerChallengeAckEmit_pending0]
    exact ⟨.rstChallenge hrst hseq (by rw [hst]; rfl) hacc, by simp⟩
  · exact ⟨.rstAbort hrst, by simp⟩

theorem rcvState_error_iff (seg : Segment) :
    (∃ p, tcb.rcvState seg = .error p) ↔ tcb.state = .closed ∨ tcb.state = .timeWait := by
  cases hst : tcb.state <;> simp [rcvState, hst]

/-- A state handler that reports an error leaves the block alone. -/
theorem rcvState_outcome (seg : Segment) {mid : ControlBlock} {err : Err}
    (h : tcb.rcvState seg = .ok (mid, pending, some err)) : mid = tcb := by
  unfold rcvState at h
  cases hst : tcb.state <;> simp only [hst, Except.ok.injEq, reduceCtorEq] at h
  case listen =>
    unfold rcvListen at h
    split_ifs at h <;> simp_all
  case synSent =>
    simp only [rcvSynSent] at h
    split_ifs at h <;> simp_all
  case synRcvd =>
    unfold rcvSynRcvd at h
    split_ifs at h <;> simp_all
  case established =>
    simp only [rcvEstablished] at h
    split_ifs at h <;> simp_all
  case finWait1 =>
    simp only [rcvFinWait1] at h
    split_ifs at h <;> simp_all
  case finWait2 =>
    unfold rcvFinWait2 at h
    split_ifs at h <;> simp_all
  all_goals simp at h

theorem validate_outcome (seg : Segment) : (∃ err, (tcb.validateIncomingSegment seg).2 = some err ∧
      Recvd tcb seg (tcb.validateIncomingSegment seg).1 (some err)) ∨
    (tcb.validateIncomingSegment seg = (tcb, none) ∧ tcb.incomingError seg = none ∧
      hasAny seg.flags flagRST = false ∧ tcb.dropCheck seg = (tcb, none)) := by
  unfold validateIncomingSegment
  cases herr : tcb.incomingError seg with
  | some err =>
    left
    simp only []
    by_cases hch : (challenged err && !hasAny seg.flags flagRST)
    · rw [if_pos hch]
      rw [Bool.and_eq_true, Bool.not_eq_true'] at hch
      have hwhy : tcb.Challenged seg := ⟨err, herr, hch.1, hch.2⟩
      cases hmany : tcb.tooManyChallengeAcks with
      | true => exact ⟨.netClosed, rfl, .limit hwhy hmany⟩
      | false => exact ⟨err, rfl, .challenge err hwhy hmany⟩
    · rw [if_neg hch]
      exact ⟨err, rfl, .ignored err⟩
  | none =>
  simp only []
  by_cases hrst : hasAny seg.flags flagRST
  · rw [if_pos hrst]
    left
    obtain ⟨hout, hne⟩ := handleRST_outcome tcb seg hrst herr
    obtain ⟨err, he⟩ := Option.ne_none_iff_exists'.mp hne
    rw [he] at hout
    exact ⟨err, he, hout⟩
  rw [if_neg hrst]
  rcases dropCheck_outcome tcb seg with hd | ⟨hest, hack, hd⟩ | ⟨hpre, hd⟩
  · right
    exact ⟨hd, trivial, by simpa using hrst, hd⟩
  · left
    rw [hd]
    exact ⟨.drop, rfl, .ackDrop hest hack⟩
  left
  have hdrop : (tcb.dropCheck seg).2 ≠ none := by simp [hd]
  rw [hd]
  exact ⟨.drop, rfl, .preReset hpre herr hdrop⟩

end

theorem recv_outcome {tcb' : ControlBlock} {err : Option Err} (h : tcb.recv seg = .ok (tcb', err)) :
    Recvd tcb seg tcb' err := by
  rcases validate_outcome tcb seg with ⟨err', herr, hout⟩ | ⟨hval, hacc, hrst, hd⟩
  · obtain ⟨mid, hmid⟩ : ∃ mid, tcb.validateIncomingSegment seg = (mid, some err') :=
      ⟨_, Prod.ext rfl herr⟩
    rw [hmid] at hout
    rw [recv, hmid] at h
    obtain ⟨rfl, rfl⟩ := Prod.mk.inj (Except.ok.inj h)
    exact hout
  rw [recv, hval] at h
  simp only [] at h
  by_cases hsyn : (hasAny seg.flags flagSYN && !tcb.state.isPreestablished)
  · rw [if_pos hsyn] at h
    obtain ⟨rfl, rfl⟩ := Prod.mk.inj (Except.ok.inj h)
    rw [Bool.and_eq_true, Bool.not_eq_true'] at hsyn
    rw [triggerChallengeAckEmit_pending0]
    exact .synChallenge hsyn.1 hsyn.2 hacc
  rw [if_neg hsyn] at h
  cases hrcv : tcb.rcvState seg with
  | error p =>
    rw [hrcv] at h
    cases h
  | ok r =>
  obtain ⟨mid, pending, herr⟩ := r
  rw [hrcv] at h
  cases herr with
  | some e =>
    obtain ⟨rfl, rfl⟩ := Prod.mk.inj (Except.ok.inj h)
    rw [rcvState_outcome tcb seg hrcv]
    exact .ignored e
  | none =>
  obtain ⟨rfl, rfl⟩ := Prod.mk.inj (Except.ok.inj h)
  refine .accepted ⟨hacc, hrst, hd, ?_, hrcv⟩
  intro hs
  cases hp : tcb.state.isPreestablished with
  | true => rfl
  | false => exact absurd (by rw [hs, hp]; rfl) hsyn

theorem recv_accepted {tcb' : ControlBlock} (h : tcb.recv seg = .ok (tcb', none)) :
    ∃ mid pending, tcb.Accepts seg mid pending ∧ tcb' = mid.acceptSegment seg pending := by
  have hout := recv_outcome h
  generalize hnone : (none : Option Err) = err at hout
  cases hout with
  | @accepted mid pending hacc => exact ⟨mid, pending, hacc, rfl⟩
  | _ => cases hnone

theorem incomingError_closed (tcb : ControlBlock) (seg : Segment) (h : tcb.state = .closed) :
    tcb.incomingError seg ≠ none := by
  unfold incomingError
  simp only [h, if_true]
  split_ifs <;> simp

theorem recv_closed (h : tcb.state = .closed) (seg : Segment) :
    ∃ err, tcb.recv seg = .ok (tcb, some err) := by
  have herr : ∃ err, tcb.incomingError seg = some err ∧ challenged err = false := by
    unfold incomingError
    by_cases hwnd : maxWindow < seg.wnd
    · exact ⟨_, if_pos hwnd, rfl⟩
    · exact ⟨_, by rw [if_neg hwnd, if_pos h], rfl⟩
  obtain ⟨err, herr, hch⟩ := herr
  refine ⟨err, ?_⟩
  simp only [recv, validateIncomingSegment, herr, hch]
  rfl

/-- Acceptable segments announce a window that window scaling can express. -/
theorem incomingError_window (h : tcb.incomingError seg = none) : seg.wnd ≤ maxWindow := by
  unfold incomingError at h
  by_cases hw : maxWindow < seg.wnd
  · rw [if_pos hw] at h
    cases h
  · bv_omega

/-- Recv stops the program exactly on an acceptable segment in TIME-WAIT that
carries neither RST nor SYN. -/
theorem recv_error_iff (tcb : ControlBlock) (seg : Segment) :
    (∃ p, tcb.recv seg = .error p) ↔ tcb.state = .timeWait ∧ tcb.incomingError seg = none ∧
      hasAny seg.flags flagRST = false ∧ hasAny seg.flags flagSYN = false := by
  rcases validate_outcome tcb seg with ⟨err', herr, -⟩ | ⟨hval, hacc, hrst, -⟩
  · obtain ⟨mid, hmid⟩ : ∃ mid, tcb.validateIncomingSegment seg = (mid, some err') :=
      ⟨_, Prod.ext rfl herr⟩
    have hok : tcb.recv seg = .ok (mid, some err') := by rw [recv, hmid]
    constructor
    · rintro ⟨p, hp⟩
      rw [hok] at hp
      cases hp
    rintro ⟨hst, hacc, hrst, -⟩
    have hdrop : tcb.validateIncomingSegment seg = (tcb, none) := by
      simp [validateIncomingSegment, hacc, hrst, dropCheck, hst, State.isPreestablished]
    rw [hdrop] at hmid
    cases hmid
  have hclosed : tcb.state ≠ .closed := fun hc => incomingError_closed tcb seg hc hacc
  have hswitch : (∃ p, tcb.recv seg = .error p) ↔
      (hasAny seg.flags flagSYN && !tcb.state.isPreestablished) = false ∧
        ∃ p, tcb.rcvState seg = .error p := by
    rw [recv, hval]
    simp only []
    cases hsyn : (hasAny seg.flags flagSYN && !tcb.state.isPreestablished) with
    | true => simp
    | false =>
    cases hrcv : tcb.rcvState seg with
    | error p => simp
    | ok r =>
      obtain ⟨mid, pending, err⟩ := r
      cases err <;> simp
  rw [hswitch, rcvState_error_iff]
  constructor
  · rintro ⟨hsyn, hc | htw⟩
    · exact absurd hc hclosed
    · rw [htw] at hsyn
      exact ⟨htw, hacc, hrst, by simpa [State.isPreestablished] using hsyn⟩
  · rintro ⟨htw, -, -, hsyn⟩
    exact ⟨by rw [hsyn, Bool.false_and], .inr htw⟩

inductive Moves (tcb : ControlBlock) (seg : Segment) : State → Prop where
  | stay (h : tcb.state.isSynchronized = true) : Moves tcb seg tcb.state
  | peerFin (h : tcb.state = .established) (hfin : Flags.hasAny seg.flags flagFIN = true) :
      Moves tcb seg .closeWait
  | bothFins (h : tcb.state = .finWait1) (hfin : Flags.hasAny seg.flags flagFIN = true)
      (hack : Flags.hasAny seg.flags flagACK = true) (hnum : seg.ack = tcb.snd.nxt) :
      Moves tcb seg .timeWait
  | simultaneousFin (h : tcb.state = .finWait1) (hfin : Flags.hasAny seg.flags flagFIN = true) :
      Moves tcb seg .closing
  | ownFinAcked (h : tcb.state = .finWait1) (hack : Flags.hasAny seg.flags flagACK = true)
      (hnum : seg.ack = tcb.snd.nxt) : Moves tcb seg .finWait2
  | peerFinLast (h : tcb.state = .finWait2) (hfin : Flags.hasAny seg.flags flagFIN = true) :
      Moves tcb seg .timeWait
  | closingAcked (h : tcb.state = .closing) (hack : Flags.hasAny seg.flags flagACK = true) :
      Moves tcb seg .timeWait

/-- The block and the flags to queue, per handler that takes the segment. -/
inductive Handled (tcb : ControlBlock) (seg : Segment) : ControlBlock → Flags → Prop where
  | listenSyn (h : tcb.state = .listen) :
      Handled tcb seg { ((tcb.resetSnd tcb.snd.iss seg.wnd).resetRcv tcb.rcv.wnd seg.seq) with
        pending0 := synack, state := .synRcvd } synack
  | synAcked (h : tcb.state = .synSent) (hsyn : Flags.hasAny seg.flags flagSYN = true)
      (hack : Flags.hasAny seg.flags flagACK = true) (hnum : seg.ack = tcb.snd.una + 1) :
      Handled tcb seg { tcb.resetRcv tcb.rcv.wnd seg.seq with state := .established } flagACK
  | simultaneousOpen (h : tcb.state = .synSent) (hsyn : Flags.hasAny seg.flags flagSYN = true)
      (hack : Flags.hasAny seg.flags flagACK = false) :
      Handled tcb seg { ((tcb.resetSnd tcb.snd.iss seg.wnd).resetRcv tcb.rcv.wnd seg.seq) with
        state := .synRcvd } synack
  | opened (h : tcb.state = .synRcvd) (hack : Flags.hasAll seg.flags flagACK = true)
      (hnum : seg.ack = tcb.snd.una + 1) :
      Handled tcb seg { tcb with state := .established } 0
  | moved {st : State} {pending : Flags} (h : Moves tcb seg st)
      (hpending : pending = 0 ∨ pending = flagACK) :
      Handled tcb seg { tcb with state := st } pending
  | finished (h : tcb.state = .lastAck) (hack : Flags.hasAny seg.flags flagACK = true) :
      Handled tcb seg tcb.abort 0

open Handled

theorem Handled.stay (h : tcb.state.isSynchronized) (hpending : pending = 0 ∨ pending = flagACK) :
    Handled tcb seg tcb pending := moved (.stay h) hpending

theorem rcvState_handled {mid : ControlBlock} (h : tcb.rcvState seg = .ok (mid, pending, none)) :
    Handled tcb seg mid pending := by
  unfold rcvState at h
  cases hst : tcb.state <;> simp only [hst, Except.ok.injEq, reduceCtorEq] at h
  case listen =>
    unfold rcvListen at h
    split_ifs at h with hsyn
    · simp at h
    obtain ⟨rfl, rfl, -⟩ := h
    exact .listenSyn hst
  case synSent =>
    simp only [rcvSynSent] at h
    split_ifs at h with hsyn hnum hack <;> simp only [Prod.mk.injEq, reduceCtorEq, and_false] at h
    · obtain ⟨rfl, rfl, -⟩ := h
      rw [hack] at hnum
      exact .synAcked hst (by simpa using hsyn) hack (by simpa using hnum)
    · obtain ⟨rfl, rfl, -⟩ := h
      exact .simultaneousOpen hst (by simpa using hsyn) (by simpa using hack)
  case synRcvd =>
    unfold rcvSynRcvd at h
    split_ifs at h with hack hnum <;> simp only [Prod.mk.injEq, reduceCtorEq, and_false] at h
    obtain ⟨rfl, rfl, -⟩ := h
    exact .opened hst (by simpa using hack) (by simpa using hnum)
  case established =>
    have hsync : tcb.state.isSynchronized := by rw [hst]; rfl
    simp only [rcvEstablished] at h
    split_ifs at h with hdata hfin <;> simp only [Prod.mk.injEq] at h <;> obtain ⟨rfl, rfl, -⟩ := h
    · exact .moved (.peerFin hst hfin) (.inr rfl)
    · exact stay hsync (.inr rfl)
    · exact stay hsync (.inl rfl)
  case finWait1 =>
    have hsync : tcb.state.isSynchronized := by rw [hst]; rfl
    simp only [rcvFinWait1] at h
    obtain ⟨queued, hqueued⟩ : ∃ queued, (if 0 < seg.datalen ∨ hasAny seg.flags flagFIN
        then flagACK else 0) = queued := ⟨_, rfl⟩
    have hp : queued = 0 ∨ queued = flagACK := by
      rw [← hqueued]
      split_ifs <;> simp
    rw [hqueued] at h
    split_ifs at h with hboth hfin hacked hack <;>
      simp only [Prod.mk.injEq, reduceCtorEq, and_false] at h <;> obtain ⟨rfl, rfl, -⟩ := h
    · simp only [Bool.and_eq_true, beq_iff_eq] at hboth
      exact .moved (.bothFins hst hboth.1.1 hboth.1.2 hboth.2) hp
    · exact .moved (.simultaneousFin hst hfin) hp
    · rw [Bool.and_eq_true, beq_iff_eq] at hacked
      exact .moved (.ownFinAcked hst hacked.1 hacked.2) hp
    · exact stay hsync hp
  case finWait2 =>
    have hsync : tcb.state.isSynchronized := by rw [hst]; rfl
    unfold rcvFinWait2 at h
    split_ifs at h with hfin hdata <;> simp only [Prod.mk.injEq] at h <;> obtain ⟨rfl, rfl, -⟩ := h
    · exact .moved (.peerFinLast hst hfin) (.inr rfl)
    · exact stay hsync (.inr rfl)
    · exact stay hsync (.inl rfl)
  case closing =>
    have hsync : tcb.state.isSynchronized := by rw [hst]; rfl
    obtain ⟨rfl, rfl, -⟩ := h
    split_ifs with hack
    · exact .moved (.closingAcked hst hack) (.inl rfl)
    · exact stay hsync (.inl rfl)
  case closeWait =>
    obtain ⟨rfl, rfl, -⟩ := h
    exact stay (by rw [hst]; rfl) (.inl rfl)
  case lastAck =>
    obtain ⟨rfl, rfl, -⟩ := h
    split_ifs with hack
    · exact .finished hst hack
    · exact stay (by rw [hst]; rfl) (.inl rfl)

/-- In FIN-WAIT-1 every acceptable segment without RST and SYN is handled. -/
theorem recv_finWait1 (hst : tcb.state = .finWait1) (hacc : tcb.incomingError seg = none)
    (hrst : hasAny seg.flags flagRST = false) (hsyn : hasAny seg.flags flagSYN = false) :
    tcb.recv seg = match tcb.rcvFinWait1 seg with
      | (mid, _, some err) => .ok (mid, some err)
      | (mid, pending, none) => .ok (mid.acceptSegment seg pending, none) := by
  have hval : tcb.validateIncomingSegment seg = (tcb, none) := by
    simp [validateIncomingSegment, hacc, hrst, dropCheck, hst, State.isPreestablished]
  simp only [recv, hval, hsyn, Bool.false_and, Bool.false_eq_true, if_false, rcvState, hst]
  rcases tcb.rcvFinWait1 seg with ⟨mid, pending, err | err⟩ <;> rfl

section Accepting
variable (tcb : ControlBlock) (seg : Segment) (pending : Flags)

theorem updateSendWindow_eq : ∃ wnd wl1 wl2, (wnd = tcb.snd.wnd ∨ wnd = seg.wnd) ∧
    tcb.updateSendWindow seg =
      { tcb with snd := { tcb.snd with wnd := wnd, wl1 := wl1, wl2 := wl2 } } := by
  simp only [updateSendWindow]
  split_ifs
  · exact ⟨seg.wnd, seg.seq, seg.ack, .inr rfl, rfl⟩
  · exact ⟨tcb.snd.wnd, seg.seq, seg.ack, .inl rfl, rfl⟩
  · exact ⟨tcb.snd.wnd, tcb.snd.wl1, tcb.snd.wl2, .inl rfl, rfl⟩

/-- The acknowledged sequence after a segment: its ACK when that lies past snd.UNA
and not past snd.NXT. -/
def ackedUna : Value :=
  if Flags.hasAny seg.flags flagACK = true ∧ Value.lessThanEq seg.ack tcb.snd.nxt = true ∧
      Value.lessThan tcb.snd.una seg.ack = true then seg.ack else tcb.snd.una

/-- A duplicate ACK is counted only while something is outstanding, and progress
clears the count. -/
theorem updateAck_eq : ∃ dup nrt, (dup = 0 ∨ dup = tcb.dupack ∨ tcb.snd.una ≠ tcb.snd.nxt) ∧
    (tcb.ackedUna seg ≠ tcb.snd.una → dup = 0) ∧
    tcb.updateAck seg = { tcb with
      snd := { tcb.snd with una := tcb.ackedUna seg }, dupack := dup, nRetransmit := nrt } := by
  simp only [updateAck, ackedUna]
  by_cases hack : hasAny seg.flags flagACK ∧ Value.lessThanEq seg.ack tcb.snd.nxt
  · rw [if_pos hack]
    by_cases hdup : tcb.incomingIsDupACK seg.ack ∧ tcb.state.txDataOpen ∧
        ¬ hasAny seg.flags flagctl ∧
        tcb.dupack < tcb.nRetransmit + retransmitMaxQueued + retransmitMaxQueued
    · have hd := hdup.1
      rw [incomingIsDupACK, Bool.and_eq_true, beq_iff_eq] at hd
      have hnot : ¬ Value.lessThan tcb.snd.una seg.ack := by
        rw [hd.1, lessThan_self]
        simp
      refine ⟨tcb.dupack + 1, tcb.nRetransmit, .inr (.inr ?_), ?_, ?_⟩
      · intro heq
        rw [hd.1, ← heq, lessThan_self] at hd
        simp at hd
      · rw [if_neg (fun h => hnot h.2.2)]
        intro h
        exact absurd rfl h
      · rw [if_pos hdup, if_neg (fun h => hnot h.2.2)]
    rw [if_neg hdup]
    by_cases hnew : Value.lessThan tcb.snd.una seg.ack
    · rw [if_pos hnew, if_pos ⟨hack.1, hack.2, hnew⟩]
      exact ⟨0, 0, .inl rfl, fun _ => rfl, rfl⟩
    · rw [if_neg hnew, if_neg (fun h => hnew h.2.2)]
      exact ⟨tcb.dupack, tcb.nRetransmit, .inr (.inl rfl), fun h => absurd rfl h, rfl⟩
  · rw [if_neg hack, if_neg (fun h => hack ⟨h.1, h.2.1⟩)]
    exact ⟨tcb.dupack, tcb.nRetransmit, .inr (.inl rfl), fun h => absurd rfl h, rfl⟩

theorem acceptSegment_eq : ∃ wnd wl1 wl2 dup nrt, (wnd = tcb.snd.wnd ∨ wnd = seg.wnd) ∧
    (dup = 0 ∨ dup = tcb.dupack ∨ tcb.snd.una ≠ tcb.snd.nxt) ∧
    (tcb.ackedUna seg ≠ tcb.snd.una → dup = 0) ∧
    tcb.acceptSegment seg pending = { tcb with
        snd := { tcb.snd with una := tcb.ackedUna seg, wnd := wnd, wl1 := wl1, wl2 := wl2 }
        rcv := { tcb.rcv with nxt := tcb.rcv.nxt + seg.len }
        pending0 := tcb.pending0 ||| pending
        challengeAcks := 0
        dupack := dup
        nRetransmit := nrt } := by
  obtain ⟨wnd, wl1, wl2, hwnd, hup⟩ := updateSendWindow_eq
    { tcb.triggerChallengeAckSatisfied with pending0 := tcb.pending0 ||| pending } seg
  obtain ⟨dup, nrt, hdup, hprog, hack⟩ := updateAck_eq
    { ({ tcb.triggerChallengeAckSatisfied with pending0 := tcb.pending0 ||| pending }) with
      snd := { tcb.snd with wnd := wnd, wl1 := wl1, wl2 := wl2 } } seg
  refine ⟨wnd, wl1, wl2, dup, nrt, hwnd, hdup, hprog, ?_⟩
  have hup' : updateSendWindow { tcb.triggerChallengeAckSatisfied with
      pending0 := tcb.pending0 ||| pending } seg =
        { ({ tcb.triggerChallengeAckSatisfied with pending0 := tcb.pending0 ||| pending }) with
          snd := { tcb.snd with wnd := wnd, wl1 := wl1, wl2 := wl2 } } := hup
  simp only [acceptSegment]
  rw [show tcb.triggerChallengeAckSatisfied.pending0 = tcb.pending0 from rfl, hup', hack]
  rfl

theorem acceptSegment_state : (tcb.acceptSegment seg pending).state = tcb.state := by
  obtain ⟨_, _, _, _, _, -, -, -, heq⟩ := acceptSegment_eq tcb seg pending
  rw [heq]

end Accepting

def sentState (s : State) (flags : Flags) : State :=
  match s with
  | .synRcvd | .established => if Flags.hasAny flags flagFIN then .finWait1 else s
  | .closing => if Flags.hasAny flags flagACK then .timeWait else s
  | .closeWait => if Flags.hasAny flags flagFIN then .lastAck else s
  | _ => s

theorem sendState_eq (tcb : ControlBlock) (seg : Segment) (h : tcb.state ≠ .closed) :
    tcb.sendState seg = { tcb with state := sentState tcb.state seg.flags } := by
  unfold sendState sentState
  cases hst : tcb.state <;> simp only [hst, ne_eq, not_true_eq_false] at h ⊢ <;>
    first
    | (split_ifs <;> first | rfl | (rw [← hst]))
    | rw [← hst]

theorem commitSend_eq (tcb : ControlBlock) (seg : Segment) (h : tcb.state ≠ .closed) :
    ∃ p0 p1 c nrt, tcb.commitSend seg = { tcb with
      snd := if Value.lessThan seg.seq tcb.snd.nxt then tcb.snd
        else { tcb.snd with nxt := tcb.snd.nxt + seg.len }
      rcv := { tcb.rcv with wnd := seg.wnd }
      pending0 := p0
      pending1 := p1
      state := sentState tcb.state seg.flags
      challengeAcks := c
      nRetransmit := nrt } ∧
      p0 = (if clear tcb.pending0 seg.flags = 0 then
        clear tcb.pending1 (seg.flags &&& flagFIN) else clear tcb.pending0 seg.flags) ∧
      p1 = (if clear tcb.pending0 seg.flags = 0 then 0 else tcb.pending1) := by
  simp only [commitSend, sendState_eq tcb seg h, advancePending, advanceNxt, setRecvWindow,
    triggerChallengeAckSent]
  split_ifs <;> exact ⟨_, _, _, _, rfl, rfl, rfl⟩

theorem commitSend_closed (tcb : ControlBlock) (seg : Segment) (hc : tcb.state = .closed)
    (hval : tcb.validateOutgoingSegment seg = none) : seg.flags = flagSYN ∧ tcb.commitSend seg =
      { snd := { iss := seg.seq, una := seg.seq, nxt := seg.seq + 1, wnd := 1 }
        rcv := { wnd := seg.wnd }
        state := .synSent } := by
  have hfirst : seg.isFirstSYN := by
    simp only [validateOutgoingSegment, hc] at hval
    cases hf : seg.isFirstSYN with
    | true => rfl
    | false => simp [hf] at hval
  simp only [Segment.isFirstSYN, Bool.and_eq_true, beq_iff_eq] at hfirst
  obtain ⟨⟨⟨hflags, -⟩, hlen⟩, -⟩ := hfirst
  have hone : seg.len = 1 := by
    rw [Segment.len_eq, hflags, hlen]
    decide
  have hstart : tcb.sendState seg =
      { snd := { iss := seg.seq, una := seg.seq, nxt := seg.seq, wnd := 1 }
        rcv := { wnd := seg.wnd }
        state := .synSent } := by
    simp [sendState, hc, hflags, prepareToHandshake, resetSnd, resetRcv, reset]
  have hpend : (tcb.sendState seg).advancePending seg.flags = tcb.sendState seg := by
    rw [hstart]
    simp [advancePending, clear]
  refine ⟨hflags, ?_⟩
  simp only [commitSend, hpend]
  rw [hstart]
  simp [advanceNxt, hone, pendingChallengeAck, lessThan_self, setRecvWindow]

theorem send_ok (h : (tcb.send seg).2 = none) :
    tcb.validateOutgoingSegment seg = none ∧ (tcb.send seg).1 = tcb.commitSend seg := by
  unfold send at h ⊢
  cases hval : tcb.validateOutgoingSegment seg with
  | some err =>
    rw [hval] at h
    cases h
  | none => exact ⟨rfl, rfl⟩

theorem send_err {err : Err} (h : (tcb.send seg).2 = some err) : (tcb.send seg).1 = tcb := by
  unfold send at h ⊢
  cases hval : tcb.validateOutgoingSegment seg with
  | some err => rfl
  | none =>
    rw [hval] at h
    cases h

/-- A call that fails leaves the block alone; Recv past the handshake may abort, or
change the flags to send and the challenge counter. -/
theorem failed_calls_leave_block (tcb : ControlBlock) (seg : Segment) :
    (∀ err, (tcb.send seg).2 = some err → (tcb.send seg).1 = tcb) ∧
      (tcb.state.isPreestablished = false → ∀ tcb' err, tcb.recv seg = .ok (tcb', some err) →
        (tcb' = tcb.abort ∧ tcb'.state = .closed) ∨
          ∃ flags c, tcb' = { tcb with pending0 := flags, challengeAcks := c }) := by
  refine ⟨fun err => send_err, fun hstate tcb' err hrecv => ?_⟩
  obtain ⟨c, hemit⟩ := tcb.triggerChallengeAckEmit_eq
  cases recv_outcome hrecv with
  | ignored | ackDrop => exact .inr ⟨_, _, rfl⟩
  | challenge => exact .inr ⟨_, _, hemit⟩
  | limit | rstAbort => exact .inl ⟨rfl, rfl⟩
  | synChallenge | rstChallenge =>
    rw [hemit]
    exact .inr ⟨_, _, rfl⟩
  | preReset hpre =>
    rw [hstate] at hpre
    cases hpre
  | relisten _ hsyn =>
    rw [hsyn] at hstate
    cases hstate

theorem failed_calls_leave_block_challenge :
    let tcb : ControlBlock := { state := .established, rcv := { wnd := 10 } }
    ∃ tcb', tcb.recv { seq := 20, flags := flagACK } = .ok (tcb', some .seqNotInWindow) ∧
      ((tcb' = tcb.abort ∧ tcb'.state = .closed) ∨
        ∃ flags c, tcb' = { tcb with pending0 := flags, challengeAcks := c }) :=
  ⟨_, rfl, (failed_calls_leave_block _ { seq := 20, flags := flagACK }).2 rfl _ .seqNotInWindow rfl⟩

theorem maxSend_le (snd : SendSpace) : snd.maxSend ≤ snd.wnd := by
  unfold SendSpace.maxSend
  split_ifs <;> bv_omega

theorem limitPayload_le (tcb : ControlBlock) (payloadLen : ℕ) :
    tcb.limitPayload payloadLen ≤ tcb.snd.maxSend.toNat ∧
      tcb.limitPayload payloadLen ≤ payloadLen := by
  simp only [limitPayload]
  split_ifs <;> omega

def pendingFlags (tcb : ControlBlock) : Flags :=
  if tcb.state.txQueuedDataOpen then tcb.pending0 ||| flagACK else tcb.pending0

theorem hasAny_pendingFlags (tcb : ControlBlock) {m : Flags} (hm : hasAny flagACK m = false) :
    hasAny tcb.pendingFlags m = hasAny tcb.pending0 m := by
  unfold pendingFlags
  split_ifs
  · rw [hasAny_or, hm, Bool.or_false]
  · rfl

def ordinarySegment (tcb : ControlBlock) (payloadLen : ℕ) : Segment :=
  { seq := if Flags.hasAny tcb.pendingFlags flagRST then tcb.rstPtr else tcb.snd.nxt
    ack := if Flags.hasAny tcb.pendingFlags flagACK then tcb.rcv.nxt else 0
    wnd := tcb.rcv.wnd
    flags := tcb.pendingFlags
    datalen := BitVec.ofNat 32
      (if tcb.state.txQueuedDataOpen then tcb.limitPayload payloadLen else 0) }

theorem ordinary_datalen_le (tcb : ControlBlock) (payloadLen : ℕ) :
    (tcb.ordinarySegment payloadLen).datalen ≤ tcb.snd.wnd := by
  have hroom := maxSend_le tcb.snd
  have hlimit := (tcb.limitPayload_le payloadLen).1
  simp only [ordinarySegment]
  split_ifs <;> bv_omega

def resendSegment (tcb : ControlBlock) (payloadLen : ℕ) : Segment :=
  { seq := tcb.snd.una
    ack := tcb.rcv.nxt
    wnd := tcb.rcv.wnd
    flags := flagACK
    datalen := BitVec.ofNat 32 payloadLen }

/-- No challenge ACK is due and no fast retransmit goes first. -/
structure NoPriority (tcb : ControlBlock) : Prop where
  challenge : tcb.pendingChallengeAck = false
  retransmit : Flags.hasAny tcb.pending0 flagctl = true ∨ tcb.hasPendingRetransmit = false

inductive Pends (tcb : ControlBlock) (payloadLen : ℕ) : Option Segment → Prop where
  | challenge (h : tcb.pendingChallengeAck = true) :
      Pends tcb payloadLen (some tcb.makeChallengeACK)
  | resend (h : tcb.hasPendingRetransmit = true)
      (hctl : Flags.hasAny tcb.pending0 flagctl = false) :
      Pends tcb payloadLen (some (tcb.resendSegment payloadLen))
  | nothing (hno : tcb.NoPriority) (h : tcb.pending0 = 0) : Pends tcb payloadLen none
  | ordinary (hno : tcb.NoPriority) :
      Pends tcb payloadLen (some (tcb.ordinarySegment payloadLen))

theorem pendingSegment_outcome (tcb : ControlBlock) (payloadLen : ℕ) :
    ∃ r, tcb.pendingSegment payloadLen = .ok r ∧ Pends tcb payloadLen r := by
  unfold pendingSegment
  by_cases hc : tcb.pendingChallengeAck
  · exact ⟨_, if_pos hc, .challenge hc⟩
  rw [if_neg hc]
  by_cases hrt : (!hasAny tcb.pending0 flagctl && tcb.hasPendingRetransmit)
  · rw [if_pos hrt]
    rw [Bool.and_eq_true, Bool.not_eq_true'] at hrt
    exact ⟨_, rfl, .resend hrt.2 hrt.1⟩
  rw [if_neg hrt]
  have hno : tcb.NoPriority := by
    refine ⟨by simpa using hc, ?_⟩
    revert hrt
    cases hasAny tcb.pending0 flagctl <;> cases tcb.hasPendingRetransmit <;> simp
  have hroom : ¬ tcb.snd.wnd < tcb.snd.maxSend := by
    have := maxSend_le tcb.snd
    bv_omega
  have hfull : (if tcb.state.txQueuedDataOpen then tcb.limitPayload
      (if tcb.state.txQueuedDataOpen then payloadLen else 0) else 0) =
      if tcb.state.txQueuedDataOpen then tcb.limitPayload payloadLen else 0 := by
    split_ifs <;> rfl
  simp only [hfull]
  by_cases hempty : tcb.pending0 = 0 ∧ (if tcb.state.txQueuedDataOpen then payloadLen else 0) = 0
  · exact ⟨none, if_pos hempty, .nothing hno hempty.1⟩
  rw [if_neg hempty]
  by_cases hzero : tcb.snd.maxSend.toNat < (if tcb.state.txQueuedDataOpen then payloadLen else 0) ∧
      tcb.snd.maxSend = 0 ∧ tcb.pending0 = 0
  · exact ⟨none, if_pos hzero, .nothing hno hzero.2.2⟩
  rw [if_neg hzero, if_neg (fun h => hroom h.2)]
  exact ⟨_, rfl, .ordinary hno⟩

end ControlBlock

end Lneto.Control
