import Lneto.ControlSteps
import Lneto.GuardedRuns

/-!
Two control blocks that open a connection to each other over a network that
reorders, duplicates and loses segments: what was ever sent may arrive at any
time, any number of times or never. Each end carries the number of sequence
numbers acknowledged to it.
-/
namespace Lneto.Handshake

open Segments SerialNumbers GuardedRuns Control ControlBlock List Flags State

variable {iss peer : Value} {seg : Segment} {mid tcb : ControlBlock} {payloadLen : ℕ}
  {pending : Flags}

/-- A control block, what it sent and how far its data was acknowledged. -/
structure End where
  tcb : ControlBlock := {}
  sent : List Segment := []
  acked : ℕ := 0
deriving DecidableEq, Repr

variable {a b x x' : End}

def openActive (iss : Value) (wnd : Size) : End :=
  match ({} : ControlBlock).send (clientSynSegment iss wnd) with
  | (tcb, some _) => { tcb := tcb }
  | (tcb, none) => { tcb := tcb, sent := [clientSynSegment iss wnd] }

def openPassive (iss : Value) (wnd : Size) : End :=
  { tcb := (({} : ControlBlock).openPassive iss wnd).1 }

def transmit (x : End) (payloadLen : ℕ) : Except Panic End :=
  match x.tcb.pendingSegment payloadLen with
  | .error p => .error p
  | .ok none => .ok x
  | .ok (some seg) =>
    match x.tcb.send seg with
    | (tcb, some _) => .ok { x with tcb := tcb }
    | (tcb, none) => .ok { x with tcb := tcb, sent := x.sent ++ [seg] }

def arrive (x : End) (seg : Segment) : Except Panic End :=
  match x.tcb.recv seg with
  | .error p => .error p
  | .ok (tcb, _) => .ok { x with tcb := tcb, acked := x.acked + ahead x.tcb.snd.una tcb.snd.una }

structure Net where
  a : End
  b : End
deriving DecidableEq, Repr

/-- One end sends what is pending, or the i-th segment of the other end arrives at it. -/
inductive Event where
  | sendA (payloadLen : ℕ)
  | sendB (payloadLen : ℕ)
  | arriveA (i : ℕ)
  | arriveB (i : ℕ)
deriving DecidableEq, Repr

def step (n : Net) : Event → Except Panic Net
  | .sendA payloadLen => (transmit n.a payloadLen).map fun a => { n with a := a }
  | .sendB payloadLen => (transmit n.b payloadLen).map fun b => { n with b := b }
  | .arriveA i =>
    match n.b.sent[i]? with
    | none => .ok n
    | some seg => (arrive n.a seg).map fun a => { n with a := a }
  | .arriveB i =>
    match n.a.sent[i]? with
    | none => .ok n
    | some seg => (arrive n.b seg).map fun b => { n with b := b }

def start (passive : Bool) (issA issB : Value) (wndA wndB : Size) : Net :=
  { a := openActive issA wndA
    b := if passive then openPassive issB wndB else openActive issB wndB }

/-- An ACK that arrives before ESTABLISHED acknowledges the SYN, and snd.NXT says that the
SYN was sent. -/
def Timely (tcb : ControlBlock) (seg : Segment) : Prop :=
  tcb.state.isPreestablished = true → Flags.hasAny seg.flags flagACK = true →
    seg.ack = tcb.snd.iss + 1 ∧ tcb.snd.nxt = tcb.snd.iss + 1

instance (tcb : ControlBlock) (seg : Segment) : Decidable (Timely tcb seg) :=
  inferInstanceAs (Decidable (_ → _ → _))

def AllTimely (n : Net) : Event → Prop
  | .arriveA i => ∀ seg ∈ n.b.sent[i]?, Timely n.a.tcb seg
  | .arriveB i => ∀ seg ∈ n.a.sent[i]?, Timely n.b.tcb seg
  | .sendA _ | .sendB _ => True

instance (n : Net) : ∀ e, Decidable (AllTimely n e)
  | .arriveA i => inferInstanceAs (Decidable (∀ seg ∈ n.b.sent[i]?, Timely n.a.tcb seg))
  | .arriveB i => inferInstanceAs (Decidable (∀ seg ∈ n.a.sent[i]?, Timely n.b.tcb seg))
  | .sendA _ | .sendB _ => .isTrue trivial

structure Plain (iss : Value) (seg : Segment) : Prop where
  noReset : Flags.hasAny seg.flags flagRST = false
  noFin : Flags.hasAny seg.flags flagFIN = false
  syn : Flags.hasAny seg.flags flagSYN = true → seg.seq = iss

theorem plain_of_ack (h : seg.flags = flagACK) : Plain iss seg := by
  refine ⟨by rw [h]; decide, by rw [h]; decide, fun hsyn => ?_⟩
  rw [h] at hsyn
  exact absurd hsyn (by decide)

theorem len_of_ack (h : seg.flags = flagACK) (hdata : seg.datalen = 0) : seg.len = 0 := by
  rw [Segment.len_eq, h, hdata]
  decide

/-- An open end: before ESTABLISHED nothing is acknowledged, and a queued SYN is still to
be sent. -/
structure Live (iss peer : Value) (x : End) : Prop where
  state : x.tcb.state.isPreestablished = true ∨ x.tcb.state = .established
  iss_eq : x.tcb.snd.iss = iss
  una_eq : x.tcb.snd.una = advance iss x.acked
  fresh : x.tcb.state.isPreestablished = true → x.acked = 0
  synAcked : x.tcb.state = .established → 1 ≤ x.acked
  irs_eq : x.tcb.state = .synRcvd ∨ x.tcb.state = .established → x.tcb.rcv.irs = peer
  noReset : Flags.hasAny x.tcb.pending0 flagRST = false
  noFin : Flags.hasAny x.tcb.pending0 flagFIN = false
  nothingNext : x.tcb.pending1 = 0
  syn : Flags.hasAny x.tcb.pending0 flagSYN = true →
    x.tcb.state = .synRcvd ∧ x.tcb.snd.nxt = iss

theorem ne_closed_of_preestablished {st : State} (h : st.isPreestablished) :
    st ≠ .closed ∧ st ≠ .established ∧ st.isSynchronized = false ∧ st.txDataOpen = false ∧
      st.txQueuedDataOpen = false := by
  cases st <;> simp_all [isPreestablished, isSynchronized, txDataOpen, txQueuedDataOpen]

theorem Live.ne_closed (h : Live iss peer x) : x.tcb.state ≠ .closed := by
  rcases h.state with hpre | hest
  · exact (ne_closed_of_preestablished hpre).1
  · rw [hest]
    decide

theorem Live.sentState_eq (h : Live iss peer x) {flags : Flags}
    (hfin : hasAny flags flagFIN = false) : sentState x.tcb.state flags = x.tcb.state := by
  have hstate := h.state
  cases hst : x.tcb.state <;> simp_all [sentState, isPreestablished]

section Sending
variable {iss peer : Value} {x : End}

theorem live_sent (hx : Live iss peer x) {sent : List Segment}
    (hfin : hasAny seg.flags flagFIN = false)
    (hsyn : hasAny (clear x.tcb.pending0 seg.flags) flagSYN → seg.len = 0) :
    Live iss peer { x with tcb := x.tcb.commitSend seg, sent := sent } := by
  obtain ⟨p0, p1, c, nrt, heq, hp0, hp1⟩ := commitSend_eq x.tcb seg hx.ne_closed
  have hkept : p0 = 0 ∨ p0 = clear x.tcb.pending0 seg.flags := by
    rw [hp0, hx.nothingNext]
    split_ifs
    · left
      simp [clear]
    · exact .inr rfl
  have hsnd : (x.tcb.commitSend seg).snd.iss = x.tcb.snd.iss ∧
      (x.tcb.commitSend seg).snd.una = x.tcb.snd.una ∧
      (seg.len = 0 → (x.tcb.commitSend seg).snd.nxt = x.tcb.snd.nxt) := by
    rw [heq]
    split_ifs
    · exact ⟨rfl, rfl, fun _ => rfl⟩
    · exact ⟨rfl, rfl, fun hlen => by simp [hlen]⟩
  have hst : (x.tcb.commitSend seg).state = x.tcb.state := by
    rw [heq]
    exact hx.sentState_eq hfin
  have hpend : (x.tcb.commitSend seg).pending0 = p0 := by rw [heq]
  have hnone : ∀ m, hasAny (clear x.tcb.pending0 seg.flags) m = false →
      hasAny p0 m = false := by
    intro m hm
    rcases hkept with rfl | rfl
    · exact hasAny_zero m
    · exact hm
  refine ⟨?_, ?_, ?_, ?_, ?_, ?_, ?_, ?_, ?_, ?_⟩ <;> dsimp only
  · rw [hst]
    exact hx.state
  · rw [hsnd.1]
    exact hx.iss_eq
  · rw [hsnd.2.1]
    exact hx.una_eq
  · rw [hst]
    exact hx.fresh
  · rw [hst]
    exact hx.synAcked
  · rw [hst, heq]
    exact hx.irs_eq
  · rw [hpend]
    exact hnone _ (by rw [hasAny_clear_RST, hx.noReset, Bool.false_and])
  · rw [hpend]
    exact hnone _ (by rw [hasAny_clear_FIN, hx.noFin, Bool.false_and])
  · rw [heq, hp1, hx.nothingNext]
    split_ifs <;> rfl
  intro hs
  have hclear : hasAny (clear x.tcb.pending0 seg.flags) flagSYN := by
    by_contra hno
    rw [hpend, hnone _ (by simpa using hno)] at hs
    cases hs
  have hold := hclear
  rw [hasAny_clear_SYN, Bool.and_eq_true] at hold
  obtain ⟨hrcvd, hnxt⟩ := hx.syn hold.1
  rw [hst, hsnd.2.2 (hsyn hclear)]
  exact ⟨hrcvd, hnxt⟩

theorem pends_plain (hx : Live iss peer x) (hp : x.tcb.Pends payloadLen (some seg)) :
    Plain iss seg ∧ (hasAny (clear x.tcb.pending0 seg.flags) flagSYN → seg.len = 0) := by
  generalize hout : some seg = out at hp
  cases hp with
  | challenge =>
    cases hout
    exact ⟨plain_of_ack rfl, fun _ => len_of_ack rfl rfl⟩
  | resend hre hctl =>
    cases hout
    refine ⟨plain_of_ack rfl, fun hs => ?_⟩
    rw [hasAny_clear_SYN, Bool.and_eq_true] at hs
    rw [flagctl, hasAny_mask_or, hasAny_mask_or, hs.1] at hctl
    cases hctl
  | nothing => cases hout
  | ordinary =>
  cases hout
  have hflags : ∀ m, hasAny flagACK m = false →
      hasAny (x.tcb.ordinarySegment payloadLen).flags m =
        hasAny x.tcb.pending0 m := fun m hm => hasAny_pendingFlags x.tcb hm
  have hrst : hasAny x.tcb.pendingFlags flagRST = false := by
    rw [hasAny_pendingFlags _ (by decide)]
    exact hx.noReset
  refine ⟨⟨(hflags _ (by decide)).trans hx.noReset, (hflags _ (by decide)).trans hx.noFin,
    fun hs => ?_⟩, fun hs => ?_⟩
  · rw [hflags _ (by decide)] at hs
    simp only [ordinarySegment, hrst]
    exact (hx.syn hs).2
  · rw [hasAny_clear_SYN, hflags _ (by decide)] at hs
    cases hsyn : hasAny x.tcb.pending0 flagSYN <;> simp [hsyn] at hs

theorem transmit_live (hx : Live iss peer x) (h : transmit x payloadLen = .ok x') :
    Live iss peer x' ∧ x'.acked = x.acked ∧
      x'.tcb.state = x.tcb.state ∧ x'.tcb.rcv.nxt = x.tcb.rcv.nxt ∧
      (x' = x ∨ ∃ seg, x.tcb.Pends payloadLen (some seg) ∧ x'.sent = x.sent ++ [seg] ∧
        Plain iss seg ∧ x'.tcb = x.tcb.commitSend seg) := by
  obtain ⟨r, hr, hp⟩ := x.tcb.pendingSegment_outcome payloadLen
  rw [transmit, hr] at h
  cases r with
  | none =>
    cases h
    exact ⟨hx, rfl, rfl, rfl, .inl rfl⟩
  | some seg =>
  obtain ⟨hplain, hsyn⟩ := pends_plain hx hp
  cases hsend : x.tcb.send seg with
  | mk tcb err =>
    simp only [hsend] at h
    cases err with
    | some err =>
      have hsame := send_err (show (x.tcb.send seg).2 = some err by rw [hsend])
      rw [hsend] at hsame
      cases h
      subst hsame
      exact ⟨hx, rfl, rfl, rfl, .inl rfl⟩
    | none =>
    have hcommit := (send_ok (show (x.tcb.send seg).2 = none by rw [hsend])).2
    rw [hsend] at hcommit
    cases h
    subst hcommit
    obtain ⟨_, _, _, _, heq, -, -⟩ := commitSend_eq x.tcb seg hx.ne_closed
    refine ⟨live_sent hx hplain.noFin hsyn, rfl, ?_, ?_, .inr ⟨seg, hp, rfl, hplain, rfl⟩⟩
    · rw [heq]
      exact hx.sentState_eq hplain.noFin
    · rw [heq]

end Sending

section Arriving
variable {iss peer : Value} {x x' : End} {seg : Segment}

theorem dropCheck_timely (hx : Live iss peer x) (hpre : x.tcb.state.isPreestablished)
    (htimely : Timely x.tcb seg) : x.tcb.dropCheck seg = (x.tcb, none) := by
  have hest : (x.tcb.state == .established) = false := by
    simpa using (ne_closed_of_preestablished hpre).2.1
  have huna : x.tcb.snd.una = iss := by rw [hx.una_eq, hx.fresh hpre, advance_zero]
  have hacks : x.tcb.acksOld seg = false ∧ x.tcb.acksUnsentData seg = false := by
    unfold acksOld acksUnsentData
    cases hack : hasAll seg.flags flagACK with
    | false => simp
    | true =>
    have hany : hasAny seg.flags flagACK := by
      rw [hasAll, beq_iff_eq] at hack
      rw [hasAny, hack]
      decide
    obtain ⟨hnum, hnxt⟩ := htimely hpre hany
    rw [hx.iss_eq] at hnum hnxt
    have hone : ahead iss (iss + 1) = 1 := ahead_advance iss 1 (by omega)
    refine ⟨?_, ?_⟩
    · rw [huna, hnum, (lessThan_iff _ _).2 (by omega)]
      rfl
    · rw [hnum, hnxt]
      simp [Value.lessThanEq]
  simp [dropCheck, hest, hpre, hacks.1, hacks.2]

theorem recv_kept {tcb' : ControlBlock} {err : Option Err}
    (hrst : hasAny seg.flags flagRST = false) (hpre : tcb.state.isPreestablished)
    (hkept : tcb.dropCheck seg = (tcb, none)) (h : tcb.recv seg = .ok (tcb', err)) :
    tcb' = tcb ∨ (∃ mid pending, tcb.Accepts seg mid pending ∧
      tcb' = mid.acceptSegment seg pending) ∨
    (tcb.Challenged seg ∧ (tcb' = tcb.triggerChallengeAckEmit ∨ tcb' = tcb.abort)) := by
  cases herr : tcb.incomingError seg with
  | none =>
    have hval : tcb.validateIncomingSegment seg = (tcb, none) := by
      rw [validateIncomingSegment, herr]
      simp only [hrst, Bool.false_eq_true, if_false, hkept]
    rw [recv, hval] at h
    simp only [hpre, Bool.not_true, Bool.and_false, Bool.false_eq_true, if_false] at h
    cases hrcv : tcb.rcvState seg with
    | error p =>
      rw [hrcv] at h
      cases h
    | ok out =>
    obtain ⟨mid, pending, e⟩ := out
    rw [hrcv] at h
    cases e with
    | some e =>
      cases h
      exact .inl (rcvState_outcome tcb seg hrcv)
    | none =>
      cases h
      exact .inr (.inl ⟨mid, pending, ⟨herr, hrst, hkept, fun _ => hpre, hrcv⟩, rfl⟩)
  | some e =>
  simp only [recv, validateIncomingSegment, herr] at h
  split_ifs at h with hch hmany
  · cases h
    rw [Bool.and_eq_true, Bool.not_eq_true'] at hch
    exact .inr (.inr ⟨⟨e, herr, hch.1, hch.2⟩, .inr rfl⟩)
  · cases h
    rw [Bool.and_eq_true, Bool.not_eq_true'] at hch
    exact .inr (.inr ⟨⟨e, herr, hch.1, hch.2⟩, .inl rfl⟩)
  · cases h
    exact .inl rfl

theorem ackedUna_unsent (huna : tcb.snd.una = iss) (hnxt : tcb.snd.nxt = iss)
    (hack : hasAny seg.flags flagACK → seg.ack = iss + 1) : tcb.ackedUna seg = iss := by
  unfold ackedUna
  split_ifs with h
  · obtain ⟨hflag, hle, -⟩ := h
    rw [hack hflag, hnxt, Value.lessThanEq, Bool.or_eq_true, beq_iff_eq, lessThan_iff] at hle
    have hback : ahead iss (iss + 1) + ahead (iss + 1) iss = 2 ^ 32 :=
      ahead_add_ahead _ _ (by bv_omega)
    have hone : ahead iss (iss + 1) = 1 := ahead_advance iss 1 (by omega)
    rcases hle with heq | hlt
    · bv_omega
    · omega
  · exact huna

theorem ackedUna_syn (huna : tcb.snd.una = iss) (hnxt : tcb.snd.nxt = iss + 1)
    (hflag : hasAny seg.flags flagACK) (hack : seg.ack = iss + 1) : tcb.ackedUna seg = iss + 1 := by
  have hone : ahead iss (iss + 1) = 1 := ahead_advance iss 1 (by omega)
  rw [ackedUna, if_pos, hack]
  refine ⟨hflag, ?_, ?_⟩
  · rw [hack, hnxt]
    simp [Value.lessThanEq]
  · rw [huna, hack, lessThan_iff]
    omega

theorem syn_of_listen (hst : tcb.state = .listen) (h : tcb.rcvState seg = .ok (mid, pending, none))
    : hasAny seg.flags flagSYN := by
  simp only [rcvState, hst, rcvListen] at h
  split_ifs at h with hsyn
  · simp at h
  rw [Bool.not_eq_true', Bool.not_eq_false, hasAll, beq_iff_eq] at hsyn
  rw [hasAny, hsyn]
  decide

section
variable (hx : Live iss peer x)
include hx

theorem live_taken (hiss : mid.snd.iss = iss) (hnext : mid.pending1 = 0)
    (hpre : mid.state.isPreestablished → x.acked = 0 ∧ mid.ackedUna seg = x.tcb.snd.una)
    (hest : mid.state.isPreestablished = false → mid.state = .established ∧ 1 ≤ x.acked + ahead
      x.tcb.snd.una (mid.ackedUna seg)) (hirs : mid.state ≠ .listen → mid.rcv.irs = peer)
    (hrst : hasAny (mid.pending0 ||| pending) flagRST = false)
    (hfin : hasAny (mid.pending0 ||| pending) flagFIN = false)
    (hsyn : hasAny (mid.pending0 ||| pending) flagSYN → mid.state = .synRcvd ∧
      mid.snd.nxt = iss) : Live iss peer { x with
      tcb := mid.acceptSegment seg pending
      acked := x.acked + ahead x.tcb.snd.una (mid.acceptSegment seg pending).snd.una } := by
  obtain ⟨wnd, wl1, wl2, dup, nrt, -, -, -, heq⟩ := acceptSegment_eq mid seg pending
  rw [heq]
  refine ⟨?_, hiss, by rw [← advance_advance, ← hx.una_eq, advance_ahead], fun hp => ?_,
    fun he => ?_, fun hst => ?_, hrst, hfin, hnext, hsyn⟩
  · cases hp : mid.state.isPreestablished with
    | true => exact .inl rfl
    | false => exact .inr (hest hp).1
  · obtain ⟨hzero, hsame⟩ := hpre hp
    rw [hzero, hsame, ahead_self]
  · refine (hest ?_).2
    rw [he]
    rfl
  refine hirs ?_
  rintro hl
  rw [hl] at hst
  rcases hst with hst | hst <;> cases hst

theorem live_accepted (hpre : x.tcb.state.isPreestablished)
    (hseg : Plain peer seg) (htimely : Timely x.tcb seg) (hacc : x.tcb.Accepts seg mid pending) :
    Live iss peer { x with
      tcb := mid.acceptSegment seg pending
      acked := x.acked + ahead x.tcb.snd.una (mid.acceptSegment seg pending).snd.una } := by
  have huna : x.tcb.snd.una = iss := by rw [hx.una_eq, hx.fresh hpre, advance_zero]
  have hack : hasAny seg.flags flagACK →
      seg.ack = iss + 1 ∧ x.tcb.snd.nxt = iss + 1 := by
    rw [← hx.iss_eq]
    exact htimely hpre
  have hone : ahead iss (iss + 1) = 1 := ahead_advance iss 1 (by omega)
  have hno : hasAny x.tcb.pending0 flagRST = false ∧
      hasAny x.tcb.pending0 flagFIN = false := ⟨hx.noReset, hx.noFin⟩
  cases rcvState_handled hacc.handled with
  | listenSyn hst =>
    refine live_taken hx hx.iss_eq hx.nothingNext (fun _ => ⟨hx.fresh hpre, ?_⟩)
      (fun h => by cases h) (fun _ => hseg.syn (syn_of_listen hst hacc.handled))
      (show hasAny (synack ||| synack) flagRST = false by decide)
      (show hasAny (synack ||| synack) flagFIN = false by decide)
      (fun _ => ⟨rfl, hx.iss_eq⟩)
    rw [huna]
    exact ackedUna_unsent hx.iss_eq hx.iss_eq fun hflag => (hack hflag).1
  | synAcked hst hsyn hflag hnum =>
    refine live_taken hx hx.iss_eq hx.nothingNext (fun h => by cases h) (fun _ => ⟨rfl, ?_⟩)
      (fun _ => hseg.syn hsyn) ?_ ?_ (fun hs => ?_)
    · have hu : ackedUna { x.tcb.resetRcv x.tcb.rcv.wnd seg.seq with
          state := .established } seg = iss + 1 :=
        ackedUna_syn huna (hack hflag).2 hflag (hack hflag).1
      rw [hu, huna, hone]
      omega
    · change hasAny (x.tcb.pending0 ||| flagACK) flagRST = false
      rw [hasAny_or, hno.1]
      decide
    · change hasAny (x.tcb.pending0 ||| flagACK) flagFIN = false
      rw [hasAny_or, hno.2]
      decide
    change hasAny (x.tcb.pending0 ||| flagACK) flagSYN at hs
    rw [hasAny_or, Bool.or_eq_true] at hs
    have hrcvd := (hx.syn (hs.resolve_right (by decide))).1
    rw [hst] at hrcvd
    cases hrcvd
  | simultaneousOpen hst hsyn hflag =>
    refine live_taken hx hx.iss_eq hx.nothingNext (fun _ => ⟨hx.fresh hpre, ?_⟩)
      (fun h => by cases h) (fun _ => hseg.syn hsyn) ?_ ?_ (fun _ => ⟨rfl, hx.iss_eq⟩)
    · rw [huna]
      exact ackedUna_unsent hx.iss_eq hx.iss_eq fun hf => (hack hf).1
    · change hasAny (x.tcb.pending0 ||| synack) flagRST = false
      rw [hasAny_or, hno.1]
      decide
    change hasAny (x.tcb.pending0 ||| synack) flagFIN = false
    rw [hasAny_or, hno.2]
    decide
  | opened hst hall hnum =>
    have hflag : hasAny seg.flags flagACK := by
      rw [hasAll, beq_iff_eq] at hall
      rw [hasAny, hall]
      decide
    have hzero : x.tcb.pending0 ||| 0 = x.tcb.pending0 := BitVec.or_zero
    refine live_taken hx hx.iss_eq hx.nothingNext (fun h => by cases h) (fun _ => ⟨rfl, ?_⟩)
      (fun _ => hx.irs_eq (.inl hst)) ?_ ?_ (fun hs => ?_)
    · have hu : ackedUna { x.tcb with state := .established } seg = iss + 1 :=
        ackedUna_syn huna (hack hflag).2 hflag (hack hflag).1
      rw [hu, huna, hone]
      omega
    · change hasAny (x.tcb.pending0 ||| 0) flagRST = false
      rw [hzero]
      exact hno.1
    · change hasAny (x.tcb.pending0 ||| 0) flagFIN = false
      rw [hzero]
      exact hno.2
    -- a SYN still queued is not acknowledged
    change hasAny (x.tcb.pending0 ||| 0) flagSYN at hs
    rw [hzero] at hs
    have hunsent := (hx.syn hs).2
    rw [(hack hflag).2] at hunsent
    bv_omega
  | moved hm =>
    have hsync := (ne_closed_of_preestablished hpre).2.2.1
    cases hm <;> simp_all [isPreestablished]
  | finished hst => simp [hst, isPreestablished] at hpre

theorem live_eased (hsnd : tcb.snd = x.tcb.snd)
    (hirs : tcb.rcv.irs = x.tcb.rcv.irs) (hst : tcb.state = x.tcb.state)
    (hnext : tcb.pending1 = x.tcb.pending1)
    (hp : tcb.pending0 = x.tcb.pending0 ∨ tcb.pending0 = x.tcb.pending0 ||| flagACK) :
    Live iss peer { x with tcb := tcb, acked := x.acked + ahead x.tcb.snd.una tcb.snd.una } := by
  have hflags : ∀ m, hasAny flagACK m = false →
      hasAny tcb.pending0 m = hasAny x.tcb.pending0 m := by
    intro m hm
    rcases hp with hp | hp
    · rw [hp]
    · rw [hp, hasAny_or, hm, Bool.or_false]
  have hzero : x.acked + ahead x.tcb.snd.una tcb.snd.una = x.acked := by
    rw [hsnd, ahead_self, Nat.add_zero]
  rw [hzero]
  refine ⟨?_, ?_, ?_, ?_, ?_, ?_, ?_, ?_, ?_, ?_⟩ <;> dsimp only
  · rw [hst]
    exact hx.state
  · rw [hsnd]
    exact hx.iss_eq
  · rw [hsnd]
    exact hx.una_eq
  · rw [hst]
    exact hx.fresh
  · rw [hst]
    exact hx.synAcked
  · rw [hst, hirs]
    exact hx.irs_eq
  · rw [hflags _ (by decide)]
    exact hx.noReset
  · rw [hflags _ (by decide)]
    exact hx.noFin
  · rw [hnext]
    exact hx.nothingNext
  · rw [hflags _ (by decide), hst, hsnd]
    exact hx.syn

theorem live_established (hest : x.tcb.state = .established)
    (hseg : Plain peer seg) (hacc : x.tcb.Accepts seg mid pending) : Live iss peer { x with
      tcb := mid.acceptSegment seg pending
      acked := x.acked + ahead x.tcb.snd.una (mid.acceptSegment seg pending).snd.una } ∧
    (mid.acceptSegment seg pending).state = .established ∧
    (mid.acceptSegment seg pending).rcv.nxt = x.tcb.rcv.nxt + seg.len := by
  obtain ⟨wnd, wl1, wl2, dup, nrt, -, -, -, heq⟩ := acceptSegment_eq mid seg pending
  have hacked := hx.synAcked hest
  cases rcvState_handled hacc.handled with
  | @moved st _ hm hpending =>
    have hst : st = .established := by
      cases hm with
      | stay => exact hest
      | peerFin _ hfin => cases hfin.symm.trans hseg.noFin
      | bothFins h | simultaneousFin h | ownFinAcked h | peerFinLast h | closingAcked h =>
        cases hest.symm.trans h
    subst hst
    have hflags : ∀ m, hasAny flagACK m = false →
        hasAny (x.tcb.pending0 ||| pending) m = hasAny x.tcb.pending0 m := by
      intro m hm
      rw [hasAny_or]
      rcases hpending with rfl | rfl
      · rw [hasAny_zero, Bool.or_false]
      · rw [hm, Bool.or_false]
    refine ⟨live_taken hx hx.iss_eq hx.nothingNext (nofun)
      (fun _ => ⟨rfl, by omega⟩) (fun _ => hx.irs_eq (.inr hest))
      ((hflags _ (by decide)).trans hx.noReset) ((hflags _ (by decide)).trans hx.noFin)
      (fun hs => ?_), by rw [heq], by rw [heq]⟩
    have hrcvd := (hx.syn ((hflags _ (by decide)).symm.trans hs)).1
    rw [hest] at hrcvd
    cases hrcvd
  | listenSyn h | synAcked h | simultaneousOpen h | opened h | finished h =>
    cases hest.symm.trans h

end

/-- An open end stays open, or the challenge limit closes it. ESTABLISHED is kept; rcv.NXT
moves by what was accepted. -/
structure Arrived (iss peer : Value) (x x' : End) (seg : Segment) : Prop where
  sent : x'.sent = x.sent
  live : x'.tcb = {} ∨ Live iss peer x'
  established : x.tcb.state = .established → x'.tcb = {} ∨ (x'.tcb.state = .established ∧
    (x'.tcb.rcv.nxt = x.tcb.rcv.nxt ∨
      (Flags.hasAny seg.flags flagSYN = false ∧ x'.tcb.rcv.nxt = x.tcb.rcv.nxt + seg.len)))

theorem arrive_live (hx : Live iss peer x) (hseg : Plain peer seg) (htimely : Timely x.tcb seg)
    (h : arrive x seg = .ok x') : Arrived iss peer x x' seg := by
  unfold arrive at h
  cases hrecv : x.tcb.recv seg with
  | error p =>
    rw [hrecv] at h
    cases h
  | ok out =>
  obtain ⟨tcb, err⟩ := out
  rw [hrecv] at h
  cases h
  obtain ⟨c, hemit⟩ := triggerChallengeAckEmit_eq x.tcb
  rcases hx.state with hpre | hest
  · have hne := (ne_closed_of_preestablished hpre).2.1
    refine ⟨rfl, ?_, fun he => absurd he hne⟩
    rcases recv_kept hseg.noReset hpre (dropCheck_timely hx hpre htimely) hrecv with
      rfl | ⟨mid, pending, hacc, rfl⟩ | ⟨-, rfl | rfl⟩
    · exact .inr (live_eased hx rfl rfl rfl rfl (.inl rfl))
    · exact .inr (live_accepted hx hpre hseg htimely hacc)
    · rw [hemit]
      exact .inr (live_eased hx rfl rfl rfl rfl (.inl rfl))
    · exact .inl rfl
  have hpre : x.tcb.state.isPreestablished = false := by
    rw [hest]
    rfl
  cases recv_outcome hrecv with
  | accepted hacc =>
    obtain ⟨hlive, hst, hnxt⟩ := live_established hx hest hseg hacc
    have hsyn : hasAny seg.flags flagSYN = false := by
      by_contra hs
      have hp := hacc.syn (by simpa using hs)
      rw [hpre] at hp
      cases hp
    exact ⟨rfl, .inr hlive, fun _ => .inr ⟨hst, .inr ⟨hsyn, hnxt⟩⟩⟩
  | ignored =>
    exact ⟨rfl, .inr (live_eased hx rfl rfl rfl rfl (.inl rfl)), fun _ => .inr ⟨hest, .inl rfl⟩⟩
  | challenge =>
    rw [hemit]
    exact ⟨rfl, .inr (live_eased hx rfl rfl rfl rfl (.inl rfl)), fun _ => .inr ⟨hest, .inl rfl⟩⟩
  | limit => exact ⟨rfl, .inl rfl, fun _ => .inl rfl⟩
  | synChallenge =>
    rw [hemit]
    exact ⟨rfl, .inr (live_eased hx rfl rfl rfl rfl (.inr rfl)), fun _ => .inr ⟨hest, .inl rfl⟩⟩
  | ackDrop =>
    exact ⟨rfl, .inr (live_eased hx rfl rfl rfl rfl (.inr rfl)), fun _ => .inr ⟨hest, .inl rfl⟩⟩
  | rstChallenge hrst | rstAbort hrst | relisten hrst => cases hrst.symm.trans hseg.noReset
  | preReset hstate => cases hpre.symm.trans hstate

end Arriving

theorem transmit_idle (hst : x.tcb.state.txQueuedDataOpen = false) (hp : x.tcb.pending0 = 0)
    (hc : x.tcb.challengeAcks = 0) (payloadLen : ℕ) : transmit x payloadLen = .ok x := by
  have hdata : x.tcb.state.txDataOpen = false := by
    rw [txQueuedDataOpen] at hst
    simp only [Bool.or_eq_false_iff] at hst
    exact hst.1.1.1
  have hnone : x.tcb.pendingSegment payloadLen = .ok none := by
    simp [pendingSegment, pendingChallengeAck, hasPendingRetransmit, hdata, hst, hp, hc]
  rw [transmit, hnone]

theorem transmit_closed (h : x.tcb = {}) (payloadLen : ℕ) : transmit x payloadLen = .ok x :=
  transmit_idle (by rw [h]; rfl) (by rw [h]) (by rw [h]) payloadLen

theorem arrive_closed (h : x.tcb = {}) (seg : Segment) : arrive x seg = .ok x := by
  obtain ⟨err, herr⟩ := recv_closed (show x.tcb.state = .closed by rw [h]) seg
  rw [arrive, herr]
  simp only [ahead_self, Nat.add_zero]

/-- An end that is closed or open, with plain segments on the way. -/
structure Sound (iss peer : Value) (x : End) : Prop where
  block : x.tcb = {} ∨ Live iss peer x
  sent : ∀ seg ∈ x.sent, Plain iss seg

theorem sound_transmit (hx : Sound iss peer x) (h : transmit x payloadLen = .ok x') :
    Sound iss peer x' := by
  rcases hx.block with hclosed | hlive
  · rw [transmit_closed hclosed] at h
    cases h
    exact hx
  obtain ⟨hlive', -, -, -, rfl | ⟨seg, -, hsent, hplain, -⟩⟩ := transmit_live hlive h
  · exact hx
  refine ⟨.inr hlive', ?_⟩
  rw [hsent]
  exact forall_mem_append.2 ⟨hx.sent, by simpa using hplain⟩

theorem sound_arrive (hx : Sound iss peer x) (hseg : Plain peer seg) (htimely : Timely x.tcb seg)
    (h : arrive x seg = .ok x') : Sound iss peer x' := by
  rcases hx.block with hclosed | hlive
  · rw [arrive_closed hclosed] at h
    cases h
    exact hx
  have hout := arrive_live hlive hseg htimely h
  refine ⟨hout.live, ?_⟩
  rw [hout.sent]
  exact hx.sent

structure Agreed (issA issB : Value) (n : Net) : Prop where
  a : Sound issA issB n.a
  b : Sound issB issA n.b

theorem agreed_step {issA issB : Value} {n n' : Net} {e : Event} (hn : Agreed issA issB n)
    (htimely : AllTimely n e) (h : step n e = .ok n') : Agreed issA issB n' := by
  cases e with
  | sendA payloadLen =>
    obtain ⟨x, hx, rfl⟩ := map_ok h
    exact ⟨sound_transmit hn.a hx, hn.b⟩
  | sendB payloadLen =>
    obtain ⟨x, hx, rfl⟩ := map_ok h
    exact ⟨hn.a, sound_transmit hn.b hx⟩
  | arriveA i =>
    simp only [step] at h
    cases hi : n.b.sent[i]? with
    | none =>
      rw [hi] at h
      cases h
      exact hn
    | some seg =>
    rw [hi] at h
    obtain ⟨x, hx, rfl⟩ := map_ok h
    exact ⟨sound_arrive hn.a (hn.b.sent seg (mem_of_getElem? hi)) (htimely seg hi) hx, hn.b⟩
  | arriveB i =>
  simp only [step] at h
  cases hi : n.a.sent[i]? with
  | none =>
    rw [hi] at h
    cases h
    exact hn
  | some seg =>
  rw [hi] at h
  obtain ⟨x, hx, rfl⟩ := map_ok h
  exact ⟨hn.a, sound_arrive hn.b (hn.a.sent seg (mem_of_getElem? hi)) (htimely seg hi) hx⟩

theorem openActive_cases (iss : Value) (wnd : Size) : openActive iss wnd = {} ∨ openActive iss wnd =
      { tcb := { snd := { iss := iss, una := iss, nxt := iss + 1, wnd := 1 }
                 rcv := { wnd := wnd }
                 state := .synSent }
        sent := [clientSynSegment iss wnd] } := by
  unfold openActive
  cases hsend : ({} : ControlBlock).send (clientSynSegment iss wnd) with
  | mk tcb err =>
    cases err with
    | some err =>
      have hsame := send_err (show (({} : ControlBlock).send _).2 = some err by rw [hsend])
      rw [hsend] at hsame
      left
      dsimp only at hsame ⊢
      rw [hsame]
    | none =>
    obtain ⟨hval, hcommit⟩ := send_ok (show (({} : ControlBlock).send _).2 = none by rw [hsend])
    rw [hsend] at hcommit
    right
    dsimp only at hcommit ⊢
    rw [hcommit, (commitSend_closed _ _ rfl hval).2]
    rfl

theorem live_opened (hst : x.tcb.state = .synSent ∨ x.tcb.state = .listen)
    (hiss : x.tcb.snd.iss = iss) (huna : x.tcb.snd.una = iss) (hacked : x.acked = 0)
    (hp : x.tcb.pending0 = 0) (hnext : x.tcb.pending1 = 0) : Live iss peer x := by
  have hpre : x.tcb.state.isPreestablished := by rcases hst with h | h <;> rw [h] <;> rfl
  refine ⟨.inl hpre, hiss, ?_, fun _ => hacked, fun he => ?_, fun he => ?_, ?_, ?_, hnext,
    fun hs => ?_⟩
  · rw [huna, hacked, advance_zero]
  · exact absurd he (ne_closed_of_preestablished hpre).2.1
  · rcases hst with h | h <;> rw [h] at he <;> rcases he with he | he <;> cases he
  · rw [hp, hasAny_zero]
  · rw [hp, hasAny_zero]
  · rw [hp, hasAny_zero] at hs
    cases hs

theorem sound_openActive (iss peer : Value) (wnd : Size) : Sound iss peer (openActive iss wnd) := by
  rcases openActive_cases iss wnd with h | h
  · rw [h]
    exact ⟨.inl rfl, by simp⟩
  rw [h]
  refine ⟨.inr (live_opened (.inl rfl) rfl rfl rfl rfl rfl), ?_⟩
  intro seg hseg
  rw [mem_singleton.1 hseg]
  exact ⟨show hasAny flagSYN flagRST = false by decide,
    show hasAny flagSYN flagFIN = false by decide, fun _ => rfl⟩

theorem openPassive_cases (iss : Value) (wnd : Size) :
    openPassive iss wnd = {} ∨ openPassive iss wnd =
      { tcb := { snd := { iss := iss, una := iss, nxt := iss, wnd := 1 }
                 rcv := { wnd := wnd }
                 state := .listen } } := by
  unfold openPassive ControlBlock.openPassive
  split_ifs
  · exact .inl rfl
  · exact .inl rfl
  · exact .inr rfl

theorem agreed_start (passive : Bool) (issA issB : Value) (wndA wndB : Size) :
    Agreed issA issB (start passive issA issB wndA wndB) := by
  refine ⟨sound_openActive issA issB wndA, ?_⟩
  cases passive with
  | false => exact sound_openActive issB issA wndB
  | true =>
  change Sound issB issA (openPassive issB wndB)
  rcases openPassive_cases issB wndB with h | h
  · rw [h]
    exact ⟨.inl rfl, by simp⟩
  · rw [h]
    exact ⟨.inr (live_opened (.inr rfl) rfl rfl rfl rfl rfl), by simp⟩

theorem arrive_early (hx : Live iss peer x) (hpre : x.tcb.state.isPreestablished)
    (hseg : Plain peer seg) (htimely : Timely x.tcb seg) (h : arrive x seg = .ok x') :
    x' = x ∨ (x'.sent = x.sent ∧
      ((∃ mid pending, x.tcb.Accepts seg mid pending ∧ x'.tcb = mid.acceptSegment seg pending) ∨
        (x.tcb.Challenged seg ∧ (x'.tcb = x.tcb.triggerChallengeAckEmit ∨ x'.tcb = {})))) := by
  unfold arrive at h
  cases hrecv : x.tcb.recv seg with
  | error p =>
    rw [hrecv] at h
    cases h
  | ok out =>
  obtain ⟨tcb, err⟩ := out
  rw [hrecv] at h
  cases h
  rcases recv_kept hseg.noReset hpre (dropCheck_timely hx hpre htimely) hrecv with
    rfl | hacc | ⟨hch, hout⟩
  · left
    simp only [ahead_self, Nat.add_zero]
  · exact .inr ⟨rfl, .inl hacc⟩
  · exact .inr ⟨rfl, .inr ⟨hch, hout⟩⟩

theorem not_challenged_syn (hpre : tcb.state.isPreestablished) (hsyn : hasAny seg.flags flagSYN) :
    ¬ tcb.Challenged seg := by
  rintro ⟨err, herr, hch, -⟩
  have hcheck : tcb.checkSEQ seg = false := by simp [checkSEQ, hpre, hsyn]
  simp only [incomingError, hcheck, Bool.false_eq_true, false_and, if_false] at herr
  split_ifs at herr <;> cases herr <;> cases hch

theorem challengeAcks_commitSend (hst : tcb.state ≠ .closed) (h : tcb.challengeAcks = 0) :
    (tcb.commitSend seg).challengeAcks = 0 := by
  simp only [commitSend, sendState_eq tcb seg hst, advancePending, advanceNxt, setRecvWindow,
    triggerChallengeAckSent]
  split_ifs <;> simp [h]

theorem pends_ack (hp : tcb.Pends payloadLen (some seg)) (hack : hasAny seg.flags flagACK) :
    seg.ack = tcb.rcv.nxt := by
  generalize hout : some seg = out at hp
  cases hp with
  | challenge | resend =>
    cases hout
    rfl
  | nothing => cases hout
  | ordinary =>
    cases hout
    exact if_pos hack

/-- The calling end before the answer: its SYN is out and nothing is queued. -/
structure Calling (iss : Value) (x : End) : Prop where
  block : x.tcb = {} ∨ (x.tcb.state = .synSent ∧ x.tcb.snd.nxt = iss + 1 ∧
    x.tcb.pending0 = 0 ∧ x.tcb.challengeAcks = 0)
  sent : ∀ seg ∈ x.sent, seg.flags = flagSYN ∧ seg.datalen = 0

structure Answer (peer : Value) (seg : Segment) : Prop where
  flags : seg.flags = synack
  ack : seg.ack = peer + 1
  data : seg.datalen = 0

/-- How far the caller `a` and the listener `b` are. -/
inductive Phase (issA issB : Value) (n : Net) : Prop where
  | offered (ha : Calling issA n.a)
      (hb : n.b.tcb = {} ∨
        (n.b.tcb.state = .listen ∧ n.b.tcb.pending0 = 0 ∧ n.b.tcb.challengeAcks = 0))
      (hsent : n.b.sent = [])
  | received (ha : Calling issA n.a) (hst : n.b.tcb.state = .synRcvd)
      (hp : n.b.tcb.pending0 = synack) (hc : n.b.tcb.challengeAcks = 0)
      (hnxt : n.b.tcb.rcv.nxt = issA + 1) (hsent : n.b.sent = [])
  | answered (ha : Calling issA n.a) (hst : n.b.tcb.state = .synRcvd)
      (hp : n.b.tcb.pending0 = 0) (hc : n.b.tcb.challengeAcks = 0)
      (hnxt : n.b.tcb.snd.nxt = issB + 1) (hsent : ∀ seg ∈ n.b.sent, Answer issA seg)
  | joined (ha : n.a.tcb = {} ∨ (n.a.tcb.state = .established ∧ n.a.tcb.rcv.nxt = issB + 1))
      (hack : ∀ seg ∈ n.a.sent, Flags.hasAny seg.flags flagACK = true → seg.ack = issB + 1)
      (hst : n.b.tcb.state = .synRcvd) (hp : n.b.tcb.pending0 = 0)
      (hnxt : n.b.tcb.snd.nxt = issB + 1) (hsent : ∀ seg ∈ n.b.sent, seg.datalen = 0)
  | past (ha : n.a.tcb.state.isPreestablished = false)
      (hb : n.b.tcb.state.isPreestablished = false)

section Passive
variable {issA issB : Value} {n : Net}

theorem Calling.transmit_eq (h : Calling issA x) (payloadLen : ℕ) :
    transmit x payloadLen = .ok x := by
  rcases h.block with hb | ⟨hst, -, hp, hc⟩
  · exact transmit_closed hb payloadLen
  · exact transmit_idle (by rw [hst]; rfl) hp hc payloadLen

theorem Calling.noAck (h : Calling issA x) (hseg : seg ∈ x.sent) :
    hasAny seg.flags flagACK = false := by
  rw [(h.sent seg hseg).1]
  decide

theorem timely_noAck (h : hasAny seg.flags flagACK = false) : Timely tcb seg := by
  intro _ hack
  cases h.symm.trans hack

theorem timely_late (h : tcb.state.isPreestablished = false) : Timely tcb seg := by
  intro hpre
  cases h.symm.trans hpre

theorem Sound.iss_eq (h : Sound iss peer x) (hpre : x.tcb.state.isPreestablished) :
    x.tcb.snd.iss = iss := by
  rcases h.block with hb | hlive
  · rw [hb] at hpre
    cases hpre
  · exact hlive.iss_eq

theorem Calling.timely (hx : Calling issA x) (hsound : Sound issA issB x)
    (hack : seg.ack = issA + 1) : Timely x.tcb seg := by
  intro hpre _
  rw [hsound.iss_eq hpre]
  rcases hx.block with hb | ⟨-, hnxt, -⟩
  · rw [hb] at hpre
    cases hpre
  · exact ⟨hack, hnxt⟩

theorem late_of_joined (h : x.tcb = {} ∨ (x.tcb.state = .established ∧ x.tcb.rcv.nxt = issB + 1)) :
    x.tcb.state.isPreestablished = false := by
  rcases h with h | ⟨h, -⟩ <;> rw [h] <;> rfl

theorem Phase.timely (h : Phase issA issB n) (hn : Agreed issA issB n) (e : Event) :
    AllTimely n e := by
  cases e with
  | sendA | sendB => trivial
  | arriveA i =>
    intro seg hi
    have hseg : seg ∈ n.b.sent := mem_of_getElem? hi
    cases h with
    | offered _ _ hsent | received _ _ _ _ _ hsent =>
      rw [hsent] at hseg
      cases hseg
    | answered ha _ _ _ _ hsent => exact ha.timely hn.a (hsent seg hseg).ack
    | joined ha => exact timely_late (late_of_joined ha)
    | past ha => exact timely_late ha
  | arriveB i =>
  intro seg hi
  have hseg : seg ∈ n.a.sent := mem_of_getElem? hi
  cases h with
  | offered ha | received ha | answered ha => exact timely_noAck (ha.noAck hseg)
  | joined _ hack _ _ hnxt =>
    intro hpre hflag
    rw [hn.b.iss_eq hpre]
    exact ⟨hack seg hseg hflag, hnxt⟩
  | past _ hb => exact timely_late hb

theorem Sound.live_of_ne (h : Sound iss peer x) (hst : x.tcb.state ≠ .closed) :
    Live iss peer x := by
  rcases h.block with hb | hlive
  · rw [hb] at hst
    exact absurd rfl hst
  · exact hlive

theorem late_transmit (hx : Sound iss peer x) (hlate : x.tcb.state.isPreestablished = false)
    (h : transmit x payloadLen = .ok x') : x'.tcb.state.isPreestablished = false := by
  rcases hx.block with hb | hlive
  · rw [transmit_closed hb] at h
    cases h
    exact hlate
  · rw [(transmit_live hlive h).2.2.1]
    exact hlate

theorem late_arrive (hx : Sound iss peer x) (hseg : Plain peer seg)
    (hlate : x.tcb.state.isPreestablished = false) (h : arrive x seg = .ok x') :
    x'.tcb.state.isPreestablished = false := by
  rcases hx.block with hb | hlive
  · rw [arrive_closed hb] at h
    cases h
    exact hlate
  have hest : x.tcb.state = .established := by
    rcases hlive.state with hpre | hest
    · cases hlate.symm.trans hpre
    · exact hest
  rcases (arrive_live hlive hseg (timely_late hlate) h).established hest with hb | ⟨hst, -⟩
  · rw [hb]
    rfl
  · rw [hst]
    rfl

theorem phase_sendA (h : Phase issA issB n) (hn : Agreed issA issB n)
    (ht : transmit n.a payloadLen = .ok a) : Phase issA issB { n with a := a } := by
  have hsame : Phase issA issB { n with a := n.a } := h
  cases h with
  | offered ha | received ha | answered ha =>
    rw [ha.transmit_eq] at ht
    cases ht
    exact hsame
  | joined ha hack hst hp hnxt hsent =>
    rcases ha with hb | ⟨hest, hrcv⟩
    · rw [transmit_closed hb] at ht
      cases ht
      exact hsame
    have hlive := hn.a.live_of_ne (show n.a.tcb.state ≠ .closed by rw [hest]; decide)
    obtain ⟨-, -, hst', hnxt', rfl | ⟨seg, hpends, hadded, -, -⟩⟩ := transmit_live hlive ht
    · exact hsame
    refine .joined (.inr ⟨hst'.trans hest, hnxt'.trans hrcv⟩) ?_ hst hp hnxt hsent
    rw [hadded]
    refine forall_mem_append.2 ⟨hack, ?_⟩
    intro s hs hflag
    rw [mem_singleton.1 hs] at hflag ⊢
    exact (pends_ack hpends hflag).trans hrcv
  | past ha hb => exact .past (late_transmit hn.a ha ht) hb

theorem pends_synRcvd (hst : tcb.state = .synRcvd) (hp : tcb.Pends payloadLen (some seg)) :
    seg.datalen = 0 ∧ (seg.flags = flagACK ∧ tcb.pendingChallengeAck ∨
      seg.flags = tcb.pending0 ∧ (hasAny tcb.pending0 flagRST = false →
        seg.seq = tcb.snd.nxt)) := by
  generalize hout : some seg = out at hp
  cases hp with
  | challenge hc =>
    cases hout
    exact ⟨rfl, .inl ⟨rfl, hc⟩⟩
  | resend hre => simp [hasPendingRetransmit, hst, txDataOpen] at hre
  | nothing => cases hout
  | ordinary =>
  cases hout
  have hclosed : tcb.state.txQueuedDataOpen = false := by rw [hst]; rfl
  have hflags : tcb.pendingFlags = tcb.pending0 := by simp [pendingFlags, hclosed]
  refine ⟨by simp [ordinarySegment, hclosed], .inr ⟨hflags, fun hrst => ?_⟩⟩
  simp [ordinarySegment, hflags, hrst]

theorem commitSend_bare (hst : tcb.state ≠ .closed) (hlen : seg.len = 0) (hp : tcb.pending0 = 0)
    (hnext : tcb.pending1 = 0) :
    (tcb.commitSend seg).pending0 = 0 ∧ (tcb.commitSend seg).snd.nxt = tcb.snd.nxt := by
  obtain ⟨p0, p1, c, nrt, heq, hp0, -⟩ := commitSend_eq tcb seg hst
  rw [heq]
  refine ⟨?_, ?_⟩
  · rw [hp0, hp, hnext]
    simp [clear]
  split_ifs
  · rfl
  · simp [hlen]

theorem commitSend_synack (hst : tcb.state ≠ .closed) (hseq : seg.seq = tcb.snd.nxt)
    (hflags : seg.flags = synack) (hdata : seg.datalen = 0) (hp : tcb.pending0 = synack)
    (hnext : tcb.pending1 = 0) :
    (tcb.commitSend seg).pending0 = 0 ∧ (tcb.commitSend seg).snd.nxt = tcb.snd.nxt + 1 := by
  obtain ⟨p0, p1, c, nrt, heq, hp0, -⟩ := commitSend_eq tcb seg hst
  have hclear : clear synack synack = 0 := by decide
  have hlen : seg.len = 1 := by
    rw [Segment.len_eq, hflags, hdata]
    decide
  rw [heq]
  refine ⟨?_, ?_⟩
  · rw [hp0, hp, hnext, hflags, if_pos hclear]
    simp [clear]
  rw [if_neg, hlen]
  rw [hseq, lessThan_iff, ahead_self]
  omega

theorem phase_sendB (h : Phase issA issB n) (hn : Agreed issA issB n)
    (ht : transmit n.b payloadLen = .ok b) : Phase issA issB { n with b := b } := by
  have hsame : Phase issA issB { n with b := n.b } := h
  cases h with
  | offered _ hb =>
    have hidle : transmit n.b payloadLen = .ok n.b := by
      rcases hb with hb | ⟨hst, hp, hc⟩
      · exact transmit_closed hb payloadLen
      · exact transmit_idle (by rw [hst]; rfl) hp hc payloadLen
    rw [hidle] at ht
    cases ht
    exact hsame
  | received ha hst hp hc hnxt hsent =>
    have hne : n.b.tcb.state ≠ .closed := by rw [hst]; decide
    have hlive := hn.b.live_of_ne hne
    obtain ⟨-, -, hst', -, rfl | ⟨seg, hpends, hadded, -, hcommit⟩⟩ := transmit_live hlive ht
    · exact hsame
    obtain ⟨hdata, ⟨-, hch⟩ | ⟨hflags, hseq⟩⟩ := pends_synRcvd hst hpends
    · simp [pendingChallengeAck, hc] at hch
    have hsyn : hasAny n.b.tcb.pending0 flagSYN := by
      rw [hp]
      decide
    obtain ⟨hp', hnxt'⟩ := commitSend_synack hne (hseq hlive.noReset) (hflags.trans hp) hdata
      hp hlive.nothingNext
    refine .answered ha (hst'.trans hst) ?_ ?_ ?_ ?_ <;> dsimp only
    · rw [hcommit, hp']
    · rw [hcommit, challengeAcks_commitSend hne hc]
    · rw [hcommit, hnxt', (hlive.syn hsyn).2]
    rw [hadded, hsent]
    intro s hs
    rw [nil_append, mem_singleton] at hs
    subst hs
    refine ⟨hflags.trans hp, ?_, hdata⟩
    rw [pends_ack hpends (by rw [hflags, hp]; decide), hnxt]
  | answered _ hst hp hc =>
    rw [transmit_idle (by rw [hst]; rfl) hp hc] at ht
    cases ht
    exact hsame
  | joined ha hack hst hp hnxt hsent =>
    have hne : n.b.tcb.state ≠ .closed := by rw [hst]; decide
    have hlive := hn.b.live_of_ne hne
    obtain ⟨-, -, hst', -, rfl | ⟨seg, hpends, hadded, -, hcommit⟩⟩ := transmit_live hlive ht
    · exact hsame
    obtain ⟨hdata, hflags⟩ := pends_synRcvd hst hpends
    have hlen : seg.len = 0 := by
      rcases hflags with ⟨hflags, -⟩ | ⟨hflags, -⟩
      · exact len_of_ack hflags hdata
      · rw [Segment.len_eq, hflags, hp, hdata]
        decide
    obtain ⟨hp', hnxt'⟩ := commitSend_bare hne hlen hp hlive.nothingNext
    refine .joined ha hack (hst'.trans hst) ?_ ?_ ?_ <;> dsimp only
    · rw [hcommit, hp']
    · rw [hcommit, hnxt', hnxt]
    · rw [hadded]
      exact forall_mem_append.2 ⟨hsent, by simpa using hdata⟩
  | past ha hb => exact .past ha (late_transmit hn.b hb ht)

theorem len_of_syn (h : seg.flags = flagSYN ∨ seg.flags = synack) (hdata : seg.datalen = 0) :
    seg.len = 1 := by
  rcases h with h | h <;> rw [Segment.len_eq, h, hdata] <;> decide

theorem calling_arrive (ha : Calling issA n.a) (hn : Sound issA issB n.a) (hseg : Plain issB seg)
    (hanswer : Answer issA seg) (h : arrive n.a seg = .ok a) : a = n.a ∨
      (a.sent = n.a.sent ∧ a.tcb.state = .established ∧ a.tcb.rcv.nxt = issB + 1) := by
  rcases ha.block with hb | ⟨hst, -⟩
  · rw [arrive_closed hb] at h
    cases h
    exact .inl rfl
  have hpre : n.a.tcb.state.isPreestablished := by rw [hst]; rfl
  have hsyn : hasAny seg.flags flagSYN := by rw [hanswer.flags]; decide
  have hflag : hasAny seg.flags flagACK := by rw [hanswer.flags]; decide
  have hlive := hn.live_of_ne (ne_closed_of_preestablished hpre).1
  rcases arrive_early hlive hpre hseg (ha.timely hn hanswer.ack) h with
    rfl | ⟨hsent, ⟨mid, pending, hacc, htcb⟩ | ⟨hch, -⟩⟩
  · exact .inl rfl
  · right
    obtain ⟨_, _, _, _, _, -, -, -, heq⟩ := acceptSegment_eq mid seg pending
    refine ⟨hsent, ?_⟩
    rw [htcb, heq]
    cases rcvState_handled hacc.handled with
    | synAcked =>
      refine ⟨rfl, ?_⟩
      change seg.seq + seg.len = issB + 1
      rw [hseg.syn hsyn, len_of_syn (.inr hanswer.flags) hanswer.data]
    | simultaneousOpen _ _ hno => cases hno.symm.trans hflag
    | listenSyn h' | opened h' | finished h' => cases hst.symm.trans h'
    | moved hm =>
      cases hm <;> simp_all [isSynchronized]
  · exact absurd hch (not_challenged_syn hpre hsyn)

theorem synRcvd_arrive_syn (hst : n.b.tcb.state = .synRcvd) (hn : Sound issB issA n.b)
    (hseg : Plain issA seg) (hflags : seg.flags = flagSYN) (h : arrive n.b seg = .ok b) :
    b = n.b := by
  have hpre : n.b.tcb.state.isPreestablished := by rw [hst]; rfl
  have hlive := hn.live_of_ne (ne_closed_of_preestablished hpre).1
  have hack : hasAny seg.flags flagACK = false := by rw [hflags]; decide
  rcases arrive_early hlive hpre hseg (timely_noAck hack) h with
    rfl | ⟨-, ⟨mid, pending, hacc, -⟩ | ⟨hch, -⟩⟩
  · rfl
  · cases rcvState_handled hacc.handled with
    | opened _ hall =>
      rw [hflags] at hall
      exact absurd hall (by decide)
    | listenSyn h' | synAcked h' | simultaneousOpen h' | finished h' => cases hst.symm.trans h'
    | moved hm => cases hm <;> simp_all [isSynchronized]
  · exact absurd hch (not_challenged_syn hpre (by rw [hflags]; decide))

theorem listen_arrive (hst : n.b.tcb.state = .listen) (hn : Sound issB issA n.b)
    (hseg : Plain issA seg) (hflags : seg.flags = flagSYN) (hdata : seg.datalen = 0)
    (h : arrive n.b seg = .ok b) :
    b = n.b ∨ (b.sent = n.b.sent ∧ b.tcb.state = .synRcvd ∧ b.tcb.pending0 = synack ∧
      b.tcb.challengeAcks = 0 ∧ b.tcb.rcv.nxt = issA + 1) := by
  have hpre : n.b.tcb.state.isPreestablished := by rw [hst]; rfl
  have hlive := hn.live_of_ne (ne_closed_of_preestablished hpre).1
  have hack : hasAny seg.flags flagACK = false := by rw [hflags]; decide
  have hsyn : hasAny seg.flags flagSYN := by rw [hflags]; decide
  rcases arrive_early hlive hpre hseg (timely_noAck hack) h with
    rfl | ⟨hsent, ⟨mid, pending, hacc, htcb⟩ | ⟨hch, -⟩⟩
  · exact .inl rfl
  · right
    obtain ⟨_, _, _, _, _, -, -, -, heq⟩ := acceptSegment_eq mid seg pending
    refine ⟨hsent, ?_⟩
    rw [htcb, heq]
    cases rcvState_handled hacc.handled with
    | listenSyn =>
      refine ⟨rfl, show synack ||| synack = synack by decide, rfl, ?_⟩
      change seg.seq + seg.len = issA + 1
      rw [hseg.syn hsyn, len_of_syn (.inl hflags) hdata]
    | opened h' | synAcked h' | simultaneousOpen h' | finished h' => cases hst.symm.trans h'
    | moved hm => cases hm <;> simp_all [isSynchronized]
  · exact absurd hch (not_challenged_syn hpre hsyn)

theorem phase_arriveA (h : Phase issA issB n) (hn : Agreed issA issB n) (hseg : seg ∈ n.b.sent)
    (ht : arrive n.a seg = .ok a) : Phase issA issB { n with a := a } := by
  have hplain := hn.b.sent seg hseg
  have hsame : Phase issA issB { n with a := n.a } := h
  cases h with
  | offered _ _ hsent | received _ _ _ _ _ hsent =>
    rw [hsent] at hseg
    cases hseg
  | answered ha hst hp hc hnxt hsent =>
    rcases calling_arrive ha hn.a hplain (hsent seg hseg) ht with rfl | ⟨hkept, hest, hrcv⟩
    · exact hsame
    refine .joined (.inr ⟨hest, hrcv⟩) ?_ hst hp hnxt fun s hs => (hsent s hs).data
    intro s hs hflag
    rw [hkept] at hs
    cases (ha.noAck hs).symm.trans hflag
  | joined ha hack hst hp hnxt hsent =>
    rcases ha with hb | ⟨hest, hrcv⟩
    · rw [arrive_closed hb] at ht
      cases ht
      exact hsame
    have hlive := hn.a.live_of_ne (show n.a.tcb.state ≠ .closed by rw [hest]; decide)
    have hlate : n.a.tcb.state.isPreestablished = false := by rw [hest]; rfl
    have hout := arrive_live hlive hplain (timely_late hlate) ht
    have hack' : ∀ s ∈ a.sent, hasAny s.flags flagACK → s.ack = issB + 1 := by
      rw [hout.sent]
      exact hack
    refine .joined ?_ hack' hst hp hnxt hsent
    rcases hout.established hest with hb | ⟨hst', hkept | ⟨hsyn, hmoved⟩⟩
    · exact .inl hb
    · exact .inr ⟨hst', hkept.trans hrcv⟩
    refine .inr ⟨hst', ?_⟩
    have hlen : seg.len = 0 := by
      rw [Segment.len_eq, hsent seg hseg, hsyn, hplain.noFin]
      rfl
    rw [hmoved, hlen, hrcv]
    simp
  | past ha hb => exact .past (late_arrive hn.a hplain ha ht) hb

theorem phase_arriveB (h : Phase issA issB n) (hn : Agreed issA issB n) (hseg : seg ∈ n.a.sent)
    (htimely : Timely n.b.tcb seg) (ht : arrive n.b seg = .ok b) :
    Phase issA issB { n with b := b } := by
  have hplain := hn.a.sent seg hseg
  have hsame : Phase issA issB { n with b := n.b } := h
  cases h with
  | offered ha hb hsent =>
    rcases hb with hb | ⟨hst, -⟩
    · rw [arrive_closed hb] at ht
      cases ht
      exact hsame
    obtain ⟨hflags, hdata⟩ := ha.sent seg hseg
    rcases listen_arrive hst hn.b hplain hflags hdata ht with rfl | ⟨hkept, hst', hp', hc', hnxt⟩
    · exact hsame
    · exact .received ha hst' hp' hc' hnxt (hkept.trans hsent)
  | received ha hst | answered ha hst =>
    rw [synRcvd_arrive_syn hst hn.b hplain (ha.sent seg hseg).1 ht]
    exact hsame
  | joined ha hack hst hp hnxt hsent =>
    have hpre : n.b.tcb.state.isPreestablished := by rw [hst]; rfl
    have hlive := hn.b.live_of_ne (ne_closed_of_preestablished hpre).1
    have hlate : n.a.tcb.state.isPreestablished = false := late_of_joined ha
    rcases arrive_early hlive hpre hplain htimely ht with
      rfl | ⟨hkept, ⟨mid, pending, hacc, htcb⟩ | ⟨-, htcb | htcb⟩⟩
    · exact hsame
    · refine .past hlate ?_
      rw [htcb, acceptSegment_state]
      cases rcvState_handled hacc.handled with
      | opened => rfl
      | listenSyn h' | synAcked h' | simultaneousOpen h' | finished h' => cases hst.symm.trans h'
      | moved hm => cases hm <;> simp_all [isSynchronized]
    · obtain ⟨c, hemit⟩ := triggerChallengeAckEmit_eq n.b.tcb
      rw [hemit] at htcb
      refine .joined ha hack ?_ ?_ ?_ ?_ <;> dsimp only
      · rw [htcb]
        exact hst
      · rw [htcb]
        exact hp
      · rw [htcb]
        exact hnxt
      · rw [hkept]
        exact hsent
    refine .past hlate ?_
    rw [htcb]
    rfl
  | past ha hb => exact .past ha (late_arrive hn.b hplain hb ht)

theorem phase_step {n' : Net} {e : Event} (h : Phase issA issB n) (hn : Agreed issA issB n)
    (hs : step n e = .ok n') : Phase issA issB n' := by
  cases e with
  | sendA payloadLen =>
    obtain ⟨x, hx, rfl⟩ := map_ok hs
    exact phase_sendA h hn hx
  | sendB payloadLen =>
    obtain ⟨x, hx, rfl⟩ := map_ok hs
    exact phase_sendB h hn hx
  | arriveA i =>
    simp only [step] at hs
    cases hi : n.b.sent[i]? with
    | none =>
      rw [hi] at hs
      cases hs
      exact h
    | some seg =>
    rw [hi] at hs
    obtain ⟨x, hx, rfl⟩ := map_ok hs
    exact phase_arriveA h hn (mem_of_getElem? hi) hx
  | arriveB i =>
  simp only [step] at hs
  cases hi : n.a.sent[i]? with
  | none =>
    rw [hi] at hs
    cases hs
    exact h
  | some seg =>
  rw [hi] at hs
  obtain ⟨x, hx, rfl⟩ := map_ok hs
  exact phase_arriveB h hn (mem_of_getElem? hi) (h.timely hn (.arriveB i) seg hi) hx

theorem phase_start (issA issB : Value) (wndA wndB : Size) :
    Phase issA issB (start true issA issB wndA wndB) := by
  refine .offered ?_ ?_ ?_
  · rcases openActive_cases issA wndA with h | h
    · exact ⟨.inl (by rw [start, h]), by rw [start, h]; simp⟩
    refine ⟨.inr ?_, ?_⟩
    · rw [start, h]
      exact ⟨rfl, rfl, rfl, rfl⟩
    rw [start, h]
    intro seg hseg
    rw [mem_singleton.1 hseg]
    exact ⟨rfl, rfl⟩
  · rcases openPassive_cases issB wndB with h | h
    · exact .inl (by simp [start, h])
    · exact .inr (by simp [start, h])
  · rcases openPassive_cases issB wndB with h | h <;> simp [start, h]

end Passive

theorem agreed_run (passive : Bool) (issA issB : Value) (wndA wndB : Size) (events : List Event)
    (n : Net) (hrun : exec step (start passive issA issB wndA wndB) events = .ok n)
    (htimely : passive = false →
      Guarded step AllTimely (start passive issA issB wndA wndB) events) : Agreed issA issB n := by
  have hinit := agreed_start passive issA issB wndA wndB
  cases passive with
  | false =>
    exact exec_invariant (fun _ _ _ hn ht hs => agreed_step hn ht hs) events _ _ hinit
      (htimely rfl) hrun
  | true =>
  have hboth : Agreed issA issB n ∧ Phase issA issB n := by
    refine exec_always (I := fun n => Agreed issA issB n ∧ Phase issA issB n) ?_ events _ _
      ⟨hinit, phase_start issA issB wndA wndB⟩ hrun
    rintro m e m' ⟨hm, hphase⟩ hs
    exact ⟨agreed_step hm (hphase.timely hm e) hs, phase_step hphase hm hs⟩
  exact hboth.1

theorem Sound.noReset (h : Sound iss peer x) :
    hasAny x.tcb.pending0 flagRST = false ∧ hasAny x.tcb.pending1 flagRST = false := by
  rcases h.block with hb | hlive
  · rw [hb]
    decide
  · exact ⟨hlive.noReset, by rw [hlive.nothingNext]; decide⟩

/-- Two ends that call each other, or a caller and a listener, never queue a reset, and once
both are ESTABLISHED each knows where the other began and had its SYN acknowledged. A
simultaneous open needs timely ACKs: entering SYN-RECEIVED winds snd.NXT back to ISS, and
the SYN|ACK of the other end then seems to acknowledge what was never sent. -/
theorem handshake_agreement (passive : Bool) (issA issB : Value) (wndA wndB : Size)
    (events : List Event) (n : Net)
    (hrun : exec step (start passive issA issB wndA wndB) events = .ok n)
    (htimely : passive = false →
      Guarded step AllTimely (start passive issA issB wndA wndB) events) :
    (Flags.hasAny n.a.tcb.pending0 flagRST = false ∧
      Flags.hasAny n.a.tcb.pending1 flagRST = false) ∧
    (Flags.hasAny n.b.tcb.pending0 flagRST = false ∧
      Flags.hasAny n.b.tcb.pending1 flagRST = false) ∧
    (n.a.tcb.state = .established → n.b.tcb.state = .established →
      n.a.tcb.rcv.irs = n.b.tcb.snd.iss ∧ n.b.tcb.rcv.irs = n.a.tcb.snd.iss ∧
      (n.a.tcb.snd.una = advance n.a.tcb.snd.iss n.a.acked ∧ 1 ≤ n.a.acked) ∧
      (n.b.tcb.snd.una = advance n.b.tcb.snd.iss n.b.acked ∧ 1 ≤ n.b.acked)) := by
  have hn := agreed_run passive issA issB wndA wndB events n hrun htimely
  refine ⟨hn.a.noReset, hn.b.noReset, fun ha hb => ?_⟩
  have hla := hn.a.live_of_ne (show n.a.tcb.state ≠ .closed by rw [ha]; decide)
  have hlb := hn.b.live_of_ne (show n.b.tcb.state ≠ .closed by rw [hb]; decide)
  rw [hla.iss_eq, hlb.iss_eq]
  exact ⟨hla.irs_eq (.inr ha), hlb.irs_eq (.inr hb), ⟨hla.una_eq, hla.synAcked ha⟩,
    ⟨hlb.una_eq, hlb.synAcked hb⟩⟩

def threeWay : List Event := [.arriveB 0, .sendB 0, .arriveA 0, .sendA 0, .arriveB 1]

def bothCall : List Event :=
  [.arriveA 0, .arriveB 0, .sendA 0, .sendB 0, .arriveA 1, .arriveB 1]

theorem handshake_agreement_threeWay : (∃ n,
    exec step (start true 100 300 1000 2000) threeWay = .ok n ∧
    n.a.tcb.state = .established ∧ n.b.tcb.state = .established ∧ n.b.tcb.rcv.irs = 100 ∧
    n.a.tcb.rcv.irs = n.b.tcb.snd.iss ∧ 1 ≤ n.a.acked) ∧
    ∃ n, exec step (start false 100 300 1000 2000) bothCall = .ok n ∧
      n.a.tcb.state = .established ∧ n.b.tcb.state = .established ∧
      n.a.tcb.rcv.irs = n.b.tcb.snd.iss ∧ 1 ≤ n.a.acked := by
  obtain ⟨n, hrun, ha, hb, hirs⟩ : ∃ n,
      exec step (start true 100 300 1000 2000) threeWay = .ok n ∧
      (n.a.tcb.state = .established ∧ n.b.tcb.state = .established ∧ n.b.tcb.rcv.irs = 100) :=
    exists_exec (by decide +kernel)
  obtain ⟨n', hrun', ha', hb'⟩ : ∃ n,
      exec step (start false 100 300 1000 2000) bothCall = .ok n ∧
      (n.a.tcb.state = .established ∧ n.b.tcb.state = .established) :=
    exists_exec (by decide +kernel)
  have hagree := (handshake_agreement true 100 300 1000 2000 threeWay n hrun
    (by simp)).2.2 ha hb
  have hagree' := (handshake_agreement false 100 300 1000 2000 bothCall n' hrun'
    fun _ => by decide +kernel).2.2 ha' hb'
  exact ⟨⟨n, hrun, ha, hb, hirs, hagree.1, hagree.2.2.1.2⟩,
    n', hrun', ha', hb', hagree'.1, hagree'.2.2.1.2⟩

/-- Both ends take the other's SYN; B answers first, and A, whose snd.NXT is back at its ISS,
queues a reset. -/
theorem simultaneous_open_resets : ∃ n,
    exec step (start false 100 300 1000 2000) [.arriveA 0, .arriveB 0, .sendB 0, .arriveA 1] =
      .ok n ∧ n.a.tcb.state = .synRcvd ∧ n.a.tcb.pending0 = flagRST :=
  exists_exec (by decide +kernel)

end Lneto.Handshake
