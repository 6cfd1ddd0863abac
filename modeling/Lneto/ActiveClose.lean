import Lneto.FinTracking
import Lneto.SendProgress

/-!
Active close over whole runs of a handler: what makes it leave FIN-WAIT-1.
A run carries the sequence number of the last FIN that Send put in a frame.
-/
namespace Lneto.ActiveClose

open Segments SerialNumbers GuardedRuns Control FinTracking FinTracking.Tracked Frames Connection
  Flags ControlBlock

variable {scb scb' : ControlBlock} {fin : Option Value} {h h' : Handler} {seg : Segment}
  {err : Option Err} {op : HandlerOp} {pol : PolicyTx}

/-- A handler and the sequence number of the last FIN it sent. -/
structure Closing where
  h : Handler := {}
  fin : Option Value := none

variable {s s' : Closing}

def finAfter (fin : Option Value) (r : SendResult) : Option Value :=
  match r.frame with
  | some frame => if Flags.hasAny frame.seg.flags flagFIN then some frame.seg.last else fin
  | none => fin

def step (s : Closing) : HandlerOp → Except Panic Closing
  | .send len extra pol =>
    (s.h.send len (len + extra) pol).map fun r => { h := r.1, fin := finAfter s.fin r.2 }
  | op => (s.h.handlerStep op).map fun h => { s with h := h }

/-- No rewind is taken, no byte is unsent, what is kept lies below snd.NXT and no SYN is queued. -/
def Parked (h : Handler) (pol : PolicyTx) : Prop :=
  ((h.policyEnabled && pol.doRtx) = true → (Value.lessThan pol.rtxFrom h.scb.snd.una ||
      Value.lessThan h.scb.snd.nxt pol.rtxFrom) = true) ∧
    h.bufTx.unsentRing.isEmpty = true ∧
    (∀ pkt ∈ h.bufTx.slist.pkts, Value.lessThan pkt.seq h.scb.snd.nxt = true) ∧
    hasAny h.scb.pending0 flagSYN = false

instance (h : Handler) (pol : PolicyTx) : Decidable (Parked h pol) :=
  inferInstanceAs (Decidable (_ ∧ _))

def FinLast (s : Closing) : HandlerOp → Prop
  | .send _ _ pol => s.h.scb.state = .finWait1 → Parked s.h pol
  | _ => True

instance (s : Closing) (op : HandlerOp) : Decidable (FinLast s op) :=
  match op with
  | .send _ _ pol => inferInstanceAs (Decidable (s.h.scb.state = .finWait1 → Parked s.h pol))
  | .setBuffers _ _ _ | .setPolicy _ | .openActive _ _ _ | .openListen _ _ | .abort
  | .recv _ _ | .close | .shutdownRead | .write _ | .read _ | .requeue => isTrue trivial

/-- Only FIN-WAIT-1 is watched, and nothing follows the FIN there. -/
def finWatch : Watch where
  states st := st == .finWait1
  bound := 1
  pos := Nat.one_pos
  closing h := by cases h
  only st h := Or.inl (by simpa using h)

def tracked (scb : ControlBlock) (fin : Option Value) : Tracked :=
  { tcb := scb, fin := fin.map fun f => ⟨f, 0⟩ }

def Placed (scb : ControlBlock) (fin : Option Value) : Prop :=
  (tracked scb fin).FinPlaced finWatch

theorem Placed.nxt (h : Placed scb fin) (hst : scb.state = .finWait1) :
    ∃ f, fin = some f ∧ scb.snd.nxt = f + 1 := by
  obtain ⟨⟨f, k⟩, hf, hnxt, hk⟩ := h.placed (by simp [finWatch, tracked, hst]) (h.taken (.inl hst))
  simp only [tracked, Option.map_eq_some_iff] at hf
  obtain ⟨g, hg, heq⟩ := hf
  cases heq
  exact ⟨f, hg, hnxt⟩

theorem Placed.kept (h : Placed scb fin) (hwindow : scb'.snd.wnd ≤ maxWindow)
    (hsecond : scb'.pending1 = scb.pending1)
    (hpending : scb'.pending0 = scb.pending0 ∨ scb'.pending0 = scb.pending0 ||| flagACK)
    (hnxt : scb'.snd.nxt = scb.snd.nxt) (hst : scb'.state = scb.state) : Placed scb' fin :=
  FinPlaced.kept h hwindow hsecond hpending hnxt (.inl hst)

theorem placed_abort (scb : ControlBlock) (fin : Option Value) : Placed scb.abort fin :=
  finPlaced_abort (s := tracked scb fin)

theorem placed_queueRST (h : Placed scb fin) (seq : Value) : Placed (scb.queueRST seq) fin := by
  have hnone : hasAny flagRST flagFIN = false := by decide
  refine ⟨h.window, rfl, fun hfin => ?_, fun _ => hnone, fun hw _ => ?_⟩
  · exact absurd (hnone.symm.trans hfin) (by simp)
  have hst : (tracked (scb.queueRST seq) fin).tcb.state = .finWait1 := by simpa [finWatch] using hw
  exact h.placed hw (h.taken (.inl hst))

theorem placed_received {keep : Bool} {pkt : List UInt8} (hin : InBounds h.bufRx)
    (hp : Placed h.scb fin) (hout : Handler.Received h keep pkt h' err) : Placed h'.scb fin := by
  rcases Handler.received_scb hin hout with ⟨-, heq | heq⟩ | ⟨_, _, _, scb, _, -, hb, hset⟩
  · rw [heq]
    exact hp
  · rw [heq]
    exact hp.kept hp.window rfl (.inr rfl) rfl rfl
  have hpb : Placed scb fin := finPlaced_recv (s := tracked h.scb fin) hp hb
  generalize h'.scb = out at hset ⊢
  cases hset with
  | verdict => exact hpb
  | reset => exact placed_queueRST hpb _
  | taken d mss hpend => exact hpb.kept hpb.window rfl hpend rfl rfl

theorem placed_sent (hp : Placed scb fin) (hq : Queued scb seg) (hsend : (scb.send seg).2 = none)
    (hspace : scb.state = .finWait1 → spaceUsed scb seg = 0) : Placed (scb.commitSend seg)
      (if hasAny seg.flags flagFIN then some seg.last else fin) := by
  have hsent := finPlaced_sent (s := tracked scb fin) hp hq (by
    intro hw f hf
    have hst : scb.state = .finWait1 := by simpa [finWatch, tracked] using hw
    simp only [tracked, Option.map_eq_some_iff] at hf
    obtain ⟨g, -, rfl⟩ := hf
    have := hspace hst
    simp only [tracked, finWatch]
    omega)
  have heq : (tracked scb fin).tcb.send seg = (scb.commitSend seg, none) :=
    Prod.ext (send_ok hsend).2 hsend
  unfold sent at hsent
  rw [heq] at hsent
  simp only [] at hsent
  by_cases hclosed : scb.state = .closed
  · have hval := (send_ok hsend).1
    have hcommit := (scb.commitSend_closed seg hclosed hval).2
    refine hsent.refin ?_ ?_
    · simp only [tracked, hclosed, if_true]
    · simp [tracked, hclosed, hcommit, finWatch]
  rw [if_neg (by simpa [tracked] using hclosed)] at hsent
  cases hfin : hasAny seg.flags flagFIN with
  | true =>
    rw [hfin, if_pos rfl] at hsent
    exact hsent
  | false =>
  rw [hfin, if_neg (by simp)] at hsent
  refine hsent.refin rfl ?_
  intro hw
  obtain ⟨p0, p1, c, nrt, hcs, -⟩ := scb.commitSend_eq seg hclosed
  have hst' : sentState scb.state seg.flags = .finWait1 := by simpa [finWatch, hcs] using hw
  have hst : scb.state = .finWait1 := by
    rcases sentState_noFin scb.state hfin with h | h
    · rw [← h]
      exact hst'
    · rw [h] at hst'
      cases hst'
  have hsp := hspace hst
  simp [tracked, hsp, Function.comp_def]

theorem Parked.preTx (hp : Parked h pol) (hst : h.scb.state = .finWait1) :
    (h.preTx pol).autoClose = h := by
  have hpre : h.preTx pol = h := by
    unfold Handler.preTx
    split
    · rename_i hdo
      simp [retransmitFrom, hst, State.txQueuedDataOpen, State.txDataOpen, hp.1 hdo]
    · rfl
  rw [hpre, Handler.autoClose, if_neg fun hc => by rw [hst] at hc; cases hc.1]

theorem placed_preTx (hp : Placed h.scb fin)
    (hguard : h.scb.state = .finWait1 → Parked h pol) :
    Placed (h.preTx pol).autoClose.scb fin := by
  by_cases hst : h.scb.state = .finWait1
  · rw [(hguard hst).preTx hst]
    exact hp
  obtain ⟨nxt, dup, nrt, heq⟩ := h.preTx_scb pol
  rw [Handler.autoClose_scb, heq]
  refine ⟨hp.window, hp.second, hp.noReset, hp.taken, fun hw => ?_⟩
  exact absurd (by simpa [finWatch, tracked] using hw) hst

/-- A parked ring repeats a packet or gives nothing. -/
theorem makePacket_parked {n : ℕ} {seq : Value} {tx : TransmitRing.RingTx} {bytes : List UInt8}
    (hp : Parked h pol) (hmake : h.bufTx.makePacket n seq = .ok (tx, bytes, none)) :
    bytes = [] ∨ Value.lessThan seq h.scb.snd.nxt = true := by
  obtain ⟨-, hunsent, hkept, -⟩ := hp
  unfold TransmitRing.RingTx.makePacket at hmake
  split_ifs at hmake with hfull hold
  · cases hmake
  · right
    unfold TransmitRing.RingTx.resendPacket at hmake
    cases hfind : h.bufTx.slist.pkts.find? fun pkt => pkt.seq == seq with
    | none =>
      rw [hfind] at hmake
      cases hmake
    | some pkt =>
      have hseq : pkt.seq = seq := by simpa using List.find?_some hfind
      exact hseq ▸ hkept pkt (List.mem_of_find?_eq_some hfind)
  · rw [TransmitRing.RingTx.newPacket, if_pos hunsent] at hmake
    cases hmake
    exact .inl rfl

/-- In FIN-WAIT-1 nothing but an ACK or a repetition goes out, unless it ends the connection. -/
theorem parked_space {mid : Handler} {room offset : ℕ} {options payload : List UInt8}
    (hst : h.scb.state = .finWait1) (hp : Parked h pol)
    (hnone : hasAny h.scb.pending0 flagFIN = false) (hrst : hasAny seg.flags flagRST = false)
    (hch : Handler.Chosen h false room mid (.segment seg offset options payload)) :
    spaceUsed h.scb seg = 0 := by
  have hfin : hasAny h.scb.pendingFlags flagFIN = false := by
    rw [h.scb.hasAny_pendingFlags (by decide)]
    exact hnone
  have hsyn : hasAny h.scb.pendingFlags flagSYN = false := by
    rw [h.scb.hasAny_pendingFlags (by decide)]
    exact hp.2.2.2
  have hclear : ∀ {s : Segment}, h.scb.Pends room (some s) →
      hasAny s.flags flagFIN = false ∧ hasAny s.flags flagSYN = false := by
    intro s hs
    cases hs with
    | challenge | resend =>
      exact ⟨show hasAny flagACK flagFIN = false by decide,
        show hasAny flagACK flagSYN = false by decide⟩
    | ordinary => exact ⟨hfin, hsyn⟩
  have hlen : seg.len = 0 → spaceUsed h.scb seg = 0 := by
    intro hzero
    rw [spaceUsed, hzero]
    split_ifs <;> rfl
  cases hch with
  | syn hwhy =>
    rcases hwhy with hno | ⟨-, hno⟩
    · cases hno
    · rw [hst] at hno
      cases hno
  | synackAgain hno =>
    rw [hst] at hno
    cases hno
  | @bare s hs hwhy =>
    obtain ⟨hf, hy⟩ := hclear hs
    refine hlen (SendProgress.len_eq_zero (hwhy.resolve_left fun heq => ?_) hf hy)
    rw [heq] at hy
    exact absurd hy (by decide)
  | @filled s tx _ hs _ _ hmake =>
  obtain ⟨hf, hy⟩ := hclear hs
  rcases makePacket_parked hp hmake with rfl | hless
  · exact hlen (SendProgress.len_eq_zero rfl hf hy)
  · exact if_pos hless

theorem chosen_queued {mid : Handler} {awaitingSyn : Bool} {room offset : ℕ}
    {options payload : List UInt8}
    (hch : Handler.Chosen h awaitingSyn room mid (.segment seg offset options payload)) :
    Queued mid.scb seg := by
  cases hch with
  | syn => exact queued_syn _ _ _
  | synackAgain =>
    intro hfin
    exact absurd (show hasAny synack flagFIN from hfin) (by decide)
  | bare hp => exact queued_of_pends hp rfl (BitVec.le_refl _) (.inl rfl)
  | filled hp hsyn hdata hmake =>
  refine queued_of_pends hp rfl ?_ ?_
  · have hlen := length_makePacket_le hmake
    simp only [Handler.dataSegment]
    bv_omega
  simp only [Handler.dataSegment]
  split_ifs
  · exact .inl rfl
  · exact .inr rfl

theorem finWait1_of_close {tcb : ControlBlock} (h : tcb.close.1.state = .finWait1) :
    tcb.state = .finWait1 := by
  unfold close at h
  split at h <;> simp_all [abort, reset]

theorem placed_sends {len : ℕ} {r : SendResult} (hp : Placed h.scb fin)
    (hguard : h.scb.state = .finWait1 → Parked h pol)
    (hout : Handler.Sends h len pol h' r) : Placed h'.scb (finAfter fin r) := by
  have hpre := placed_preTx hp hguard
  have hstate : (h.preTx pol).autoClose.scb.state = h.scb.state := by
    obtain ⟨_, _, _, heq⟩ := h.preTx_scb pol
    rw [Handler.autoClose_scb, heq]
  cases hout with
  | idle => exact hp
  | quiet => exact hpre
  | ended =>
    exact placed_abort (h.preTx pol).autoClose.scb fin
  | @transmitted mid _ awaitingSyn _ _ hstart ht =>
  have hmid : Placed mid.scb fin ∧ (mid.scb.state = .finWait1 → h.scb.state = .finWait1 ∧
      mid = (h.preTx pol).autoClose ∧ awaitingSyn = false) := by
    cases hstart with
    | going => exact ⟨hpre, fun hst => ⟨hstate ▸ hst, rfl, by simp [Handler.awaitingSynSend, hst]⟩⟩
    | closed hdue hclose =>
      refine ⟨finPlaced_close hpre, fun hst => ?_⟩
      have hst' := finWait1_of_close hst
      simp [close, hst'] at hclose
  cases ht with
  | yielded hch | refused hch =>
    rw [Handler.chosen_scb hch]
    exact hmid.1
  | @emitted mid' seg offset options payload hch hsend =>
  have hscb := Handler.chosen_scb hch
  change Placed _ (if hasAny seg.flags flagFIN then some seg.last else fin)
  by_cases hends : mid'.scb.state = .finWait1 ∧ hasAny seg.flags flagRST = true
  · rw [Handler.afterSend, if_neg fun hc => State.noConfusion (hends.1.symm.trans hc.1),
      if_pos hends.2]
    exact placed_abort mid'.scb _
  have hspace : mid'.scb.state = .finWait1 → spaceUsed mid'.scb seg = 0 := by
    intro hst
    have hrst : hasAny seg.flags flagRST = false :=
      Bool.eq_false_iff.2 fun hrst => hends ⟨hst, hrst⟩
    rw [hscb] at hst ⊢
    obtain ⟨hst₀, rfl, rfl⟩ := hmid.2 hst
    have hsame := (hguard hst₀).preTx hst₀
    rw [hsame] at hch ⊢
    exact parked_space hst₀ (hguard hst₀) (hp.taken (.inl hst₀)) hrst hch
  have hsent := placed_sent (hscb ▸ hmid.1) (chosen_queued hch) hsend hspace
  generalize (if hasAny seg.flags flagFIN then some seg.last else fin) = fin' at hsent ⊢
  unfold Handler.afterSend
  split_ifs
  · exact hsent
  · exact placed_abort mid'.scb fin'
  · exact hsent

theorem placed_touched (hp : Placed scb fin) (htouch : Handler.Touched scb scb') :
    Placed scb' fin := by
  have hnone : hasAny 0 flagFIN → hasAny 0 flagRST = false := fun hfin => absurd hfin (by decide)
  cases htouch with
  | eased d wnd hpend => exact hp.kept hp.window rfl hpend rfl rfl
  | cleared =>
    exact finPlaced_of_quiet (show (0 : Size) ≤ maxWindow by decide) rfl hnone
      (by simp [Quiet, tracked, reset, setRecvWindow])
  | listening =>
    exact finPlaced_of_quiet (show (1 : Size) ≤ maxWindow by decide) rfl hnone
      (by simp [Quiet, tracked, prepareToHandshake, resetSnd])

structure Sound (s : Closing) : Prop where
  inBounds : InBounds s.h.bufRx
  placed : Placed s.h.scb s.fin

theorem step_other (hsend : ∀ len extra pol, op ≠ .send len extra pol) (hstep : step s op = .ok s')
    : ∃ h, s.h.handlerStep op = .ok h ∧ { s with h := h } = s' := by
  refine map_ok (Eq.trans ?_ hstep)
  cases op with
  | send len extra pol => exact absurd rfl (hsend len extra pol)
  | _ => rfl

theorem sound_step (hs : Sound s) (hguard : FinLast s op) (hstep : step s op = .ok s') :
    Sound s' := by
  by_cases hsend : ∃ len extra pol, op = .send len extra pol
  · obtain ⟨len, extra, pol, rfl⟩ := hsend
    obtain ⟨r, hr, rfl⟩ := map_ok hstep
    have hout := Handler.sends_of_send hr
    exact ⟨Handler.sends_inBounds hs.inBounds hout, placed_sends hs.placed hguard hout⟩
  have hnot : ∀ len extra pol, op ≠ .send len extra pol :=
    fun len extra pol heq => hsend ⟨len, extra, pol, heq⟩
  obtain ⟨h', hh, rfl⟩ := step_other hnot hstep
  refine ⟨Handler.step_inBounds hs.inBounds hh, ?_⟩
  by_cases hrecv : ∃ keep pkt, op = .recv keep pkt
  · obtain ⟨keep, pkt, rfl⟩ := hrecv
    obtain ⟨err, hr⟩ := map_fst_ok hh
    exact placed_received hs.inBounds hs.placed (Handler.received_of_recv hs.inBounds hr)
  · exact placed_touched hs.placed (Handler.step_touched hs.inBounds
      (fun keep pkt heq => hrecv ⟨keep, pkt, heq⟩) hnot hh)

theorem sound_init : Sound {} := by
  refine ⟨⟨le_rfl, le_rfl⟩, finPlaced_of_quiet (show (0 : Size) ≤ maxWindow by decide) rfl ?_ ?_⟩
  · intro hfin
    exact absurd (show hasAny 0 flagFIN from hfin) (by decide)
  · simp [Quiet, tracked]

theorem run_sound {ops : List HandlerOp} (hops : Guarded step FinLast {} ops)
    (hrun : exec step {} ops = .ok s) : Sound s :=
  exec_invariant (I := Sound) (fun _ _ _ hs hg hstep => sound_step hs hg hstep) ops {} s
    sound_init hops hrun

/-- The call receives a segment that acknowledges the FIN. -/
def AcksFin (h : Handler) (op : HandlerOp) (fin : Value) : Prop :=
  ∃ keep pkt tfrm payload seg, op = .recv keep pkt ∧ h.Reaches keep pkt tfrm payload seg ∧
    Flags.hasAny seg.flags flagACK = true ∧ seg.ack = fin + 1

theorem sends_finWait1 {len : ℕ} {r : SendResult} (hst : h.scb.state = .finWait1)
    (hout : Handler.Sends h len pol h' r) : h'.scb.state = .finWait1 ∨ h'.scb.state = .closed := by
  have hpre : (h.preTx pol).autoClose.scb.state = .finWait1 := by
    obtain ⟨_, _, _, heq⟩ := h.preTx_scb pol
    rw [Handler.autoClose_scb, heq]
    exact hst
  cases hout with
  | idle => exact .inl hst
  | quiet => exact .inl hpre
  | ended => exact .inr rfl
  | @transmitted mid _ _ _ _ hstart ht =>
  have hmid : mid.scb.state = .finWait1 := by
    cases hstart with
    | going => exact hpre
    | closed hdue hclose => simp [close, hpre] at hclose
  cases ht with
  | yielded hch | refused hch => exact .inl (by rw [Handler.chosen_scb hch]; exact hmid)
  | @emitted mid' seg _ _ _ hch =>
  have hmid' : mid'.scb.state = .finWait1 := by rw [Handler.chosen_scb hch]; exact hmid
  have hsent : (mid'.scb.commitSend seg).state = .finWait1 := by
    obtain ⟨p0, p1, c, nrt, heq, -⟩ := mid'.scb.commitSend_eq seg (by simp [hmid'])
    rw [heq]
    simp [hmid', sentState]
  unfold Handler.afterSend
  split_ifs
  · exact .inl hsent
  · exact .inr rfl
  · exact .inl hsent

theorem recv_leaves_finWait1 (hst : scb.state = .finWait1) (hrecv : scb.recv seg = .ok (scb', err))
    (hnew : scb'.state = .finWait2 ∨ scb'.state = .timeWait) :
    hasAny seg.flags flagACK ∧ seg.ack = scb.snd.nxt := by
  have hemit : scb.triggerChallengeAckEmit.state = .finWait1 := by
    obtain ⟨c, heq⟩ := scb.triggerChallengeAckEmit_eq
    rw [heq]
    exact hst
  have hout := recv_outcome hrecv
  cases hout with
  | @accepted mid pending hacc =>
    rw [acceptSegment_state] at hnew
    cases rcvState_handled hacc.handled with
    | moved hmove =>
      cases hmove with
      | bothFins _ _ hack hnum => exact ⟨hack, hnum⟩
      | ownFinAcked _ hack hnum => exact ⟨hack, hnum⟩
      | _ => simp_all
    | _ => simp_all
  | limit | rstAbort => simp [abort, reset] at hnew
  | preReset hpre => simp [hst, State.isPreestablished] at hpre
  | _ => simp_all

theorem leaves_by_fin_ack {f : Value} (hs : Sound s) (hst : s.h.scb.state = .finWait1)
    (hnxt : s.h.scb.snd.nxt = f + 1) (hstep : step s op = .ok s')
    (hnew : s'.h.scb.state = .finWait2 ∨ s'.h.scb.state = .timeWait) : AcksFin s.h op f := by
  by_cases hsend : ∃ len extra pol, op = .send len extra pol
  · obtain ⟨len, extra, pol, rfl⟩ := hsend
    obtain ⟨r, hr, rfl⟩ := map_ok hstep
    rcases sends_finWait1 hst (Handler.sends_of_send hr) with h1 | h1 <;> simp [h1] at hnew
  have hnot : ∀ len extra pol, op ≠ .send len extra pol :=
    fun len extra pol heq => hsend ⟨len, extra, pol, heq⟩
  obtain ⟨h', hh, rfl⟩ := step_other hnot hstep
  by_cases hrecv : ∃ keep pkt, op = .recv keep pkt
  · obtain ⟨keep, pkt, rfl⟩ := hrecv
    obtain ⟨err, hr⟩ := map_fst_ok hh
    rcases Handler.received_scb hs.inBounds (Handler.received_of_recv hs.inBounds hr) with
      ⟨-, heq | heq⟩ | ⟨tfrm, payload, seg, scb, e, hreach, hb, hset⟩
    · simp [heq, hst] at hnew
    · simp [heq, hst] at hnew
    simp only [hset.state] at hnew
    obtain ⟨hack, hnum⟩ := recv_leaves_finWait1 hst hb hnew
    exact ⟨keep, pkt, tfrm, payload, seg, rfl, hreach, hack, hnum.trans hnxt⟩
  have htouch := Handler.step_touched hs.inBounds
    (fun keep pkt heq => hrecv ⟨keep, pkt, heq⟩) hnot hh
  generalize h'.scb = out at htouch hnew
  cases htouch with
  | eased => simp [hst] at hnew
  | cleared => simp [reset, setRecvWindow] at hnew
  | listening => simp [prepareToHandshake] at hnew

theorem fin_ack_leaves {keep : Bool} {pkt payload : List UInt8} {tfrm : Frame} (hs : Sound s)
    (hst : s.h.scb.state = .finWait1) (hr : s.h.Reaches keep pkt tfrm payload seg)
    (hacc : s.h.scb.incomingError seg = none) (hrst : hasAny seg.flags flagRST = false)
    (hsyn : hasAny seg.flags flagSYN = false) (hack : hasAny seg.flags flagACK)
    (hnum : seg.ack = s.h.scb.snd.nxt) : ∃ s', step s (.recv keep pkt) = .ok s' ∧
      (s'.h.scb.state = .finWait2 ∨ s'.h.scb.state = .timeWait) := by
  obtain ⟨mid, pending, hmid, hnew⟩ : ∃ mid pending,
      s.h.scb.rcvFinWait1 seg = (mid, pending, none) ∧
        (mid.state = .finWait2 ∨ mid.state = .timeWait) := by
    simp only [rcvFinWait1, hack, hnum, beq_self_eq_true, Bool.and_true]
    cases hasAny seg.flags flagFIN with
    | true => exact ⟨_, _, rfl, .inr rfl⟩
    | false => exact ⟨_, _, rfl, .inl rfl⟩
  have hb := recv_finWait1 hst hacc hrst hsyn
  rw [hmid] at hb
  obtain ⟨h', err, hrecv, hset⟩ := Handler.recv_settled hs.inBounds hr hb
  refine ⟨{ s with h := h' }, by simp only [step, Handler.handlerStep, hrecv]; rfl, ?_⟩
  rw [hset.state, acceptSegment_state]
  exact hnew

/-- While no rewind passes the FIN and nothing is sent behind it, FIN-WAIT-1 is left for
FIN-WAIT-2 or TIME-WAIT on every ACK of the FIN that can be received, and on no other.
-/
theorem leaves_finWait1_on_own_fin_ack (ops : List HandlerOp) (s : Closing)
    (hops : Guarded step FinLast {} ops) (hrun : exec step {} ops = .ok s)
    (hst : s.h.scb.state = .finWait1) : ∃ f, s.fin = some f ∧
    (∀ op s', step s op = .ok s' →
      s'.h.scb.state = .finWait2 ∨ s'.h.scb.state = .timeWait → AcksFin s.h op f) ∧
    ∀ keep pkt tfrm payload seg, s.h.parseIncoming pkt = .ok (.ok (tfrm, payload, seg)) →
      (s.h.policyEnabled = true → keep = true) → s.h.Fits payload →
      s.h.scb.incomingError seg = none → Flags.hasAny seg.flags flagRST = false →
      Flags.hasAny seg.flags flagSYN = false → Flags.hasAny seg.flags flagACK = true →
      seg.ack = f + 1 → ∃ s', step s (.recv keep pkt) = .ok s' ∧
        (s'.h.scb.state = .finWait2 ∨ s'.h.scb.state = .timeWait) := by
  have hs := run_sound hops hrun
  obtain ⟨f, hf, hnxt⟩ := hs.placed.nxt hst
  refine ⟨f, hf, fun op s' hstep hnew => leaves_by_fin_ack hs hst hnxt hstep hnew, ?_⟩
  intro keep pkt tfrm payload seg hparse hkept hfits hacc hrst hsyn hack hnum
  have hcheck : s.h.scb.checkSEQ seg = true := by simp [checkSEQ, hst, State.isPreestablished]
  have hlive : s.h.isTxOver = false := by simp [Handler.isTxOver, hst]
  have hr := Handler.reaches_of_acceptable hlive hparse hkept hfits
    (Handler.incomingError_sequential hacc hcheck hrst)
  exact fin_ack_leaves hs hst hr hacc hrst hsyn hack (hnum.trans hnxt.symm)

def finSentOps : List HandlerOp := Handler.serverOps ++ [.close, .send 60 0 {}]

theorem leaves_finWait1_on_own_fin_ack_server :
    ∃ s, exec step {} finSentOps = .ok s ∧ s.h.scb.state = .finWait1 ∧ ∃ f, s.fin = some f ∧
      ∀ op s', step s op = .ok s' →
        s'.h.scb.state = .finWait2 ∨ s'.h.scb.state = .timeWait → AcksFin s.h op f := by
  obtain ⟨s, hrun, hst⟩ : ∃ s, exec step {} finSentOps = .ok s ∧ s.h.scb.state = .finWait1 :=
    exists_exec (by decide +kernel)
  obtain ⟨f, hf, hleave, -⟩ :=
    leaves_finWait1_on_own_fin_ack finSentOps s (by decide +kernel) hrun hst
  exact ⟨s, hrun, hst, f, hf, hleave⟩

def rewoundOps : List HandlerOp :=
  .setPolicy true :: Handler.serverOps ++ [.write [7, 8], .send 60 0 {}, .close, .send 60 0 {},
    .send 60 0 { rtxFrom := 101, doRtx := true }]

def dataAck : List UInt8 :=
  Handler.packet 1234 80 { seq := 301, ack := 103, wnd := 1000, flags := flagACK } []

def finAck : List UInt8 :=
  Handler.packet 1234 80 { seq := 301, ack := 104, wnd := 1000, flags := flagACK } []

/-- After the rewind an ACK of the data alone ends FIN-WAIT-1, and an ACK of the FIN
does not. -/
theorem leaves_finWait1_on_data_ack :
    ∃ s, exec step {} rewoundOps = .ok s ∧ s.h.scb.state = .finWait1 ∧ s.fin = some 103 ∧
      (step s (.recv true dataAck)).toOption.map (fun s' => s'.h.scb.state) = some .finWait2 ∧
      (step s (.recv true finAck)).toOption.map (fun s' => s'.h.scb.state) = some .finWait1 :=
  exists_exec (by decide +kernel)

end Lneto.ActiveClose
