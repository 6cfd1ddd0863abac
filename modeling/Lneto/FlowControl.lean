import Lneto.SendDistance

/-!
Flow control on the send side. What is new goes out below snd.UNA + snd.WND,
and no packet in the list of sent packets is larger than the MSS that the peer
announced, which bounds what a fast retransmit repeats.
-/
namespace Lneto.FlowControl

open Segments SerialNumbers GuardedRuns Control InternalRing TransmitRing Frames Connection
  SendCursors SendProgress SendStream SendRuns SendDistance List Flags ControlBlock State
open Handler hiding close abort reset

variable {h h' start : Handler} {len offset : ℕ} {payload stream : List UInt8} {awaitingSyn : Bool}
  {mss : Size} {scb : ControlBlock} {tx : RingTx} {op : HandlerOp} {seg : Segment}

/-- No sent packet is larger than the MSS, unless that is unknown. -/
def Sized (tx : RingTx) (mss : Size) : Prop :=
  mss ≠ 0 → ∀ pkt ∈ tx.slist.pkts, pkt.size.toNat ≤ mss.toNat

theorem sized_bare (h : Bare tx) (mss : Size) : Sized tx mss := by
  intro _ pkt hpkt
  rw [h.pkts] at hpkt
  cases hpkt

theorem le_of_mem_cutSizes {d k : ℕ} {sizes : List ℕ} (h : k ∈ cutSizes d sizes) :
    ∃ m ∈ sizes, k ≤ m := by
  induction sizes generalizing d with
  | nil => cases h
  | cons n ns ih =>
  rw [cutSizes] at h
  split_ifs at h with hle
  · obtain ⟨m, hm, hkm⟩ := ih h
    exact ⟨m, mem_cons_of_mem n hm, hkm⟩
  rcases mem_cons.mp h with rfl | hk
  · exact ⟨n, mem_cons_self, Nat.sub_le n d⟩
  · exact ⟨k, mem_cons_of_mem n hk, le_rfl⟩

theorem sized_freed {tx' : RingTx} {st : State} (hs : Sending scb tx stream)
    (hq : scb.state.txQueuedDataOpen) (hsized : Sized tx mss)
    (htx : Freed tx tx' seg scb.snd.una st) : Sized tx' mss := by
  rcases hs.cursors hq with ⟨-, hnil⟩ | ⟨a, u, b, c, hcur⟩
  · rw [(hs.empty hnil).freed htx]
    exact hsized
  rcases htx with htx | ⟨rfl, -⟩
  · unfold Acked at htx
    split_ifs at htx
    · obtain ⟨err, hrecv⟩ := htx
      obtain ⟨phase, hlay⟩ := hcur.laid
      have hb := hlay.b_le
      have hnear := hcur.near
      obtain ⟨e, he, hack⟩ : ∃ e, e < 2 ^ 32 ∧ seg.ack = advance (scb.snd.iss + 1) (a + e) :=
        ⟨ahead (advance (scb.snd.iss + 1) a) seg.ack, ahead_lt _ _,
          by rw [← advance_advance, advance_ahead]⟩
      rw [hack] at hrecv
      by_cases hin : a + e ≤ b
      · obtain ⟨rtx, err', hok, -, -, -, hsizes⟩ :=
          hlay.recvACK (by omega) (t := a + e) (by omega) hin
        rw [hok] at hrecv
        obtain ⟨rfl, -⟩ := Prod.mk.inj (Except.ok.inj hrecv)
        intro hne pkt hpkt
        have hmem := mem_map_of_mem (f := fun pkt : RingIdx => pkt.size.toNat) hpkt
        rw [hsizes] at hmem
        obtain ⟨m, hm, hle⟩ := le_of_mem_cutSizes hmem
        obtain ⟨old, hold, rfl⟩ := mem_map.mp hm
        exact hle.trans (hsized hne old hold)
      obtain ⟨err', hok⟩ := hlay.recvACK_outside (by omega) (t := a + e) (by omega) (by omega)
      rw [hok] at hrecv
      obtain ⟨rfl, -⟩ := Prod.mk.inj (Except.ok.inj hrecv)
      exact hsized
    · rw [htx]
      exact hsized
  · exact hsized

theorem sized_rewound (hsized : Sized tx mss) (seq : Value) :
    Sized (tx.retransmitFrom seq) mss := by
  unfold RingTx.retransmitFrom
  split
  · exact hsized
  · exact fun hne pkt hpkt => hsized hne pkt ((takeWhile_sublist _).mem hpkt)

theorem limitPayload_mss (scb : ControlBlock) (room : ℕ) (h : scb.snd.mss ≠ 0) :
    scb.limitPayload room ≤ scb.snd.mss.toNat := by
  simp only [limitPayload]
  have hpos : 0 < scb.snd.mss := by bv_omega
  split_ifs with hlt
  · exact le_rfl
  rw [not_and] at hlt
  have := hlt hpos
  omega

/-- The peer's MSS does not outlast the connection. -/
def lasting (st : State) (mss : Size) : Size := if st = .closed ∨ st = .listen then 0 else mss

/-- The distance in flight, and the MSS that the peer announced, which no sent packet
exceeds. -/
structure Limits (scb : ControlBlock) (tx : RingTx) (mss : Size) : Prop where
  flight : inFlight scb < 2 ^ 31
  sized : scb.state.txQueuedDataOpen = true → Sized tx mss
  early : scb.state = .closed ∨ scb.state = .listen ∨ scb.state = .synSent → mss = 0
  known : scb.state ≠ .closed → scb.state ≠ .listen → scb.snd.mss = mss

section Bounding
variable {scb scb' : ControlBlock} {tx tx' : RingTx} {stream : List UInt8} {mss : Size}
  {seg : Segment}

theorem Limits.kept (h : Limits scb tx mss) (hfl : inFlight scb' < 2 ^ 31)
    (hst : scb'.state = scb.state) (hmss : scb'.snd.mss = scb.snd.mss) : Limits scb' tx mss := by
  refine ⟨hfl, ?_, ?_, ?_⟩ <;> rw [hst]
  · exact h.sized
  · exact h.early
  · rw [hmss]
    exact h.known

theorem Limits.idle (hst : scb.state = .closed ∨ scb.state = .listen)
    (hfl : inFlight scb < 2 ^ 31) : Limits scb tx (lasting scb.state mss) := by
  have hno : scb.state.txQueuedDataOpen → False := by
    rcases hst with hst | hst <;> rw [hst] <;> simp [txQueuedDataOpen, txDataOpen]
  refine ⟨hfl, fun hq => (hno hq).elim, fun _ => if_pos hst, fun h1 h2 => ?_⟩
  rcases hst with hst | hst
  · exact absurd hst h1
  · exact absurd hst h2

theorem Limits.lasts (h : Limits scb tx mss) : Limits scb tx (lasting scb.state mss) := by
  have hsame : lasting scb.state mss = mss := by
    unfold lasting
    split_ifs with hst
    · exact (h.early (hst.imp id .inl)).symm
    · rfl
  rw [hsame]
  exact h

theorem limits_taken (h : Limits scb tx mss) (hs : Sending scb tx stream)
    (hhalf : seg.ack ≠ scb.snd.una + 0x80000000#32)
    (hlast : scb.state = .lastAck → seg.ack ≠ 0x80000000#32)
    (hrecv : scb.recv seg = .ok (scb', none)) (htx : Freed tx tx' seg scb.snd.una scb'.state)
    (hopen : scb'.state ≠ .closed) : Limits scb' tx' mss := by
  obtain ⟨mid, pending, hacc, rfl⟩ := recv_accepted hrecv
  have hfl := inFlight_accepted hs h.flight hhalf hlast hacc
  obtain ⟨_, _, _, _, _, -, -, -, heq⟩ := acceptSegment_eq mid seg pending
  have hmss : (mid.acceptSegment seg pending).snd.mss = mid.snd.mss := by rw [heq]
  rw [acceptSegment_state] at hopen
  have hfacts : mid.snd.mss = mss ∧ mid.state ≠ .listen ∧ mid.state ≠ .synSent := by
    cases rcvState_handled hacc.handled with
    | listenSyn hst | simultaneousOpen hst =>
      exact ⟨(h.early (by simp [hst])).symm, by simp, by simp⟩
    | synAcked hst | opened hst => exact ⟨h.known (by simp [hst]) (by simp [hst]), by simp, by simp⟩
    | moved hm =>
      cases hm with
      | stay hsync =>
        have hne : scb.state ≠ .closed ∧ scb.state ≠ .listen ∧ scb.state ≠ .synSent := by
          refine ⟨?_, ?_, ?_⟩ <;> intro hst <;> rw [hst] at hsync <;> cases hsync
        exact ⟨h.known hne.1 hne.2.1, hne.2.1, hne.2.2⟩
      | peerFin hst | bothFins hst | simultaneousFin hst | ownFinAcked hst | peerFinLast hst
      | closingAcked hst =>
        exact ⟨h.known (by simp [hst]) (by simp [hst]), by simp, by simp⟩
    | finished => exact absurd rfl hopen
  obtain ⟨hknown, hlisten, hsent⟩ := hfacts
  refine ⟨hfl, fun hq => ?_, fun he => ?_, fun _ _ => hmss.trans hknown⟩
  · rcases taken_queued hrecv hq with hold | hpre
    · exact sized_freed hs hold (h.sized hold) htx
    have hbare := hs.empty (hs.opening hpre).1
    rw [hbare.freed htx]
    exact sized_bare hbare mss
  rw [acceptSegment_state] at he
  rcases he with he | he | he
  · exact absurd he hopen
  · exact absurd he hlisten
  · exact absurd he hsent

theorem limits_rejected {e : Err} (h : Limits scb tx mss)
    (hdrop : scb.state = .synRcvd → (scb.dropCheck seg).2 = none)
    (hrecv : scb.recv seg = .ok (scb', some e)) : Limits scb' tx (lasting scb'.state mss) ∧
      (scb'.state = scb.state ∨ scb'.state = .closed ∨ scb'.state = .listen) := by
  have hfl := inFlight_rejected h.flight hrecv
  have hkept : scb'.state = scb.state → scb'.snd.mss = scb.snd.mss →
      Limits scb' tx (lasting scb'.state mss) ∧
        (scb'.state = scb.state ∨ scb'.state = .closed ∨ scb'.state = .listen) :=
    fun hstate hmss => ⟨(h.kept hfl hstate hmss).lasts, .inl hstate⟩
  have hidle : scb'.state = .closed ∨ scb'.state = .listen →
      Limits scb' tx (lasting scb'.state mss) ∧
        (scb'.state = scb.state ∨ scb'.state = .closed ∨ scb'.state = .listen) :=
    fun hst => ⟨.idle hst hfl, .inr hst⟩
  obtain ⟨c, hemit⟩ := scb.triggerChallengeAckEmit_eq
  cases recv_outcome hrecv with
  | ignored | ackDrop => exact hkept rfl rfl
  | challenge | synChallenge | rstChallenge => exact hkept (by rw [hemit]) (by rw [hemit])
  | limit | rstAbort => exact hidle (.inl rfl)
  | relisten => exact hidle (.inr rfl)
  | preReset hpre _ hne =>
  have hcases : scb.state = .listen ∨ scb.state = .synSent := by
    revert hpre hdrop
    cases scb.state <;> simp [isPreestablished, hne]
  rcases hcases with hst | hst
  · exact hidle (.inr hst)
  refine hkept rfl ?_
  rw [h.known (by simp [hst]) (by simp [hst]), h.early (by simp [hst])]
  rfl

end Bounding

/-- The MSS that the peer announced so far. A SYN announces one when it moves the
handshake on. -/
def heard (h h' : Handler) (op : HandlerOp) (mss : Size) : Size :=
  lasting h'.scb.state <|
    match op with
    | .recv _ pkt =>
      match h.parseIncoming pkt with
      | .ok (.ok (tfrm, _, seg)) =>
        if Flags.hasAny seg.flags flagSYN = true ∧ h'.scb.state ≠ h.scb.state then
          Handler.announcedMss tfrm mss
        else mss
      | _ => mss
    | _ => mss

/-- No segment is answered with a reset in SYN-RECEIVED or is, in LAST-ACK, the ACK half
the number space past zero. -/
def Heeded (h : Handler) (pkt : List UInt8) : Prop :=
  match h.parseIncoming pkt with
  | .ok (.ok (_, _, seg)) => (h.scb.state = .synRcvd → (h.scb.dropCheck seg).2 = none) ∧
      (h.scb.state = .lastAck → seg.ack ≠ 0x80000000#32)
  | _ => True

instance (h : Handler) (pkt : List UInt8) : Decidable (Heeded h pkt) :=
  match hparse : h.parseIncoming pkt with
  | .ok (.ok (_, _, seg)) => decidable_of_iff
      ((h.scb.state = .synRcvd → (h.scb.dropCheck seg).2 = none) ∧
        (h.scb.state = .lastAck → seg.ack ≠ 0x80000000#32)) (by rw [Heeded, hparse])
  | .ok (.error _) | .error _ => isTrue (by rw [Heeded, hparse]; trivial)

theorem Heeded.of_parsed {pkt : List UInt8} {tfrm : Frame} (hheed : Heeded h pkt)
    (hparse : h.parseIncoming pkt = .ok (.ok (tfrm, payload, seg))) :
    (h.scb.state = .synRcvd → (h.scb.dropCheck seg).2 = none) ∧
      (h.scb.state = .lastAck → seg.ack ≠ 0x80000000#32) := by
  rw [Heeded, hparse] at hheed
  exact hheed

section Receiving
variable {h h' : Handler} {keep : Bool} {pkt payload : List UInt8} {tfrm : Frame} {seg : Segment}
  {mss : Size}

theorem heard_stayed (hst : h'.scb.state = h.scb.state ∨ h'.scb.state = .closed ∨
    h'.scb.state = .listen) : heard h h' (.recv keep pkt) mss = lasting h'.scb.state mss := by
  simp only [heard]
  rcases hst with hst | hst
  · split
    · rename_i tfrm _ seg _
      have hno : ¬ (hasAny seg.flags flagSYN ∧ h'.scb.state ≠ h.scb.state) := fun hand => hand.2 hst
      rw [if_neg hno]
    · rfl
  · rw [lasting, if_pos hst, lasting, if_pos hst]

theorem heard_parsed (hparse : h.parseIncoming pkt = .ok (.ok (tfrm, payload, seg))) :
    heard h h' (.recv keep pkt) mss = lasting h'.scb.state
      (if hasAny seg.flags flagSYN ∧ h'.scb.state ≠ h.scb.state then
        announcedMss tfrm mss else mss) := by
  simp only [heard, hparse]

theorem taken_syn {scb' : ControlBlock} (hrecv : scb.recv seg = .ok (scb', none))
    (hsyn : hasAny seg.flags flagSYN) : scb.state.isPreestablished ∧ scb'.state ≠ scb.state ∧
      (scb'.state = .synRcvd ∨ scb'.state = .established) := by
  obtain ⟨mid, pending, hacc, rfl⟩ := recv_accepted hrecv
  have hpre := hacc.syn hsyn
  rw [acceptSegment_state]
  refine ⟨hpre, ?_⟩
  cases rcvState_handled hacc.handled with
  | listenSyn hst | simultaneousOpen hst => exact ⟨by simp [hst], .inl rfl⟩
  | synAcked hst | opened hst => exact ⟨by simp [hst], .inr rfl⟩
  | moved hm =>
    exfalso
    revert hpre
    cases hm with
    | stay hsync =>
      revert hsync
      cases scb.state <;> simp [isSynchronized, isPreestablished, isClosed]
    | peerFin hst | bothFins hst | simultaneousFin hst | ownFinAcked hst | peerFinLast hst
    | closingAcked hst => simp [hst, isPreestablished]
  | finished hst => simp [hst, isPreestablished] at hpre

theorem limits_stayed (hst : h'.scb.state = h.scb.state ∨
    h'.scb.state = .closed ∨ h'.scb.state = .listen)
    (hl : Limits h'.scb h'.bufTx (lasting h'.scb.state mss)) :
    Limits h'.scb h'.bufTx (heard h h' (.recv keep pkt) mss) := by
  rw [heard_stayed hst]
  exact hl

theorem limits_received {err : Option Err} (hin : InBounds h.bufRx) (hl : Limits h.scb h.bufTx mss)
    (hs : Sending h.scb h.bufTx stream) (hnear : AckNear h pkt) (hheed : Heeded h pkt)
    (hout : Received h keep pkt h' err) :
    Limits h'.scb h'.bufTx (heard h h' (.recv keep pkt) mss) := by
  cases hout with
  | untouched => exact limits_stayed (.inl rfl) hl.lasts
  | staged =>
    refine limits_stayed (.inl rfl) (Limits.lasts ?_)
    exact hl.kept (inFlight_kept hl.flight rfl rfl (.inr rfl)) rfl rfl
  | rejected hr hrecv =>
    obtain ⟨hlim, hst⟩ := limits_rejected hl (hheed.of_parsed hr.parsed).1 hrecv
    exact limits_stayed hst hlim
  | @finished _ _ seg scb hr hrecv hclosed =>
    refine limits_stayed (.inr (.inl hclosed)) (.idle (.inl hclosed) ?_)
    obtain ⟨_, _, hacc, rfl⟩ := recv_accepted hrecv
    exact inFlight_accepted hs hl.flight (hnear.ack_ne hr.parsed) (hheed.of_parsed hr.parsed).2 hacc
  | @reset _ _ seg scb hr hrecv hdata hshut hstate =>
    have hno : ¬ (hasAny seg.flags flagSYN ∧ (scb.queueRST seg.ack).state ≠ h.scb.state) := by
      rintro ⟨hsyn, -⟩
      obtain ⟨-, -, hst | hst⟩ := taken_syn hrecv hsyn <;> rcases hstate with hst' | hst' <;>
        cases hst.symm.trans hst'
    rw [heard_parsed hr.parsed, if_neg hno]
    have hopen : scb.state ≠ .closed := by rcases hstate with hst | hst <;> simp [hst]
    have htaken : Limits scb h.bufTx mss := limits_taken hl hs (hnear.ack_ne hr.parsed)
      (hheed.of_parsed hr.parsed).2 hrecv
      (.inr ⟨rfl, by rcases hstate with hst | hst <;> rw [hst] <;> rfl⟩) hopen
    refine Limits.lasts (htaken.kept ?_ rfl rfl)
    have hflight := htaken.flight
    have hfin : finPending (scb.queueRST seg.ack) = 0 :=
      if_neg (show ¬ hasAny flagRST flagFIN by decide)
    unfold inFlight at hflight ⊢
    rw [hfin]
    change ahead scb.snd.una scb.snd.nxt + 0 < 2 ^ 31
    omega
  | @accepted _ _ seg scb tx hr hrecv hopen hsyn htx =>
    obtain ⟨d, pending, heq, hp⟩ := withPayload_scb scb hin hr.fits
    rw [heard_parsed hr.parsed, if_neg (by simp [hsyn])]
    have htaken := limits_taken hl hs (hnear.ack_ne hr.parsed) (hheed.of_parsed hr.parsed).2 hrecv
      (.inl htx) hopen
    simp only [heq]
    exact Limits.lasts (htaken.kept (inFlight_kept htaken.flight rfl rfl hp) rfl rfl)
  | @acceptedSyn tfrm _ seg scb tx hr hrecv hopen hsyn htx mss' hmss =>
  obtain ⟨d, pending, heq, hp⟩ := withPayload_scb scb hin hr.fits
  have htaken := limits_taken hl hs (hnear.ack_ne hr.parsed) (hheed.of_parsed hr.parsed).2 hrecv
    (.inl htx) hopen
  have hsent := sending_taken hs (hnear.ack_ne hr.parsed) hrecv (.inl htx)
  obtain ⟨hpre, hmoved, hnew⟩ := taken_syn hrecv hsyn
  have hlisten : scb.state ≠ .listen := by rcases hnew with hst | hst <;> simp [hst]
  rw [heard_parsed hr.parsed]
  simp only [withSyn, heq]
  rw [if_pos ⟨hsyn, hmoved⟩]
  rw [htaken.known hopen hlisten] at hmss
  rw [← hmss]
  refine Limits.lasts ⟨inFlight_kept htaken.flight rfl rfl hp, fun _ => ?_, ?_, fun _ _ => rfl⟩
  · exact sized_bare (hsent.empty (hs.opening hpre).1) mss'
  · rcases hnew with hst | hst <;> simp [hst]

end Receiving

section Transmitting
variable {h h' : Handler} {stream : List UInt8} {mss : Size} {len : ℕ} {pol : PolicyTx}
  {r : SendResult}

theorem limits_preTx (hl : Limits h.scb h.bufTx mss) :
    Limits (h.preTx pol).scb (h.preTx pol).bufTx mss := by
  unfold preTx
  split_ifs with hpol
  · cases htake : h.scb.retransmitFrom pol.rtxFrom with
    | mk scb ok =>
    cases ok with
    | false => exact hl
    | true =>
    have hfl := inFlight_rewound hl.flight htake
    have hsame : scb.state = h.scb.state ∧ scb.snd.mss = h.scb.snd.mss := by
      unfold retransmitFrom at htake
      split_ifs at htake <;> obtain ⟨rfl, -⟩ := Prod.mk.inj htake <;> exact ⟨rfl, rfl⟩
    have hkept := hl.kept hfl hsame.1 hsame.2
    exact ⟨hfl, fun hq => sized_rewound (hkept.sized hq) _, hkept.early, hkept.known⟩
  · exact hl

theorem limits_close (hl : Limits scb tx mss) (hs : Sending scb tx stream)
    (hnear : scb.state.txQueuedDataOpen → Near tx stream) (hok : scb.close.2 = none)
    (hopen : scb.close.1.state ≠ .closed) : Limits scb.close.1 tx mss := by
  have hfl := inFlight_close hs hnear hok
  have hmss : scb.close.1.snd.mss = scb.snd.mss := by rw [close_snd hopen]
  by_cases hst : scb.state = .closeWait
  · have hq : scb.state.txQueuedDataOpen := by rw [hst]; rfl
    have hlast : scb.close.1.state = .lastAck := by simp only [close, hst]
    refine ⟨hfl, fun _ => hl.sized hq, ?_, fun _ _ => ?_⟩
    · rw [hlast]
      simp
    · exact hmss.trans (hl.known (by simp [hst]) (by simp [hst]))
  have hstate : scb.close.1.state = scb.state := by
    unfold close at hopen hok ⊢
    cases hst' : scb.state <;> simp_all [abort, reset]
  exact hl.kept hfl hstate hmss

theorem close_early (h : scb.close.1.state = .closed) :
    scb.state = .closed ∨ scb.state = .listen ∨ scb.state = .synSent := by
  unfold close at h
  cases hst : scb.state <;> simp [hst] at h ⊢

section
variable (hl : Limits start.scb start.bufTx mss) (hs : Sending start.scb start.bufTx stream)
  (hnear : start.scb.state.txQueuedDataOpen → Near start.bufTx stream)
  (hawait : awaitingSyn → start.scb.state = .closed)
include hl hs hnear hawait

theorem limits_sent {mid : Handler} {options : List UInt8} {room : ℕ}
    (hch : Chosen start awaitingSyn room mid (.segment seg offset options payload))
    (hsend : (start.scb.send seg).2 = none)
    (hrst : hasAny seg.flags flagRST = false ∨ start.scb.state = .timeWait) :
    Limits (start.scb.commitSend seg) mid.bufTx mss := by
  have hfl := inFlight_sent hs hch hnear hl.flight hsend hrst hawait
  by_cases hst : start.scb.state = .closed
  · have hnew := (start.scb.commitSend_closed seg hst (send_ok hsend).1).2
    rw [hnew] at hfl ⊢
    have hzero := hl.early (.inl hst)
    exact ⟨hfl, (nofun), fun _ => hzero, fun _ _ => hzero.symm⟩
  have hc := commits seg hs.second hst
  have hfrom := (sentState_from start.scb.state seg.flags).2
  have hmss : (start.scb.commitSend seg).snd.mss = start.scb.snd.mss := by
    obtain ⟨_, _, _, _, heq, -⟩ := start.scb.commitSend_eq seg hst
    rw [heq]
    split_ifs <;> rfl
  have hrest : ∀ st', (start.scb.commitSend seg).state = st' →
      st' = .listen ∨ st' = .synSent → start.scb.state = st' := by
    intro st' hst' hor
    rw [hc.state] at hst'
    revert hst' hst
    rcases hor with rfl | rfl <;> cases start.scb.state <;> simp only [sentState] <;>
      (try split_ifs) <;> simp
  refine ⟨hfl, fun hq => ?_, fun he => ?_, fun hne hlis => ?_⟩
  · rw [hc.state] at hq
    rcases hfrom hq with hq' | hq'
    · have hold := hl.sized hq'
      have hknown := hl.known hst (by intro hlis; rw [hlis] at hq'; cases hq')
      have hrst : hasAny seg.flags flagRST = false := by
        rcases hrst with hrst | htw
        · exact hrst
        · rw [htw] at hq'
          cases hq'
      rcases carried_of_chosen hs hch hrst with ⟨htx, -⟩ | hcar
      · rw [htx]
        exact hold
      cases hcar with
      | again _ htx =>
        rw [htx]
        exact hold
      | fresh _ _ _ _ hlimit hpkts =>
      intro hne pkt hpkt
      rcases hpkts pkt hpkt with hin | hsize
      · exact hold hne pkt hin
      · rw [hsize, ← hknown]
        exact hlimit.trans (limitPayload_mss _ _ (by rwa [hknown]))
    have hnil := (hs.opening (by rw [hq']; rfl)).1
    have hsame : mid.bufTx = start.bufTx := by
      cases hch with
      | filled _ _ _ hmake => exact ((hs.empty hnil).makePacket hmake).1
      | _ => rfl
    rw [hsame]
    exact sized_bare (hs.empty hnil) mss
  · rcases he with he | he | he
    · have := (sentState_from start.scb.state seg.flags).1
      rw [← hc.state] at this
      rcases this (.inl he) with hc' | hp
      · exact absurd hc' hst
      rw [hc.state] at he
      revert he hp
      cases start.scb.state <;> simp only [sentState, isPreestablished] <;> (try split_ifs) <;> simp
    · exact hl.early (.inr (.inl (hrest _ he (.inl rfl))))
    · exact hl.early (.inr (.inr (hrest _ he (.inr rfl))))
  · rw [hmss]
    refine hl.known hst (fun hlis' => hlis ?_)
    rw [hc.state, hlis']
    rfl

theorem limits_transmits {room : ℕ} (ht : Transmits start awaitingSyn room h' r)
    (hbuf : start.bufTx = (h.preTx pol).bufTx) (hsafe : Intact h pol h' r) :
    Limits h'.scb h'.bufTx (lasting h'.scb.state mss) := by
  cases ht with
  | yielded hch =>
    cases hch with
    | requeued => exact hl.lasts
    | nothing => exact hl.lasts
    | noPacket hp hsyn hdata hmake =>
      rw [makePacket_err hmake]
      exact hl.lasts
  | @refused mid seg _ _ _ err hch hsend =>
    have hscb := chosen_scb hch
    have hsame : h'.bufTx = start.bufTx ∨ h'.scb.state = .closed := by
      rcases hsafe.whole with herr | heq | hst
      · cases herr
      · exact .inl (heq.trans hbuf.symm)
      · exact .inr hst
    rcases hsame with heq | hst
    · rw [hscb, heq]
      exact hl.lasts
    · exact .idle (.inl hst) (by rw [hscb]; exact hl.flight)
  | @emitted mid seg offset options payload hch hsend =>
  have hscb := chosen_scb hch
  rw [hscb] at hsend ⊢
  unfold afterSend
  rw [hscb]
  split_ifs with htw hrst
  · have hsent := limits_sent hl hs hnear hawait hch hsend (.inr htw.1)
    have hc := commits seg hs.second (by simp [htw.1])
    have hst : (start.scb.commitSend seg).state = .timeWait := by
      rw [hc.state, htw.1]
      rfl
    have hno : (start.scb.commitSend seg).state.txQueuedDataOpen → False := by
      rw [hst]
      simp [txQueuedDataOpen, txDataOpen]
    exact Limits.lasts ⟨hsent.flight, fun hq => (hno hq).elim, hsent.early, hsent.known⟩
  · exact .idle (.inl rfl) (inFlight_empty rfl)
  · have hsent := limits_sent hl hs hnear hawait hch hsend (.inl (by simpa using hrst))
    exact hsent.lasts

end

section
variable (hl : Limits h.scb h.bufTx mss) (hs : Sending h.scb h.bufTx stream)
  (hn : h.scb.state.txQueuedDataOpen → Near h.bufTx stream)
include hl hs hn

theorem limits_starts (hfol : Follows h pol)
    (hstart : h.Starts pol start awaitingSyn) : Limits start.scb start.bufTx mss := by
  have hpre : Limits (h.preTx pol).autoClose.scb (h.preTx pol).autoClose.bufTx mss := by
    rw [autoClose_scb, autoClose_bufTx]
    exact limits_preTx hl
  cases hstart with
  | going => exact hpre
  | closed hdue hclose =>
  have hsend : Sending (h.preTx pol).autoClose.scb (h.preTx pol).autoClose.bufTx stream := by
    rw [autoClose_scb, autoClose_bufTx]
    exact sending_preTx hs hfol
  by_cases hopen : (h.preTx pol).autoClose.scb.close.1.state = .closed
  · -- such a close comes before the peer's SYN
    have hzero : mss = 0 := hpre.early (close_early hopen)
    have hidle : Limits (h.preTx pol).autoClose.scb.close.1 (h.preTx pol).autoClose.bufTx
        (lasting (h.preTx pol).autoClose.scb.close.1.state mss) :=
      .idle (.inl hopen) (inFlight_close hsend (near_preTx hn pol) hclose)
    rw [hzero] at hidle ⊢
    rwa [lasting, ite_self] at hidle
  · exact limits_close hpre hsend (near_preTx hn pol) hclose hopen

theorem limits_sends (hclosed : h.scb.state = .closed → stream = []) (hfol : Follows h pol)
    (hsafe : Intact h pol h' r) (hout : Sends h len pol h' r) :
    Limits h'.scb h'.bufTx (lasting h'.scb.state mss) := by
  cases hout with
  | idle => exact hl.lasts
  | quiet =>
    rw [autoClose_scb, autoClose_bufTx]
    exact (limits_preTx hl).lasts
  | ended => exact .idle (.inl rfl) (inFlight_empty rfl)
  | @transmitted start _ _ _ hlive hstart ht =>
  obtain ⟨hmid, hbuf, -, hawait⟩ := sending_starts hs hclosed hfol hstart
  exact limits_transmits (limits_starts hl hs hn hfol hstart) hmid (near_starts hn hstart)
    (fun haw => (hawait haw).1) ht hbuf hsafe

end

end Transmitting

/-- The byte is not one of those that left before. -/
def Unsent (top : Option Value) (seq : Value) : Prop := ∀ t ∈ top, ¬ Value.lessThan seq t = true

instance (top : Option Value) (seq : Value) : Decidable (Unsent top seq) :=
  match top with
  | none => isTrue fun _ ht => by cases ht
  | some t =>
    decidable_of_iff (¬ Value.lessThan seq t = true)
      ⟨fun h _ ht => by cases ht; exact h, fun h => h t rfl⟩

theorem maxSend_eq (snd : SendSpace) (h : ahead snd.una snd.nxt < 2 ^ 31) :
    snd.maxSend.toNat = snd.wnd.toNat - ahead snd.una snd.nxt := by
  unfold SendSpace.maxSend SendSpace.inFlight Value.sizeof
  unfold ahead at h ⊢
  split_ifs <;> bv_omega

section Payloads
variable {h mid : Handler} {stream payload options : List UInt8} {top : Option Value} {mss : Size}
  {seg : Segment} {room offset : ℕ} {awaitingSyn : Bool}

theorem payload_limits (hl : Limits h.scb h.bufTx mss) (hs : Sending h.scb h.bufTx stream)
    (hn : h.scb.state.txQueuedDataOpen → Near h.bufTx stream) (hm : Marked h.scb h.bufTx stream top)
    (hch : Chosen h awaitingSyn room mid (.segment seg offset options payload))
    (hrst : hasAny seg.flags flagRST = false) (hne : payload ≠ []) :
    (∀ i < payload.length, Unsent top (advance seg.seq i) →
      ahead h.scb.snd.una (advance seg.seq i) < h.scb.snd.wnd.toNat) ∧
    (mss ≠ 0 → payload.length ≤ mss.toNat) ∧ payload.length ≤ room := by
  have hq := chosen_queued hch hne
  have hknown : h.scb.snd.mss = mss :=
    hl.known (by intro hst; rw [hst] at hq; cases hq) (by intro hst; rw [hst] at hq; cases hq)
  have hnear := hn hq
  rcases carried_of_chosen hs hch hrst with ⟨-, hnil⟩ | hcar
  · exact absurd hnil hne
  cases hcar with
  | @fresh a u b hcur hlaid hseq hbytes hlimit =>
    have hspan := hnear.span hcur.laid
    obtain ⟨_, hlay⟩ := hlaid
    have hb := hlay.b_le
    have hau := hcur.behind
    have hub := hcur.acked
    have hroom := h.scb.limitPayload_le room
    have hdist : ahead h.scb.snd.una h.scb.snd.nxt = b - u := by
      rw [hcur.una, hcur.nxt, ahead_advance_advance _ hub (by omega)]
    refine ⟨fun i hi _ => ?_, fun hmss => ?_, hlimit.trans hroom.2⟩
    · have hmax := maxSend_eq h.scb.snd (by rw [hdist]; omega)
      rw [hseq, hcur.una, hcur.nxt, advance_advance, ahead_advance_advance _ (by omega) (by omega)]
      omega
    · rw [← hknown] at hmss ⊢
      exact hlimit.trans (limitPayload_mss _ _ hmss)
  | @again a b hcur htx hseq hbytes hend hroom hsize =>
  have hspan := hnear.span hcur.laid
  refine ⟨fun i hi hnew => ?_, fun hmss => ?_, hroom⟩
  · -- what a fast retransmit carries left before
    exfalso
    obtain ⟨_, hlay⟩ := hcur.laid
    have hb := hlay.b_le
    have hsent := hlay.bufferedUnsent_eq
    obtain ⟨m, hlow, hhigh, hmark⟩ := hm.late hq
    rcases hmark with ⟨-, hm0⟩ | ⟨hpos, rfl⟩
    · omega
    refine hnew _ rfl ?_
    rw [hseq, hcur.una, advance_advance]
    exact (lessThan_advance_iff _ (by omega) (by omega)).mpr (by omega)
  · obtain ⟨pkt, hpkt, hle⟩ := hsize
    exact hle.trans (hl.sized hq hmss pkt hpkt)

end Payloads

theorem starts_snd {pol : PolicyTx} (hstart : h.Starts pol start awaitingSyn)
    (hopen : start.scb.state ≠ .closed) :
    start.scb.snd = { h.scb.snd with nxt := start.scb.snd.nxt } := by
  obtain ⟨nxt, dup, nrt, hscb⟩ := h.preTx_scb pol
  rw [← autoClose_scb] at hscb
  cases hstart with
  | going => rw [hscb]
  | closed =>
  have hsnd : (h.preTx pol).autoClose.scb.close.1.snd = _ := close_snd hopen
  rw [hsnd, hscb]

theorem chooseSegment_offset {mid : Handler} {off : ℕ} {txLimit : Size} {options : List UInt8}
    (hch : h.chooseSegment awaitingSyn len offset txLimit = .ok (mid, .segment seg off options
      payload)) (hne : payload ≠ []) : off = offset := by
  unfold chooseSegment at hch
  simp only [] at hch
  split at hch
  · cases hch
    exact absurd rfl hne
  split at hch
  · cases hch
    exact absurd rfl hne
  split at hch
  · cases hch
  split at hch
  · cases hch
  · cases hch
  split at hch
  · cases hch
    exact absurd rfl hne
  split at hch
  · unfold fillSegment at hch
    split at hch <;> cases hch
    rfl
  · cases hch
    exact absurd rfl hne

theorem transmit_offset {cap : ℕ} {txLimit : Size} {r : SendResult} {f : TxFrame}
    (ht : h.transmit awaitingSyn len cap offset txLimit = .ok (h', r)) (hf : f ∈ r.frame)
    (hne : f.payload ≠ []) : f.offset = offset := by
  unfold transmit at ht
  split at ht
  · cases ht
  · cases ht
    cases hf
  rename_i mid seg off options payload hch
  cases hsend : (mid.scb.send seg).2 with
  | some err =>
    rw [emit_refused hsend] at ht
    cases ht
    cases hf
  | none =>
  rw [emit_sent hsend] at ht
  split_ifs at ht
  cases ht
  obtain rfl : mid.frameOf seg off options payload = f := Option.some.inj hf
  exact chooseSegment_offset hch hne

theorem send_offset {cap : ℕ} {pol : PolicyTx} {r : SendResult} {f : TxFrame}
    (hsend : h.send len cap pol = .ok (h', r)) (hf : f ∈ r.frame) (hne : f.payload ≠ []) :
    f.offset = h.txOffset len pol := by
  unfold Handler.send at hsend
  split at hsend
  · cases hsend
    cases hf
  split at hsend
  · cases hsend
    cases hf
  simp only [] at hsend
  split at hsend
  · cases hsend
    cases hf
  split at hsend
  · split at hsend
    · cases hsend
      cases hf
    · exact transmit_offset hsend hf hne
  · exact transmit_offset hsend hf hne

theorem payloadRoom_le (h : Handler) (len offset : ℕ) (txLimit : Size) :
    h.payloadRoom len offset txLimit ≤ len - offset * 4 := by
  simp only [payloadRoom]
  split_ifs with hlt
  · have := hlt.1
    exact this.le.trans (Nat.mod_le _ _)
  · exact le_rfl

/-- A run with the MSS that the peer announced on the connection. -/
structure Paced where
  flow : Flow
  mss : Size := 0

variable {s : Paced}

def step (s : Paced) (op : HandlerOp) : Except Panic Paced :=
  (SendRuns.step s.flow op).map fun flow =>
    { flow := flow, mss := heard s.flow.h flow.h op s.mss }

/-- A steady run that heeds the segments which lose track of the send side. -/
def Calm (s : Paced) : HandlerOp → Prop
  | .recv keep pkt => Steady s.flow (.recv keep pkt) ∧ Heeded s.flow.h pkt
  | op => Steady s.flow op

instance (s : Paced) (op : HandlerOp) : Decidable (Calm s op) :=
  match op with
  | .recv keep pkt =>
    inferInstanceAs (Decidable (Steady s.flow (.recv keep pkt) ∧ Heeded s.flow.h pkt))
  | .setBuffers txbuf rxbuf n =>
    inferInstanceAs (Decidable (Steady s.flow (.setBuffers txbuf rxbuf n)))
  | .setPolicy on => inferInstanceAs (Decidable (Steady s.flow (.setPolicy on)))
  | .openActive l r iss => inferInstanceAs (Decidable (Steady s.flow (.openActive l r iss)))
  | .openListen l iss => inferInstanceAs (Decidable (Steady s.flow (.openListen l iss)))
  | .abort => inferInstanceAs (Decidable (Steady s.flow .abort))
  | .send len extra pol => inferInstanceAs (Decidable (Steady s.flow (.send len extra pol)))
  | .close => inferInstanceAs (Decidable (Steady s.flow .close))
  | .shutdownRead => inferInstanceAs (Decidable (Steady s.flow .shutdownRead))
  | .write b => inferInstanceAs (Decidable (Steady s.flow (.write b)))
  | .read n => inferInstanceAs (Decidable (Steady s.flow (.read n)))
  | .requeue => inferInstanceAs (Decidable (Steady s.flow .requeue))

theorem Calm.steady (h : Calm s op) : Steady s.flow op := by
  cases op with
  | recv => exact h.1
  | _ => exact h

structure Pacing (s : Paced) : Prop where
  flowing : Flowing s.flow
  limits : Limits s.flow.h.scb s.flow.h.bufTx s.mss

theorem limits_opened (hopens : h.opens op) (hh : h.handlerStep op = .ok h') (mss : Size) :
    Limits h'.scb h'.bufTx (lasting h'.scb.state mss) := by
  unfold opens at hopens
  cases op with
  | openActive localPort remotePort iss =>
    obtain rfl := Except.ok.inj hh
    rw [beq_iff_eq] at hopens
    unfold openActive at hopens ⊢
    split_ifs at hopens ⊢
    exact .idle (.inl rfl) (inFlight_empty rfl)
  | openListen localPort iss =>
    obtain rfl := Except.ok.inj hh
    rw [beq_iff_eq] at hopens
    unfold openListen openPassive at hopens ⊢
    split_ifs at hopens ⊢
    exact .idle (.inr rfl) (inFlight_empty rfl)
  | _ => cases hopens

theorem limits_quiet (hl : Limits h.scb h.bufTx mss) (hq : Quiet h h') :
    Limits h'.scb h'.bufTx (lasting h'.scb.state mss) := by
  cases hq with
  | aborted heq =>
    rw [heq]
    exact .idle (.inl rfl) (inFlight_empty rfl)
  | kept d wnd hp hscb htx =>
  have hkept : Limits h'.scb h.bufTx mss := by
    rw [hscb]
    exact hl.kept (inFlight_kept hl.flight rfl rfl hp) rfl rfl
  rcases htx with htx | ⟨hclosed, -⟩
  · rw [htx]
    exact hkept.lasts
  refine Limits.lasts ⟨hkept.flight, fun hq => ?_, hkept.early, hkept.known⟩
  rw [hscb] at hq
  cases (closed_queued hclosed).symm.trans hq

theorem limits_write {b : List UInt8} {n : ℕ} {err : Option Err} (hl : Limits h.scb h.bufTx mss)
    (hs : Sending h.scb h.bufTx stream) (hwrite : h.write b = .ok (h', n, err)) :
    Limits h'.scb h'.bufTx (lasting h'.scb.state mss) := by
  rcases write_laid hs hwrite with ⟨rfl, -⟩ | ⟨-, -, -, _, _, _, _, tx, -, -, rfl, hlist, -⟩
  · exact hl.lasts
  refine Limits.lasts ⟨hl.flight, fun hq hne pkt hpkt => ?_, hl.early, hl.known⟩
  rw [hlist] at hpkt
  exact hl.sized hq hne pkt hpkt

theorem pacing_step {s' : Paced} (hs : Pacing s) (hguard : Calm s op) (hstep : step s op = .ok s') :
    Pacing s' := by
  obtain ⟨flow, hflow, rfl⟩ := map_ok hstep
  refine ⟨flowing_step hs.flowing hguard.steady hflow, ?_⟩
  have hin := hs.flowing.inBounds
  have hsend := hs.flowing.sending
  have hl := hs.limits
  -- the calls that are not Recv, Send or Write
  have hother : (∀ b, op ≠ .write b) → (∀ len extra pol, op ≠ .send len extra pol) →
      (∀ keep pkt, op ≠ .recv keep pkt) →
      (s.flow.h.opens op = false → ∀ h', s.flow.h.handlerStep op = .ok h' →
        Limits h'.scb h'.bufTx (lasting h'.scb.state s.mss)) →
      Limits flow.h.scb flow.h.bufTx (heard s.flow.h flow.h op s.mss) := by
    intro hw hse hr hrest
    obtain ⟨h', hh, rfl⟩ := step_other hw hse hflow
    have hheard : ∀ h'', heard s.flow.h h'' op s.mss = lasting h''.scb.state s.mss := by
      intro h''
      cases op with
      | recv keep pkt => exact absurd rfl (hr keep pkt)
      | _ => rfl
    rw [hheard]
    cases hopens : s.flow.h.opens op with
    | true => exact limits_opened hopens hh s.mss
    | false => exact hrest hopens h' hh
  cases op with
  | write b =>
    obtain ⟨⟨h', n, err⟩, hr, rfl⟩ := map_ok hflow
    exact limits_write hl hsend hr
  | send len extra pol =>
    obtain ⟨⟨h', r⟩, hr, rfl⟩ := map_ok hflow
    obtain ⟨hclosed, hfol, hready⟩ := hguard
    have hout := sends_of_send hr
    exact limits_sends hl hsend hs.flowing.near hclosed hfol
      (hready.intact hsend hclosed hfol hout) hout
  | recv keep pkt =>
    obtain ⟨h', hh, rfl⟩ := step_other (by simp) (by simp) hflow
    obtain ⟨err, hr⟩ := map_fst_ok hh
    exact limits_received hin hl hsend hguard.1 hguard.2 (received_of_recv hin hr)
  | setBuffers | openActive | openListen | abort | close | shutdownRead | requeue | setPolicy
  | read =>
    exact hother (by simp) (by simp) (by simp) (fun hopens h' hh =>
      limits_quiet hl (step_quiet hin (by simp) (by simp) (by simp) hopens hh))

theorem run_pacing {ops : List HandlerOp} (hopen : Opened h)
    (hops : Guarded step Calm { flow := { h := h } } ops)
    (hrun : exec step { flow := { h := h } } ops = .ok s) : Pacing s := by
  refine exec_invariant (fun _ _ _ => pacing_step) ops _ s ?_ hops hrun
  refine ⟨flowing_fresh (opened_sound hopen), ?_⟩
  have hzero : ∀ st, lasting st 0 = 0 := fun st => by rw [lasting, ite_self]
  cases hopen with
  | @active h localPort remotePort iss hok hring =>
    have hopens : h.opens (.openActive localPort remotePort iss) := by
      simpa [opens] using hok
    have hlim := limits_opened hopens rfl 0
    rwa [hzero] at hlim
  | @passive h localPort iss hok hring =>
  have hopens : h.opens (.openListen localPort iss) := by simpa [opens] using hok
  have hlim := limits_opened hopens rfl 0
  rwa [hzero] at hlim

/-- In every calm run snd.UNA is not past snd.NXT, and of what the next Send emits every
new byte lies below snd.UNA + snd.WND and the payload fits the MSS of the peer and the
buffer. -/
theorem sends_within_limits (h : Handler) (hopen : Opened h) (ops : List HandlerOp)
    (hops : Guarded step Calm { flow := { h := h } } ops) (s : Paced)
    (hrun : exec step { flow := { h := h } } ops = .ok s) :
    Value.lessThan s.flow.h.scb.snd.nxt s.flow.h.scb.snd.una = false ∧
    ∀ len extra pol, Calm s (.send len extra pol) →
      ∀ h' r, s.flow.h.send len (len + extra) pol = .ok (h', r) →
        ∀ f ∈ r.frame, f.payload ≠ [] →
          (∀ i < f.payload.length, Unsent s.flow.top (advance f.seg.seq i) →
            ahead s.flow.h.scb.snd.una (advance f.seg.seq i) < s.flow.h.scb.snd.wnd.toNat) ∧
          (s.mss ≠ 0 → f.payload.length ≤ s.mss.toNat) ∧
          f.offset * 4 + f.payload.length ≤ len := by
  have hp := run_pacing hopen hops hrun
  have hs := hp.flowing.sending
  refine ⟨?_, fun len extra pol hnext h' r hsend f hf hne => ?_⟩
  · have hfl := hp.limits.flight
    unfold inFlight at hfl
    rw [← Bool.not_eq_true, lessThan_iff]
    by_cases heq : s.flow.h.scb.snd.una = s.flow.h.scb.snd.nxt
    · rw [heq, ahead_self]
      omega
    · have hsum := ahead_add_ahead _ _ heq
      omega
  obtain ⟨hclosed, hfol, hready⟩ := hnext
  have hoff := send_offset hsend hf hne
  have hsafe := hready.intact hs hclosed hfol (Handler.sends_of_send hsend)
  cases Handler.sends_of_send hsend with
  | idle | quiet | ended => cases hf
  | @transmitted start _ _ _ hlive hstart ht =>
  obtain ⟨hmid, -, hsame, -⟩ := sending_starts hs hclosed hfol hstart
  cases ht with
  | yielded | refused => cases hf
  | @emitted mid seg offset options payload hch hok =>
  obtain rfl : mid.frameOf seg offset options payload = f := Option.some.inj hf
  have hrst : hasAny seg.flags flagRST = false := by
    rw [← Bool.not_eq_true]
    exact fun hr => hne (hsafe.rst _ rfl hr)
  have hn := hp.flowing.near
  obtain ⟨hwnd, hmss, hroom⟩ := payload_limits (limits_starts hp.limits hs hn hfol hstart) hmid
    (near_starts hn hstart) (marked_starts hp.flowing.marked hs hfol hstart) hch hrst hne
  have hopen : start.scb.state ≠ .closed := by
    intro hst
    have hq := chosen_queued hch hne
    rw [hst] at hq
    cases hq
  have hsnd := starts_snd hstart hopen
  have hpos : 0 < payload.length := length_pos_iff.mpr hne
  have hfit := hroom.trans (payloadRoom_le _ _ _ _)
  refine ⟨fun i hi hnew => ?_, hmss, ?_⟩
  · have hlt := hwnd i hi hnew
    rw [hsnd] at hlt
    exact hlt
  rw [hoff]
  change s.flow.h.txOffset len pol * 4 + payload.length ≤ len
  omega

def synOfMssThree : List UInt8 :=
  [4, 210, 0, 80, 0, 0, 1, 44, 0, 0, 0, 0, 96, 2, 0, 4, 0, 0, 0, 0, 2, 4, 0, 3]

def eightBytesOps : List HandlerOp :=
  [.recv true synOfMssThree, .send 60 0 {},
    .recv true (Handler.packet 1234 80 { seq := 301, ack := 101, wnd := 4, flags := flagACK } []),
    .setPolicy true, .write [1, 2, 3, 4, 5, 6, 7, 8]]

theorem sends_within_limits_mss :
    ∃ s h' r, exec step { flow := { h := listening } } eightBytesOps = .ok s ∧ s.mss = 3 ∧
      Value.lessThan s.flow.h.scb.snd.nxt s.flow.h.scb.snd.una = false ∧
      s.flow.h.send 60 60 { limit := 40 } = .ok (h', r) ∧
      r.frame.map (fun f => (f.seg.seq, f.payload)) = some (101, [1, 2, 3]) ∧
      ∀ f ∈ r.frame, f.payload ≠ [] →
        (∀ i < f.payload.length, Unsent s.flow.top (advance f.seg.seq i) →
          ahead s.flow.h.scb.snd.una (advance f.seg.seq i) < s.flow.h.scb.snd.wnd.toNat) ∧
        (s.mss ≠ 0 → f.payload.length ≤ s.mss.toNat) ∧
        f.offset * 4 + f.payload.length ≤ 60 := by
  obtain ⟨s, hrun, hmss, hnext, hframe⟩ : ∃ s,
      exec step { flow := { h := listening } } eightBytesOps = .ok s ∧ s.mss = 3 ∧
      Calm s (.send 60 0 { limit := 40 }) ∧
      (s.flow.h.send 60 60 { limit := 40 }).toOption.map
        (fun r => r.2.frame.map fun f => (f.seg.seq, f.payload)) = some (some (101, [1, 2, 3])) :=
    exists_exec (by decide +kernel)
  obtain ⟨hle, hlim⟩ := sends_within_limits listening opened_listening eightBytesOps
    (by decide +kernel) s hrun
  cases hsend : s.flow.h.send 60 60 { limit := 40 } with
  | error p =>
    rw [hsend] at hframe
    cases hframe
  | ok r =>
  rw [hsend] at hframe
  exact ⟨s, r.1, r.2, hrun, hmss, hle, hsend, Option.some.inj hframe, hlim 60 0 _ hnext _ _ hsend⟩

/-- An ACK half the number space past snd.NXT puts snd.UNA after it. After a rewind into
the middle of a packet, three duplicate ACKs make Send repeat more than was ever sent,
past the window and the MSS. -/
theorem sends_past_limits :
    (∃ s, exec step { flow := { h := listening } } (eightBytesOps.take 3 ++ [.recv true
        (Handler.packet 1234 80
          { seq := 301, ack := 0x80000065, wnd := 4, flags := flagACK } [])]) = .ok s ∧
      Value.lessThan s.flow.h.scb.snd.nxt s.flow.h.scb.snd.una = true) ∧
    ∃ s, exec step { flow := { h := listening } } (eightBytesOps ++
        [.send 60 0 { limit := 40 }, .send 60 0 { rtxFrom := 102, doRtx := true, limit := 0 }] ++
        List.replicate 3 (.recv true (Handler.packet 1234 80
          { seq := 301, ack := 101, wnd := 4, flags := flagACK } []))) = .ok s ∧
      s.mss = 3 ∧ Unsent s.flow.top 108 ∧
      ¬ ahead s.flow.h.scb.snd.una 108 < s.flow.h.scb.snd.wnd.toNat ∧
      (s.flow.h.send 60 60 { limit := 40 }).toOption.map
        (fun r => r.2.frame.map fun f => (f.seg.seq, f.payload)) =
          some (some (101, [1, 2, 3, 4, 5, 6, 7, 8])) :=
  ⟨exists_exec (by decide +kernel), exists_exec (by decide +kernel)⟩

end Lneto.FlowControl
