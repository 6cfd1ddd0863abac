import Lneto.SendRuns

/-!
The distance from snd.UNA to snd.NXT. It stays below half the number space in
every state of a steady run, so that neither is ever past the other.
-/
namespace Lneto.SendDistance

open Segments SerialNumbers GuardedRuns Control InternalRing TransmitRing Frames Connection
  SendCursors SendProgress SendStream SendRuns Flags ControlBlock Bool

def finPending (scb : ControlBlock) : ℕ :=
  if Flags.hasAny scb.pending0 flagFIN then 1 else 0

/-- The sequence numbers in flight, with a FIN that is still to go. -/
def inFlight (scb : ControlBlock) : ℕ := ahead scb.snd.una scb.snd.nxt + finPending scb

theorem finPending_le (scb : ControlBlock) : finPending scb ≤ 1 := by
  unfold finPending
  split_ifs <;> omega

theorem finPending_of {scb scb' : ControlBlock}
    (h : hasAny scb'.pending0 flagFIN = hasAny scb.pending0 flagFIN) :
    finPending scb' = finPending scb := by
  rw [finPending, h, finPending]

section Distances
variable {scb scb' : ControlBlock} {tx : RingTx} {stream : List UInt8} {seg : Segment}

theorem inFlight_handshake (hs : Sending scb tx stream)
    (hst : scb.state = .synSent ∨ scb.state = .synRcvd) : inFlight scb ≤ 2 := by
  have hpre : scb.state.isPreestablished := by rcases hst with hst | hst <;> rw [hst] <;> rfl
  have hfin := finPending_le scb
  rw [inFlight, (hs.opening hpre).2]
  rcases hs.handshake hst with hn | hn
  · rw [hn, ahead_self]
    omega
  · rw [hn, show ahead scb.snd.iss (scb.snd.iss + 1) = 1 from ahead_advance _ 1 (by omega)]
    omega

theorem inFlight_kept (hlt : inFlight scb < 2 ^ 31) (huna : scb'.snd.una = scb.snd.una)
    (hnxt : scb'.snd.nxt = scb.snd.nxt)
    (hp : scb'.pending0 = scb.pending0 ∨ scb'.pending0 = scb.pending0 ||| flagACK) :
    inFlight scb' < 2 ^ 31 := by
  rw [inFlight, huna, hnxt, finPending_of (hasAny_pending hp (by decide))]
  exact hlt

theorem inFlight_empty (h : scb.snd.una = scb.snd.nxt) : inFlight scb < 2 ^ 31 := by
  have := finPending_le scb
  rw [inFlight, h, ahead_self]
  omega

theorem ahead_ackedUna (hlt : ahead scb.snd.una scb.snd.nxt < 2 ^ 31)
    (hhalf : seg.ack ≠ scb.snd.una + 0x80000000#32) :
    ahead (scb.ackedUna seg) scb.snd.nxt ≤ ahead scb.snd.una scb.snd.nxt := by
  have hnxt : scb.snd.nxt = advance scb.snd.una (ahead scb.snd.una scb.snd.nxt) :=
    (advance_ahead _ _).symm
  rcases ackedUna_cases scb seg scb.snd.una (u := 0) (Nat.zero_le _) (by omega)
    (advance_zero _).symm hnxt hhalf with ⟨p, -, hpc, -, hout, -⟩ | ⟨hout, -⟩
  · rw [hout]
    nth_rewrite 1 [hnxt]
    rw [ahead_advance_advance _ hpc (by omega)]
    omega
  · rw [hout]

theorem ackedUna_empty {una : Value} (huna : scb.snd.una = una) (hnxt : scb.snd.nxt = una)
    (hhalf : seg.ack ≠ una + 0x80000000#32) : scb.ackedUna seg = una := by
  rcases ackedUna_cases scb seg una (u := 0) (c := 0) le_rfl (by omega)
    (by rw [huna, advance_zero]) (by rw [hnxt, advance_zero]) (by rw [huna]; exact hhalf) with
    ⟨p, hp0, hp1, -⟩ | ⟨hout, -⟩
  · omega
  · exact hout.trans huna

theorem inFlight_accepted {mid : ControlBlock} {pending : Flags} (hs : Sending scb tx stream)
    (hlt : inFlight scb < 2 ^ 31) (hhalf : seg.ack ≠ scb.snd.una + 0x80000000#32)
    (hlast : scb.state = .lastAck → seg.ack ≠ 0x80000000#32)
    (hacc : scb.Accepts seg mid pending) : inFlight (mid.acceptSegment seg pending) < 2 ^ 31 := by
  obtain ⟨_, _, _, _, _, -, -, -, heq⟩ := acceptSegment_eq mid seg pending
  have huna : (mid.acceptSegment seg pending).snd.una = mid.ackedUna seg := by rw [heq]
  have hnxt : (mid.acceptSegment seg pending).snd.nxt = mid.snd.nxt := by rw [heq]
  have hpend : (mid.acceptSegment seg pending).pending0 = mid.pending0 ||| pending := by rw [heq]
  -- a block with nothing in flight stays so
  have hfresh : ∀ v, mid.snd.una = v → mid.snd.nxt = v → seg.ack ≠ v + 0x80000000#32 →
      inFlight (mid.acceptSegment seg pending) < 2 ^ 31 := by
    intro v hu hn hne
    exact inFlight_empty (by rw [huna, hnxt, ackedUna_empty hu hn hne, hn])
  -- otherwise snd.UNA moves towards snd.NXT
  have hmove : mid.snd = scb.snd → mid.pending0 = scb.pending0 → pending = 0 ∨ pending = flagACK →
      inFlight (mid.acceptSegment seg pending) < 2 ^ 31 := by
    intro hsnd hp0 hp
    have hfin : finPending (mid.acceptSegment seg pending) = finPending scb := by
      refine finPending_of (hasAny_pending ?_ (by decide))
      rw [hpend, hp0]
      rcases hp with rfl | rfl
      · exact .inl (by simp)
      · exact .inr rfl
    have hacked : mid.ackedUna seg = scb.ackedUna seg := by simp only [ackedUna, hsnd]
    unfold inFlight at hlt
    have hdist : ahead (scb.ackedUna seg) scb.snd.nxt ≤ ahead scb.snd.una scb.snd.nxt :=
      ahead_ackedUna (by omega) hhalf
    rw [inFlight, hfin, huna, hnxt, hacked, hsnd]
    omega
  cases rcvState_handled hacc.handled with
  | listenSyn hst | simultaneousOpen hst =>
    have hiss := (hs.opening (by rw [hst]; rfl)).2
    exact hfresh scb.snd.una hiss.symm hiss.symm hhalf
  | synAcked => exact hmove rfl rfl (.inr rfl)
  | opened => exact hmove rfl rfl (.inl rfl)
  | moved _ hp => exact hmove rfl rfl hp
  | finished hst => exact hfresh 0 rfl rfl (by simpa using hlast hst)

theorem inFlight_rejected {e : Err} (hlt : inFlight scb < 2 ^ 31)
    (hrecv : scb.recv seg = .ok (scb', some e)) : inFlight scb' < 2 ^ 31 := by
  obtain ⟨c, hemit⟩ := scb.triggerChallengeAckEmit_eq
  cases recv_outcome hrecv with
  | ignored => exact hlt
  | challenge =>
    rw [hemit]
    exact inFlight_kept hlt rfl rfl (.inl rfl)
  | limit | rstAbort | preReset | relisten => exact inFlight_empty rfl
  | synChallenge | rstChallenge =>
    rw [hemit]
    exact inFlight_kept hlt rfl rfl (.inr rfl)
  | ackDrop => exact inFlight_kept hlt rfl rfl (.inr rfl)

/-- Where a rewind that the block takes leaves snd.NXT. -/
theorem inFlight_rewound {seq : Value} (hlt : inFlight scb < 2 ^ 31)
    (htake : scb.retransmitFrom seq = (scb', true)) : inFlight scb' < 2 ^ 31 := by
  unfold retransmitFrom at htake
  split_ifs at htake with hq hrange
  · simp at htake
  · simp at htake
  rw [not_eq_true, or_eq_false_iff] at hrange
  obtain ⟨rfl, -⟩ := Prod.mk.inj htake
  have hfin : finPending { scb with
      snd := { scb.snd with nxt := seq }, dupack := 0, nRetransmit := 0 } = finPending scb :=
    finPending_of rfl
  unfold inFlight at hlt ⊢
  rw [hfin]
  obtain ⟨hback, hahead⟩ := hrange
  rw [← not_eq_true, lessThan_iff] at hback hahead
  dsimp only
  have hseq : seq = advance scb.snd.una (ahead scb.snd.una seq) := (advance_ahead _ _).symm
  have hnxt : scb.snd.nxt = advance scb.snd.una (ahead scb.snd.una scb.snd.nxt) :=
    (advance_ahead _ _).symm
  have hbound := ahead_lt scb.snd.una seq
  by_contra hge
  -- past snd.NXT, and then either past it by less than half or behind snd.UNA
  have hpast : ahead scb.snd.nxt seq = ahead scb.snd.una seq - ahead scb.snd.una scb.snd.nxt := by
    nth_rewrite 1 [hnxt]
    nth_rewrite 1 [hseq]
    exact ahead_advance_advance _ (by omega) (by omega)
  have hne : scb.snd.una ≠ seq := by
    intro heq
    rw [← heq, ahead_self] at hge
    omega
  have hsum := ahead_add_ahead _ _ hne
  omega

theorem inFlight_close (hs : Sending scb tx stream)
    (hnear : scb.state.txQueuedDataOpen → Near tx stream) (hok : scb.close.2 = none) :
    inFlight scb.close.1 < 2 ^ 31 := by
  by_cases hopen : scb.close.1.state = .closed
  · have hzero : scb.close.1 = {} := by
      unfold close at hopen hok ⊢
      cases hst : scb.state <;> simp [hst, abort, reset] at hopen hok ⊢
    rw [hzero]
    exact inFlight_empty rfl
  have hsnd := close_snd hopen
  have hfin := finPending_le scb.close.1
  have hdist : ahead scb.snd.una scb.snd.nxt + 1 < 2 ^ 31 := by
    by_cases hdata : scb.state.txDataOpen
    · have hq : scb.state.txQueuedDataOpen := by simp [State.txQueuedDataOpen, hdata]
      obtain ⟨a, u, b, hcur⟩ := hs.level hdata
      have hspan := (hnear hq).span hcur.laid
      obtain ⟨_, hlay⟩ := hcur.laid
      have hb := hlay.b_le
      have hau := hcur.behind
      rw [hcur.una, hcur.nxt, ahead_advance_advance _ hcur.acked (by omega)]
      omega
    have hst : scb.state = .synRcvd := by
      unfold close at hopen hok
      revert hdata
      cases hst : scb.state <;> simp [hst, State.txDataOpen, abort, reset] at hopen hok ⊢
    have hle := inFlight_handshake hs (.inr hst)
    unfold inFlight at hle
    omega
  rw [inFlight, hsnd]
  omega

theorem ahead_add_le (x y : Value) (n : Size) : ahead x (y + n) ≤ ahead x y + n.toNat := by
  unfold ahead
  bv_omega

theorem finPending_commit (hs : Sending scb tx stream) (hst : scb.state ≠ .closed) :
    finPending (scb.commitSend seg) + (if hasAny seg.flags flagFIN then 1 else 0) ≤
      max (finPending scb) (if hasAny seg.flags flagFIN then 1 else 0) := by
  have hc := commits seg hs.second hst
  unfold finPending
  rw [hc.pending, hasAny_clear_FIN]
  cases hasAny scb.pending0 flagFIN <;> cases hasAny seg.flags flagFIN <;> simp

end Distances

section Emitting
variable {h mid : Handler} {stream payload options : List UInt8} {seg : Segment} {room offset : ℕ}
  {awaitingSyn : Bool}

section
variable (hs : Sending h.scb h.bufTx stream)
  (hch : Handler.Chosen h awaitingSyn room mid (.segment seg offset options payload))
include hs hch

/-- The flags of a segment: FIN is one that was queued, and SYN belongs to the handshake. -/
theorem chosen_flags (hst : h.scb.state ≠ .closed) (hawait : awaitingSyn → h.scb.state = .closed) :
    (hasAny seg.flags flagFIN → hasAny h.scb.pending0 flagFIN = true) ∧
    (hasAny seg.flags flagSYN → h.scb.state = .synSent ∨ h.scb.state = .synRcvd) := by
  have hnone : ∀ {f m : Flags} {P : Prop}, hasAny f m = false → hasAny f m → P := by
    intro f m P hf ht
    cases hf.symm.trans ht
  have hpends : ∀ {pseg : Segment}, h.scb.Pends room (some pseg) →
      (hasAny pseg.flags flagFIN → hasAny h.scb.pending0 flagFIN = true) ∧
      (hasAny pseg.flags flagSYN → h.scb.state = .synSent ∨ h.scb.state = .synRcvd) := by
    intro pseg hp
    cases hp with
    | challenge | resend =>
      exact ⟨hnone (show hasAny flagACK flagFIN = false by decide),
        hnone (show hasAny flagACK flagSYN = false by decide)⟩
    | ordinary =>
    refine ⟨fun hf => ?_, fun hf => ?_⟩
    · rwa [← h.scb.hasAny_pendingFlags (by decide)]
    have hsyn : hasAny h.scb.pending0 flagSYN := by
      rwa [← h.scb.hasAny_pendingFlags (by decide)]
    exact .inr (hs.syn hsyn).1
  cases hch with
  | syn hwhy =>
    refine ⟨hnone (show hasAny flagSYN flagFIN = false by decide), fun _ => .inl ?_⟩
    rcases hwhy with haw | ⟨-, hst'⟩
    · exact absurd (hawait haw) hst
    · exact hst'
  | synackAgain hst' =>
    exact ⟨hnone (show hasAny synack flagFIN = false by decide), fun _ => .inr hst'⟩
  | bare hp =>
    have hflags := hpends hp
    exact hflags
  | filled hp =>
    rw [dataSegment_hasAny _ _ _ (by decide), dataSegment_hasAny _ _ _ (by decide)]
    exact hpends hp

theorem chosen_datalen : seg.datalen = BitVec.ofNat 32 payload.length := by
  cases hch with
  | syn | synackAgain | filled => rfl
  | @bare pseg hp hwhy =>
  change pseg.datalen = BitVec.ofNat 32 0
  rcases hwhy with hf | hd
  · cases hp with
    | challenge => rfl
    | resend => exact absurd hf (by simp only [resendSegment]; decide)
    | ordinary =>
    refine (ordinary_bare h.scb room ?_).1
    have hsyn : hasAny h.scb.pending0 flagSYN := by
      rw [← h.scb.hasAny_pendingFlags (by decide)]
      change hasAny (h.scb.ordinarySegment room).flags flagSYN
      rw [hf]
      decide
    rw [(hs.syn hsyn).1]
    rfl
  · exact hd

theorem finPending_sent (hst : h.scb.state ≠ .closed)
    (hawait : awaitingSyn → h.scb.state = .closed) :
    finPending (h.scb.commitSend seg) + (if hasAny seg.flags flagFIN then 1 else 0) ≤
      finPending h.scb := by
  have hflags := chosen_flags hs hch hst hawait
  have hfin : finPending (h.scb.commitSend seg) +
      (if hasAny seg.flags flagFIN then 1 else 0) ≤ _ := finPending_commit hs hst
  have hpend : (if hasAny seg.flags flagFIN then 1 else 0) ≤ finPending h.scb := by
    unfold finPending
    split_ifs with h1 h2
    · exact le_rfl
    · exact absurd (hflags.1 h1) h2
    · omega
    · omega
  rwa [max_eq_left hpend] at hfin

theorem chosen_end {start : Value} {k : ℕ} (hsyn : hasAny seg.flags flagSYN = false) :
    advance start k + seg.len = advance start
      (k + payload.length + if hasAny seg.flags flagFIN then 1 else 0) := by
  rw [Segment.len_eq, chosen_datalen hs hch, hsyn, ← advance_advance, ← advance_advance]
  cases hasAny seg.flags flagFIN <;> simp [advance, BitVec.add_assoc]

theorem inFlight_sent
    (hnear : h.scb.state.txQueuedDataOpen → Near h.bufTx stream) (hlt : inFlight h.scb < 2 ^ 31)
    (hsend : (h.scb.send seg).2 = none)
    (hrst : hasAny seg.flags flagRST = false ∨ h.scb.state = .timeWait)
    (hawait : awaitingSyn → h.scb.state = .closed) : inFlight (h.scb.commitSend seg) < 2 ^ 31 := by
  by_cases hst : h.scb.state = .closed
  · rw [(h.scb.commitSend_closed seg hst (send_ok hsend).1).2]
    have hone : ahead seg.seq (seg.seq + 1) = 1 := ahead_advance _ 1 (by omega)
    have hnone : hasAny 0 flagFIN = false := hasAny_zero _
    change ahead seg.seq (seg.seq + 1) + (if hasAny 0 flagFIN then 1 else 0) < 2 ^ 31
    rw [hone, hnone]
    decide
  have hc := commits seg hs.second hst
  have hflags := chosen_flags hs hch hst hawait
  have hfin := finPending_sent hs hch hst hawait
  unfold inFlight at hlt ⊢
  rw [hc.una, hc.nxt]
  by_cases hold : Value.lessThan seg.seq h.scb.snd.nxt
  · rw [if_pos hold]
    omega
  rw [if_neg hold]
  by_cases hsyn : hasAny seg.flags flagSYN
  · -- the handshake: at most a SYN and a FIN past ISS + 1
    have hle := inFlight_handshake hs (hflags.2 hsyn)
    unfold inFlight at hle
    have hnil : payload = [] := by
      by_contra hne
      have hq := chosen_queued hch hne
      rcases hflags.2 hsyn with h' | h' <;> rw [h'] at hq <;> cases hq
    have hlen : seg.len.toNat ≤ 2 := by
      rw [Segment.len_eq, chosen_datalen hs hch, hnil]
      cases hasAny seg.flags flagSYN <;> cases hasAny seg.flags flagFIN <;> decide
    have hadd := ahead_add_le h.scb.snd.una h.scb.snd.nxt seg.len
    omega
  rw [not_eq_true] at hsyn
  by_cases hnil : payload = []
  · have hadd := ahead_add_le h.scb.snd.una h.scb.snd.nxt seg.len
    have hlen : seg.len.toNat = if hasAny seg.flags flagFIN then 1 else 0 := by
      rw [Segment.len_eq, chosen_datalen hs hch, hnil, hsyn]
      cases hasAny seg.flags flagFIN <;> decide
    omega
  have hq := chosen_queued hch hnil
  have hnear := hnear hq
  have hrst : hasAny seg.flags flagRST = false := by
    rcases hrst with hrst | htw
    · exact hrst
    · rw [htw] at hq
      cases hq
  rcases carried_of_chosen hs hch hrst with ⟨-, hnil'⟩ | hcar
  · exact absurd hnil' hnil
  cases hcar with
  | @again a b hcur _ hseq hbytes hend =>
    have hpos : 0 < payload.length := List.length_pos_iff.mpr hnil
    have hspan := hnear.span hcur.laid
    obtain ⟨_, hlay⟩ := hcur.laid
    have hb := hlay.b_le
    refine absurd ?_ hold
    rw [hseq, hcur.una, hcur.nxt]
    exact (lessThan_advance_iff _ (by omega) (by omega)).mpr (by omega)
  | @fresh a u b hcur hlaid hseq =>
  have hspan := hnear.span hcur.laid
  obtain ⟨_, hlay⟩ := hlaid
  have hb := hlay.b_le
  have hau := hcur.behind
  have hub := hcur.acked
  have hle := finPending_le h.scb
  rw [hcur.una, hcur.nxt, chosen_end hs hch hsyn]
  split_ifs at hfin ⊢ with hf
  all_goals
    rw [ahead_advance_advance _ (by omega) (by omega)]
    omega

end

end Emitting

end Lneto.SendDistance
