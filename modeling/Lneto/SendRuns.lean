import Lneto.SendStream

/-!
Runs of a handler over any number of connections and streams of any length. A
run carries the bytes that Write accepted since the last open and one past the
last data byte that left. A bound on the ring takes the place of the bound on
the stream.
-/
namespace Lneto.SendRuns

open Segments SerialNumbers GuardedRuns Control InternalRing TransmitRing Frames Connection
  SendCursors SendProgress SendStream List ControlBlock State
open Handler (withPayload_scb withSyn preTx chosen_scb afterSend autoClose_scb step_inBounds)

variable {h h' mid start : Handler} {b pkt stream : List UInt8} {len n room : ℕ}
  {awaitingSyn keep : Bool} {err : Option Err} {seg : Segment} {tx tx' : RingTx} {pol : PolicyTx}
  {op : HandlerOp} {r : SendResult} {top : Option Value}

/-- Where the payload of a data segment comes from: new bytes at snd.NXT, or the oldest
packet once more. -/
inductive Carried (h : Handler) (stream : List UInt8) (room : ℕ) (mid : Handler) (seg : Segment)
    (payload : List UInt8) : Prop where
  | fresh {a u b : ℕ} (hcur : Cursors h.scb h.bufTx stream a u b b)
      (hlaid : Laid mid.bufTx (h.scb.snd.iss + 1) stream a (b + payload.length))
      (hseq : seg.seq = h.scb.snd.nxt) (hbytes : payload = (stream.drop b).take payload.length)
      (hlimit : payload.length ≤ h.scb.limitPayload room)
      (hpkts : ∀ pkt ∈ mid.bufTx.slist.pkts,
        pkt ∈ h.bufTx.slist.pkts ∨ pkt.size.toNat = payload.length)
  | again {a b : ℕ} (hcur : Cursors h.scb h.bufTx stream a a b b) (htx : mid.bufTx = h.bufTx)
      (hseq : seg.seq = h.scb.snd.una) (hbytes : payload = (stream.drop a).take payload.length)
      (hend : a + payload.length ≤ b) (hroom : payload.length ≤ room)
      (hsize : ∃ pkt ∈ h.bufTx.slist.pkts, payload.length ≤ pkt.size.toNat)

/-- A segment that is no reset takes nothing from the ring, or carries new bytes or the
oldest packet. -/
theorem carried_of_chosen {payload options : List UInt8} {offset : ℕ}
    (hs : Sending h.scb h.bufTx stream)
    (hch : Handler.Chosen h awaitingSyn room mid (.segment seg offset options payload))
    (hrst : Flags.hasAny seg.flags flagRST = false) :
    (mid.bufTx = h.bufTx ∧ payload = []) ∨ Carried h stream room mid seg payload := by
  have hpos : ∀ {n : Size}, n ≠ 0 → 0 < n.toNat := by
    intro n hn
    bv_omega
  cases hch with
  | @filled pseg tx _ hp hsyn hdata hmake =>
    have hq := filled_queued hp hdata
    rcases hs.cursors hq with ⟨-, hw⟩ | ⟨a, u, b, c, hcur⟩
    · exact .inl ((hs.empty hw).makePacket hmake)
    have hlen := length_makePacket_le hmake
    cases hp with
    | challenge => exact absurd rfl hdata
    | resend hre =>
      simp only [hasPendingRetransmit, Bool.and_eq_true, decide_eq_true_eq] at hre
      have hopen := hre.1.1
      obtain rfl := hcur.level hopen
      obtain rfl := hcur.exact hopen
      have hout : u < c := by
        have hdup : h.scb.dupack ≠ 0 := by
          intro hz
          rw [hz] at hre
          exact absurd hre.1.2 (by decide)
        have hdiff := hs.dups hopen hdup
        rw [hcur.una, hcur.nxt] at hdiff
        rcases Nat.eq_or_lt_of_le hcur.acked with heq | hlt
        · exact absurd (by rw [heq]) hdiff
        · exact hlt
      have hmake' : h.bufTx.makePacket (h.scb.resendSegment room).datalen.toNat
          (advance (h.scb.snd.iss + 1) u) = .ok (tx, payload, none) := by
        rw [← hcur.una]
        exact hmake
      obtain ⟨htx, hbytes, hend, hsize⟩ :=
        makePacket_oldest hcur.laid hcur.near (hpos hdata) hout hmake'
      refine .inr (.again hcur htx rfl hbytes hend (hlen.trans ?_) hsize)
      exact Nat.mod_le _ _
    | ordinary hno =>
      have hseq : (h.scb.ordinarySegment room).seq = h.scb.snd.nxt :=
        ordinary_seq ((dataSegment_hasAny _ _ _ (by decide)).symm.trans hrst)
      rw [hseq] at hmake
      rcases hcur.next with rfl | ⟨rfl, hall, -, -⟩
      · rw [hcur.nxt] at hmake
        obtain ⟨hlaid, hbytes, hsizes⟩ := makePacket_next hcur.laid hcur.near (hpos hdata) hmake
        refine .inr (.fresh hcur hlaid hseq hbytes (hlen.trans ?_) hsizes)
        simp only [ordinarySegment, hq, if_true, BitVec.toNat_ofNat]
        exact Nat.mod_le _ _
      · rw [hcur.nxt] at hmake
        exact .inl (makePacket_past hcur.laid hall (.inr rfl) hmake)
  | _ => exact .inl ⟨rfl, rfl⟩

def raise (top : Option Value) (f : TxFrame) : Option Value :=
  if f.payload = [] then top
  else
    match top with
    | none => some (advance f.seg.seq f.payload.length)
    | some t =>
      some (if Value.lessThan t (advance f.seg.seq f.payload.length) then
        advance f.seg.seq f.payload.length else t)

def Marks (top : Option Value) (iss : Value) (m : ℕ) : Prop :=
  (top = none ∧ m = 0) ∨ (0 < m ∧ top = some (advance (iss + 1) m))

theorem raise_marks {iss : Value} {m k : ℕ} {f : TxFrame} (hm : Marks top iss m)
    (hne : f.payload ≠ []) (hseq : f.seg.seq = advance (iss + 1) k)
    (hup : k + f.payload.length < m + 2 ^ 31) (hdown : m ≤ k + 2 ^ 31) :
    Marks (raise top f) iss (max m (k + f.payload.length)) := by
  have hpos : 0 < f.payload.length := length_pos_iff.mpr hne
  have hend : advance f.seg.seq f.payload.length = advance (iss + 1) (k + f.payload.length) := by
    rw [hseq, advance_advance]
  unfold raise
  rw [if_neg hne, hend]
  rcases hm with ⟨rfl, rfl⟩ | ⟨hm, rfl⟩
  · exact .inr ⟨by omega, by simp⟩
  refine .inr ⟨by omega, ?_⟩
  dsimp only
  have hless := lessThan_advance_iff (iss + 1) (m := m) (n := k + f.payload.length) (by omega)
    (by omega)
  split_ifs with hlt <;> rw [hless] at hlt
  · rw [max_eq_right (by omega)]
  · rw [max_eq_left (by omega)]

/-- The end of the data against what the ring counts as sent: never behind it, also
after a rewind. -/
structure Marked (scb : ControlBlock) (tx : RingTx) (stream : List UInt8) (top : Option Value) :
    Prop where
  early : scb.state = .closed ∨ scb.state.isPreestablished = true → top = none
  late : scb.state.txQueuedDataOpen = true → ∃ m, stream.length - tx.bufferedUnsent ≤ m ∧
    m ≤ stream.length ∧ Marks top scb.snd.iss m

section Marking
variable {scb scb' : ControlBlock} {tx tx' : RingTx} {stream : List UInt8} {top : Option Value}

theorem Marked.over (hc : scb'.state = .closed) : Marked scb' tx' stream none := by
  refine ⟨fun _ => rfl, fun hq => ?_⟩
  rw [hc] at hq
  cases hq

theorem Marked.kept (h : Marked scb tx stream top)
    (hearly : scb'.state = .closed ∨ scb'.state.isPreestablished →
      scb.state = .closed ∨ scb.state.isPreestablished) (hlate : scb'.state.txQueuedDataOpen →
      (scb.state.txQueuedDataOpen ∧ scb'.snd.iss = scb.snd.iss ∧
        stream.length - tx'.bufferedUnsent ≤ stream.length - tx.bufferedUnsent) ∨
      (stream = [] ∧ scb.state.isPreestablished = true)) : Marked scb' tx' stream top := by
  refine ⟨fun he => h.early (hearly he), fun hq => ?_⟩
  rcases hlate hq with ⟨hold, hiss, hsent⟩ | ⟨rfl, hpre⟩
  · obtain ⟨m, hlow, hhigh, hm⟩ := h.late hold
    rw [hiss]
    exact ⟨m, hsent.trans hlow, hhigh, hm⟩
  · exact ⟨0, by simp, le_rfl, .inl ⟨h.early (.inr hpre), rfl⟩⟩

theorem Marked.same (h : Marked scb tx stream top) (hst : scb'.state = scb.state)
    (hiss : scb'.snd.iss = scb.snd.iss) : Marked scb' tx stream top := by
  refine h.kept (fun he => ?_) (fun hq => .inl ⟨?_, hiss, le_rfl⟩)
  · rwa [hst] at he
  · rwa [hst] at hq

section
variable (hs : Sending scb tx stream) (hhalf : seg.ack ≠ scb.snd.una + 0x80000000#32)
include hs hhalf

theorem unsent_freed {st : State} (hq : scb.state.txQueuedDataOpen)
    (htx : Freed tx tx' seg scb.snd.una st) :
    stream.length - tx'.bufferedUnsent ≤ stream.length - tx.bufferedUnsent := by
  rcases hs.cursors hq with ⟨-, rfl⟩ | ⟨a, u, b, c, hcur⟩
  · simp
  obtain ⟨a', u', ⟨_, hlay'⟩, -⟩ := hcur.freed hhalf htx
  obtain ⟨_, hlay⟩ := hcur.laid
  have h1 := hlay.bufferedUnsent_eq
  have h2 := hlay'.bufferedUnsent_eq
  omega

theorem marked_accepted {mid : ControlBlock} {pending : Flags} (h : Marked scb tx stream top)
    (hacc : scb.Accepts seg mid pending) (htx : Freed tx tx' seg scb.snd.una mid.state)
    (hopen : mid.state ≠ .closed) : Marked (mid.acceptSegment seg pending) tx' stream top := by
  obtain ⟨_, _, _, _, _, -, -, -, heq⟩ := acceptSegment_eq mid seg pending
  rw [heq]
  cases rcvState_handled hacc.handled with
  | listenSyn hst | simultaneousOpen hst =>
    exact h.kept (fun _ => .inr (by rw [hst]; rfl)) (nofun)
  | synAcked hst | opened hst =>
    have hpre : scb.state.isPreestablished := by rw [hst]; rfl
    exact h.kept (fun _ => .inr hpre) (fun _ => .inr ⟨(hs.opening hpre).1, hpre⟩)
  | @moved st _ hm =>
    have hfrom : st.txQueuedDataOpen → scb.state.txQueuedDataOpen := by
      cases hm with
      | stay => exact id
      | peerFin hst | bothFins hst | simultaneousFin hst | ownFinAcked hst =>
        exact fun _ => by rw [hst]; rfl
      | peerFinLast | closingAcked => exact nofun
    refine h.kept (fun he => ?_)
      (fun hq => .inl ⟨hfrom hq, rfl, unsent_freed hs hhalf (hfrom hq) htx⟩)
    cases hm with
    | stay => exact he
    | peerFin | bothFins | simultaneousFin | ownFinAcked | peerFinLast | closingAcked =>
      rcases he with he | he <;> cases he
  | finished => exact absurd rfl hopen

theorem marked_taken (h : Marked scb tx stream top) (hrecv : scb.recv seg = .ok (scb', none))
    (htx : Freed tx tx' seg scb.snd.una scb'.state) (hopen : scb'.state ≠ .closed) :
    Marked scb' tx' stream top := by
  obtain ⟨mid, pending, hacc, rfl⟩ := recv_accepted hrecv
  rw [acceptSegment_state] at htx hopen
  exact marked_accepted hs hhalf h hacc htx hopen

end

theorem marked_rejected {e : Err} (h : Marked scb tx stream top)
    (hrecv : scb.recv seg = .ok (scb', some e)) (hopen : scb'.state ≠ .closed) :
    Marked scb' tx stream top := by
  obtain ⟨c, hemit⟩ := scb.triggerChallengeAckEmit_eq
  cases recv_outcome hrecv with
  | ignored => exact h
  | challenge | synChallenge | rstChallenge =>
    rw [hemit]
    exact h.same rfl rfl
  | limit | rstAbort => exact absurd rfl hopen
  | ackDrop | preReset => exact h.same rfl rfl
  | relisten _ hst => exact h.kept (fun _ => .inr (by rw [hst]; rfl)) (nofun)

theorem marked_received (hin : InBounds h.bufRx) (hm : Marked h.scb h.bufTx stream top)
    (hs : Sending h.scb h.bufTx stream) (hnear : AckNear h pkt)
    (hout : Handler.Received h keep pkt h' err) (hopen : h'.scb.state ≠ .closed) :
    Marked h'.scb h'.bufTx stream top := by
  cases hout with
  | untouched => exact hm
  | staged => exact hm.same rfl rfl
  | rejected hr hrecv => exact marked_rejected hm hrecv hopen
  | finished hr hrecv hclosed => exact absurd hclosed hopen
  | reset hr hrecv hdata hshut hstate =>
    have hst := hopen
    refine Marked.same (marked_taken hs (hnear.ack_ne hr.parsed) hm hrecv (.inr ⟨rfl, ?_⟩) hst)
      rfl rfl
    rcases hstate with hst | hst <;> rw [hst] <;> rfl
  | @accepted _ _ _ scb _ hr hrecv hst _ htx =>
    obtain ⟨d, pending, heq, -⟩ := withPayload_scb scb hin hr.fits
    simp only [heq]
    exact (marked_taken hs (hnear.ack_ne hr.parsed) hm hrecv (.inl htx) hst).same rfl rfl
  | @acceptedSyn _ _ _ scb _ hr hrecv hst _ htx =>
  obtain ⟨d, pending, heq, -⟩ := withPayload_scb scb hin hr.fits
  simp only [withSyn, heq]
  exact (marked_taken hs (hnear.ack_ne hr.parsed) hm hrecv (.inl htx) hst).same rfl rfl

theorem marked_preTx (hm : Marked h.scb h.bufTx stream top) (hs : Sending h.scb h.bufTx stream)
    (hfol : Follows h pol) : Marked (h.preTx pol).scb (h.preTx pol).bufTx stream top := by
  unfold preTx
  split_ifs with hpol
  · cases htake : h.scb.retransmitFrom pol.rtxFrom with
    | mk scb ok =>
    cases ok with
    | false => exact hm
    | true =>
    have hf := hfol hpol (by rw [htake])
    unfold retransmitFrom at htake
    split_ifs at htake with hq hrange
    · simp at htake
    · simp at htake
    rw [Bool.not_eq_true, Bool.not_eq_false'] at hq
    rw [Bool.not_eq_true, Bool.or_eq_false_iff] at hrange
    obtain ⟨rfl, -⟩ := Prod.mk.inj htake
    refine hm.kept id (fun _ => .inl ⟨hq, rfl, ?_⟩)
    rcases hs.cursors hq with ⟨-, rfl⟩ | ⟨a, u, b, c, hcur⟩
    · simp
    have hau := hcur.behind
    obtain ⟨t, hut, htc, hseq⟩ := rewind_offset hcur hrange.1 hrange.2
    have htb : t ≤ b + 1 := by rcases hcur.next with hc | ⟨hc, -⟩ <;> omega
    dsimp only
    rw [hseq] at hf ⊢
    rcases hf.laid hcur.laid hcur.near (by omega) htb with ⟨hle, _, hlay'⟩ | ⟨-, hsame⟩
    · obtain ⟨_, hlay⟩ := hcur.laid
      have h1 := hlay.bufferedUnsent_eq
      have h2 := hlay'.bufferedUnsent_eq
      omega
    · rw [hsame]
  · exact hm

theorem close_closed (h : scb.close.1.state = .closed) :
    scb.state = .closed ∨ scb.state.isPreestablished := by
  unfold close at h
  cases hst : scb.state <;> simp [hst, isPreestablished] at h ⊢

theorem marked_close (hm : Marked scb tx stream top)
    (hopen : scb.close.1.state ≠ .closed) : Marked scb.close.1 tx stream top := by
  unfold close at hopen ⊢
  cases hst : scb.state <;> simp only [hst] at hopen ⊢
  case listen | synSent => exact absurd rfl hopen
  case closeWait =>
    exact hm.kept (fun he => by rcases he with he | he <;> cases he)
      (fun _ => .inl ⟨by rw [hst]; rfl, rfl, le_rfl⟩)
  all_goals exact hm.same (by simp [hst]) rfl

/-- A connection that is over has no data on the way. -/
def topAfter (h h' : Handler) (top : Option Value) : Option Value :=
  if h'.scb.state = .closed ∨ h'.connid ≠ h.connid then none else top

theorem marked_after
    (hm : h'.scb.state ≠ .closed → h'.connid = h.connid → Marked h'.scb h'.bufTx stream top)
    (hend : h'.connid ≠ h.connid → h'.scb.state.txQueuedDataOpen = false) :
    Marked h'.scb h'.bufTx stream (topAfter h h' top) := by
  unfold topAfter
  split_ifs with hover
  · refine ⟨fun _ => rfl, fun hq => ?_⟩
    rcases hover with hc | hc
    · rw [hc] at hq
      cases hq
    · cases (hend hc).symm.trans hq
  · rw [not_or, not_not] at hover
    exact hm hover.1 hover.2

theorem sentState_from (st : State) (flags : Flags) : (sentState st flags = .closed ∨
      (sentState st flags).isPreestablished → st = .closed ∨ st.isPreestablished = true) ∧
    ((sentState st flags).txQueuedDataOpen → st.txQueuedDataOpen ∨ st = .synRcvd) := by
  cases st <;> simp only [sentState] <;> (try split_ifs) <;>
    simp [isPreestablished, txQueuedDataOpen, txDataOpen]

theorem marked_sent {payload options : List UInt8} {offset : ℕ}
    (hm : Marked h.scb h.bufTx stream top) (hs : Sending h.scb h.bufTx stream)
    (hch : Handler.Chosen h awaitingSyn room mid (.segment seg offset options payload))
    (hsend : (h.scb.send seg).2 = none) (hrst : Flags.hasAny seg.flags flagRST = false)
    {f : TxFrame} (hseq : f.seg.seq = seg.seq) (hpay : f.payload = payload) :
    Marked (h.scb.commitSend seg) mid.bufTx stream (raise top f) := by
  subst hpay
  by_cases hst : h.scb.state = .closed
  · -- the first SYN
    rw [(h.scb.commitSend_closed seg hst (send_ok hsend).1).2]
    have hnil : f.payload = [] := by
      by_contra hne
      have hq := chosen_queued hch hne
      rw [hst] at hq
      cases hq
    rw [raise.eq_def, if_pos hnil]
    exact ⟨fun _ => hm.early (.inl hst), nofun⟩
  have hc := commits seg hs.second hst
  have hfrom := sentState_from h.scb.state seg.flags
  rw [← hc.state] at hfrom
  have hopening : h.scb.state = .synRcvd → stream = [] ∧ h.scb.state.isPreestablished :=
    fun h' => ⟨(hs.opening (by rw [h']; rfl)).1, by rw [h']; rfl⟩
  rcases carried_of_chosen hs hch hrst with ⟨htx, hnil⟩ | hcar
  · rw [raise.eq_def, if_pos hnil, htx]
    refine hm.kept hfrom.1 (fun hq => ?_)
    rcases hfrom.2 hq with hq' | hq'
    · exact .inl ⟨hq', hc.iss, le_rfl⟩
    · exact .inr (hopening hq')
  by_cases hnil : f.payload = []
  · rw [raise.eq_def, if_pos hnil]
    refine hm.kept hfrom.1 (fun hq => ?_)
    rcases hfrom.2 hq with hq' | hq'
    · refine .inl ⟨hq', hc.iss, ?_⟩
      cases hcar with
      | again _ htx => rw [htx]
      | fresh hcur hlaid =>
      obtain ⟨_, hlay⟩ := hcur.laid
      obtain ⟨_, hlay'⟩ := hlaid
      have h1 := hlay.bufferedUnsent_eq
      have h2 := hlay'.bufferedUnsent_eq
      rw [hnil] at h2
      simp only [length_nil] at h2
      omega
    · exact .inr (hopening hq')
  have hq := chosen_queued hch hnil
  obtain ⟨m, hlow, hhigh, hmark⟩ := hm.late hq
  refine ⟨fun he => ?_, fun _ => ?_⟩
  · rcases hfrom.1 he with hc' | hp
    · exact absurd hc' hst
    · revert hq hp
      cases h.scb.state <;> simp [isPreestablished, txQueuedDataOpen, txDataOpen]
  rw [hc.iss]
  cases hcar with
  | @fresh a u b hcur hlaid hseq' =>
    obtain ⟨_, hlay⟩ := hcur.laid
    obtain ⟨_, hlay'⟩ := hlaid
    have h1 := hlay.bufferedUnsent_eq
    have h2 := hlay'.bufferedUnsent_eq
    have hb := hlay'.b_le
    have ha := hlay.a_le
    have hnear := hcur.near
    refine ⟨max m (b + f.payload.length), by omega, by omega, raise_marks hmark hnil ?_ ?_ ?_⟩
    · rw [hseq, hseq', hcur.nxt]
    · omega
    · omega
  | @again a b hcur htx hseq' _ hend =>
  obtain ⟨_, hlay⟩ := hcur.laid
  have h1 := hlay.bufferedUnsent_eq
  have hb := hlay.b_le
  have hnear := hcur.near
  rw [htx]
  refine ⟨max m (a + f.payload.length), by omega, by omega, raise_marks hmark hnil ?_ ?_ ?_⟩
  · rw [hseq, hseq', hcur.una]
  · omega
  · omega

theorem marked_transmits (ht : Handler.Transmits start awaitingSyn room h' r)
    (hm : Marked start.scb start.bufTx stream top) (hs : Sending start.scb start.bufTx stream)
    (hbuf : start.bufTx = (h.preTx pol).bufTx) (hid : start.connid = h.connid)
    (hsafe : Intact h pol h' r) :
    Marked h'.scb h'.bufTx stream (topAfter h h' (r.frame.elim top (raise top))) := by
  cases ht with
  | yielded hch =>
    have hsame : h'.scb = start.scb ∧ h'.bufTx = start.bufTx ∧ h'.connid = start.connid := by
      cases hch with
      | requeued => exact ⟨rfl, rfl, rfl⟩
      | nothing => exact ⟨rfl, rfl, rfl⟩
      | noPacket hp hsyn hdata hmake => exact ⟨rfl, makePacket_err hmake, rfl⟩
    refine marked_after (fun _ _ => ?_) (fun hne => absurd (hsame.2.2.trans hid) hne)
    rw [hsame.1, hsame.2.1]
    exact hm
  | @refused mid seg _ _ _ err hch hsend =>
    have hsame : h'.bufTx = start.bufTx ∧ h'.connid = start.connid := by
      cases hch with
      | filled hp hsyn hdata hmake =>
        have hopen := filled_queued hp hdata
        rcases hsafe.whole with herr | heq | hst
        · cases herr
        · exact ⟨heq.trans hbuf.symm, rfl⟩
        · rw [show start.scb.state = .closed from hst] at hopen
          cases hopen
      | _ => exact ⟨rfl, rfl⟩
    refine marked_after (fun _ _ => ?_) (fun hne => absurd (hsame.2.trans hid) hne)
    rw [chosen_scb hch, hsame.1]
    exact hm
  | @emitted mid seg offset options payload hch hsend =>
  have hscb := chosen_scb hch
  have hmid : mid.connid = start.connid := by cases hch <;> rfl
  rw [hscb] at hsend ⊢
  unfold afterSend
  rw [hscb]
  split_ifs with htw hrst
  · have hc := commits seg hs.second (by simp [htw.1])
    have hst : (start.scb.commitSend seg).state = .timeWait := by
      rw [hc.state, htw.1]
      rfl
    refine marked_after (fun _ hsame => ?_) (fun _ => ?_)
    · have hne : mid.connid + 1 ≠ mid.connid := by bv_omega
      exact absurd (hsame.trans (hid.symm.trans hmid.symm)) hne
    change (start.scb.commitSend seg).state.txQueuedDataOpen = false
    rw [hst]
    rfl
  · exact marked_after (fun hopen _ => absurd rfl hopen) (fun _ => rfl)
  · refine marked_after (fun _ _ => ?_) (fun hne => absurd (hmid.trans hid) hne)
    exact marked_sent hm hs hch hsend (by simpa using hrst) rfl rfl

section
variable (hm : Marked h.scb h.bufTx stream top) (hs : Sending h.scb h.bufTx stream)
include hm hs

theorem marked_starts (hfol : Follows h pol) (hstart : h.Starts pol start awaitingSyn) :
    Marked start.scb start.bufTx stream top := by
  have hpre : Marked (h.preTx pol).autoClose.scb (h.preTx pol).autoClose.bufTx stream top := by
    rw [autoClose_scb, autoClose_bufTx]
    exact marked_preTx hm hs hfol
  cases hstart with
  | going => exact hpre
  | closed hdue hclose =>
  by_cases hopen : (h.preTx pol).autoClose.scb.close.1.state = .closed
  · rw [hpre.early (close_closed hopen)]
    exact Marked.over hopen
  · exact marked_close hpre hopen

theorem marked_sends (hclosed : h.scb.state = .closed → stream = []) (hfol : Follows h pol)
    (hsafe : Intact h pol h' r) (hout : Handler.Sends h len pol h' r) :
    Marked h'.scb h'.bufTx stream (topAfter h h' (r.frame.elim top (raise top))) := by
  have hid : (h.preTx pol).autoClose.connid = h.connid := by
    unfold Handler.autoClose preTx
    split_ifs <;> (try split) <;> rfl
  cases hout with
  | idle => exact marked_after (fun _ _ => hm) (fun hne => absurd rfl hne)
  | quiet =>
    refine marked_after (fun _ _ => ?_) (fun hne => absurd hid hne)
    rw [autoClose_scb, autoClose_bufTx]
    exact marked_preTx hm hs hfol
  | ended => exact marked_after (fun hopen _ => absurd rfl hopen) (fun _ => rfl)
  | transmitted hlive hstart ht =>
  obtain ⟨hmid, hbuf, -, -⟩ := sending_starts hs hclosed hfol hstart
  refine marked_transmits ht (marked_starts hm hs hfol hstart) hmid hbuf ?_ hsafe
  cases hstart with
  | going | closed => exact hid

end

end Marking

theorem marked_write (hm : Marked h.scb h.bufTx stream top) (hs : Sending h.scb h.bufTx stream)
    (hwrite : h.write b = .ok (h', n, err)) : Marked h'.scb h'.bufTx (stream ++ b.take n) top := by
  rcases write_laid hs hwrite with
    ⟨rfl, rfl⟩ | ⟨hopen, -, rfl, a, u, k, c, tx, ⟨⟨_, hlay⟩, -⟩, ⟨_, hlay'⟩, rfl, -⟩
  · simpa using hm
  rw [take_length]
  refine ⟨hm.early, fun hq => ?_⟩
  obtain ⟨m, hlow, hhigh, hmark⟩ := hm.late hq
  have h1 := hlay.bufferedUnsent_eq
  have h2 := hlay'.bufferedUnsent_eq
  have hk := hlay.b_le
  rw [length_append] at h2
  dsimp only
  rw [h2]
  exact ⟨m, by rw [length_append]; omega, by rw [length_append]; omega, hmark⟩

/-- The ring has room left for half the number space. -/
def Near (tx : RingTx) (stream : List UInt8) : Prop :=
  stream.length + 1 < 2 ^ 31 ∨ tx.size + 1 < 2 ^ 31

theorem Near.span {start : Value} {a b : ℕ} (h : Near tx stream)
    (hlaid : Laid tx start stream a b) : stream.length + 1 < a + 2 ^ 31 := by
  obtain ⟨_, hlay⟩ := hlaid
  have hfits := hlay.fits
  unfold Near RingTx.size at h
  omega

theorem near_nil (tx : RingTx) : Near tx [] := .inl (by simp)

theorem Near.kept (h : Near tx stream) (hraw : tx'.rawbuf = tx.rawbuf) : Near tx' stream := by
  unfold Near RingTx.size at h ⊢
  rwa [hraw]

theorem recvACK_rawbuf {ack : Value} (h : tx.recvACK ack = .ok (tx', err)) :
    tx'.rawbuf = tx.rawbuf := by
  have hcons : ∀ rtx : RingTx, rtx.consolidateBufs.rawbuf = rtx.rawbuf := by
    intro rtx
    unfold RingTx.consolidateBufs
    split_ifs <;> rfl
  unfold RingTx.recvACK at h
  split at h
  · cases h
  · cases h
    rfl
  · split at h <;> cases h <;> exact hcons _

theorem acked_rawbuf {una : Value} (h : Handler.Acked tx tx' seg una) : tx'.rawbuf = tx.rawbuf := by
  unfold Handler.Acked at h
  split_ifs at h
  · obtain ⟨err, hrecv⟩ := h
    exact recvACK_rawbuf hrecv
  · rw [h]

theorem makePacket_rawbuf {seq : Value} {bytes : List UInt8}
    (h : tx.makePacket n seq = .ok (tx', bytes, err)) : tx'.rawbuf = tx.rawbuf := by
  unfold RingTx.makePacket at h
  split at h
  · cases h
    rfl
  split at h
  · split at h <;> cases h
    rfl
  unfold RingTx.newPacket at h
  split at h
  · cases h
    rfl
  split at h
  · cases h
  · cases h
    rfl
  split at h
  · cases h
  split at h
  · cases h
  · cases h
    rfl

theorem preTx_rawbuf (h : Handler) (pol : PolicyTx) :
    (h.preTx pol).bufTx.rawbuf = h.bufTx.rawbuf := by
  unfold preTx
  split
  · split
    · rfl
    · unfold RingTx.retransmitFrom
      split <;> rfl
  · rfl

theorem taken_queued {scb scb' : ControlBlock} (hrecv : scb.recv seg = .ok (scb', none))
    (hq : scb'.state.txQueuedDataOpen) :
    scb.state.txQueuedDataOpen ∨ scb.state.isPreestablished := by
  obtain ⟨mid, pending, hacc, rfl⟩ := recv_accepted hrecv
  rw [acceptSegment_state] at hq
  cases rcvState_handled hacc.handled with
  | listenSyn hst | simultaneousOpen hst | synAcked hst | opened hst =>
    exact .inr (by rw [hst]; rfl)
  | moved hm =>
    refine .inl ?_
    cases hm with
    | stay => exact hq
    | peerFin hst | bothFins hst | simultaneousFin hst | ownFinAcked hst =>
      rw [hst]
      rfl
    | peerFinLast | closingAcked => cases hq
  | finished => cases hq

theorem rejected_queued {scb scb' : ControlBlock} {e : Err}
    (hrecv : scb.recv seg = .ok (scb', some e)) (hq : scb'.state.txQueuedDataOpen) :
    scb.state.txQueuedDataOpen := by
  obtain ⟨c, hemit⟩ := scb.triggerChallengeAckEmit_eq
  cases recv_outcome hrecv with
  | ignored | ackDrop | preReset => exact hq
  | challenge | synChallenge | rstChallenge => rwa [hemit] at hq
  | limit | rstAbort | relisten => cases hq

theorem near_received (hin : InBounds h.bufRx) (hs : Sending h.scb h.bufTx stream)
    (hn : h.scb.state.txQueuedDataOpen → Near h.bufTx stream)
    (hout : Handler.Received h keep pkt h' err) (hq : h'.scb.state.txQueuedDataOpen) :
    Near h'.bufTx stream := by
  have htaken : ∀ {seg : Segment} {scb : ControlBlock} {tx : RingTx},
      h.scb.recv seg = .ok (scb, none) → scb.state.txQueuedDataOpen →
      tx.rawbuf = h.bufTx.rawbuf → Near tx stream := by
    intro seg scb tx hrecv hq hraw
    rcases taken_queued hrecv hq with hold | hpre
    · exact (hn hold).kept hraw
    · rw [(hs.opening hpre).1]
      exact near_nil tx
  cases hout with
  | untouched | staged => exact hn hq
  | rejected hr hrecv => exact hn (rejected_queued hrecv hq)
  | finished hr hrecv hclosed =>
    change txQueuedDataOpen _ at hq
    rw [hclosed] at hq
    cases hq
  | @reset _ _ _ scb hr hrecv =>
    exact htaken hrecv hq rfl
  | @accepted _ _ _ scb _ hr hrecv _ _ htx =>
    obtain ⟨d, pending, heq, -⟩ := withPayload_scb scb hin hr.fits
    simp only [heq] at hq
    exact htaken hrecv hq (acked_rawbuf htx)
  | @acceptedSyn _ _ _ scb _ hr hrecv _ _ htx =>
  obtain ⟨d, pending, heq, -⟩ := withPayload_scb scb hin hr.fits
  simp only [withSyn, heq] at hq
  exact htaken hrecv hq (acked_rawbuf htx)

theorem chosen_rawbuf {choice : Handler.Choice}
    (hch : Handler.Chosen h awaitingSyn room mid choice) : mid.bufTx.rawbuf = h.bufTx.rawbuf := by
  cases hch with
  | filled _ _ _ hmake | noPacket _ _ _ hmake => exact makePacket_rawbuf hmake
  | _ => rfl

section
variable (hn : h.scb.state.txQueuedDataOpen → Near h.bufTx stream)
include hn

theorem near_preTx (pol : PolicyTx) (hq : (h.preTx pol).autoClose.scb.state.txQueuedDataOpen) :
    Near (h.preTx pol).autoClose.bufTx stream := by
  obtain ⟨nxt, dup, nrt, hscb⟩ := h.preTx_scb pol
  rw [autoClose_scb, hscb] at hq
  rw [autoClose_bufTx]
  exact (hn hq).kept (preTx_rawbuf h pol)

theorem near_starts (hstart : h.Starts pol start awaitingSyn)
    (hq : start.scb.state.txQueuedDataOpen) : Near start.bufTx stream := by
  cases hstart with
  | going => exact near_preTx hn pol hq
  | closed hdue hclose =>
  refine near_preTx hn pol ?_
  unfold close at hq hclose
  cases hst : (h.preTx pol).autoClose.scb.state <;> simp only [hst] at hq hclose
  case established | closeWait => rfl
  case closed | finWait1 | finWait2 | closing | timeWait | lastAck => cases hclose
  case listen | synSent | synRcvd => cases hq

theorem near_sends (hs : Sending h.scb h.bufTx stream)
    (hclosed : h.scb.state = .closed → stream = []) (hfol : Follows h pol)
    (hout : Handler.Sends h len pol h' r) (hq : h'.scb.state.txQueuedDataOpen) :
    Near h'.bufTx stream := by
  cases hout with
  | idle => exact hn hq
  | quiet => exact near_preTx hn pol hq
  | ended => cases hq
  | @transmitted start _ _ _ hlive hstart ht =>
  have hnear := near_starts hn hstart
  obtain ⟨hmid, -, -, -⟩ := sending_starts hs hclosed hfol hstart
  cases ht with
  | yielded hch | refused hch hsend =>
    have hscb := chosen_scb hch
    rw [hscb] at hq
    exact (hnear hq).kept (chosen_rawbuf hch)
  | @emitted mid seg offset options payload hch hsend =>
  have hscb := chosen_scb hch
  have hraw := chosen_rawbuf hch
  rw [hscb] at hsend hq ⊢
  unfold afterSend at hq ⊢
  rw [hscb] at hq ⊢
  by_cases hst : start.scb.state = .closed
  · rw [hst, if_neg (by simp)] at hq
    have hnew := (start.scb.commitSend_closed seg hst (send_ok hsend).1)
    rw [hnew.1, hnew.2] at hq
    split_ifs at hq
    · cases hq
    · cases hq
  have hc := commits seg hmid.second hst
  split_ifs at hq ⊢ with htw hrst
  · change (start.scb.commitSend seg).state.txQueuedDataOpen at hq
    rw [hc.state, htw.1] at hq
    cases hq
  · cases hq
  change (start.scb.commitSend seg).state.txQueuedDataOpen at hq
  rw [hc.state] at hq
  rcases (sentState_from start.scb.state seg.flags).2 hq with hq' | hq'
  · exact (hnear hq').kept hraw
  · rw [(hmid.opening (by rw [hq']; rfl)).1]
    exact near_nil _

end

/-- A handler, the bytes that Write accepted since the last open, and one past the last
data byte that left. -/
structure Flow where
  h : Handler
  written : List UInt8 := []
  top : Option Value := none

variable {s : Flow}

def step (s : Flow) : HandlerOp → Except Panic Flow
  | .write b => (s.h.write b).map fun r => { s with h := r.1, written := s.written ++ b.take r.2.1 }
  | .send len extra pol => (s.h.send len (len + extra) pol).map fun r =>
      { s with h := r.1, top := topAfter s.h r.1 (r.2.frame.elim s.top (raise s.top)) }
  | op => (s.h.handlerStep op).map fun h =>
      if s.h.opens op then { h := h } else { s with h := h, top := topAfter s.h h s.top }

/-- Room for more data: the connection wrote less than half the number space, or the ring
holds less. -/
def Roomy (s : Flow) (more : ℕ) : Prop :=
  s.written.length + more + 1 < 2 ^ 31 ∨ s.h.bufTx.size + 1 < 2 ^ 31

instance (s : Flow) (more : ℕ) : Decidable (Roomy s more) := inferInstanceAs (Decidable (_ ∨ _))

/-- An open finds a ring that takes its sequence number, and the rest is as for one
stream. -/
def Steady (s : Flow) : HandlerOp → Prop
  | .setBuffers _ _ _ => True
  | .openActive localPort remotePort iss =>
      (s.h.openActive localPort remotePort iss).2 = none →
        (s.h.bufTx.resetOrReuse none 0 iss).2 = none
  | .openListen localPort iss =>
      (s.h.openListen localPort iss).2 = none → (s.h.bufTx.resetOrReuse none 0 iss).2 = none
  | .write b => Roomy s b.length
  | op => Posed { h := s.h, written := s.written } op

instance (s : Flow) : (op : HandlerOp) → Decidable (Steady s op)
  | .openActive _ _ _ | .openListen _ _ => inferInstanceAs (Decidable (_ → _))
  | .write b => inferInstanceAs (Decidable (Roomy s b.length))
  | .recv _ pkt => inferInstanceAs (Decidable (AckNear s.h pkt))
  | .send _ _ _ => inferInstanceAs (Decidable (_ ∧ _ ∧ _))
  | .setBuffers _ _ _ | .setPolicy _ | .abort | .close | .shutdownRead | .read _ | .requeue =>
    inferInstanceAs (Decidable True)

structure Flowing (s : Flow) : Prop where
  inBounds : InBounds s.h.bufRx
  sending : Sending s.h.scb s.h.bufTx s.written
  marked : Marked s.h.scb s.h.bufTx s.written s.top
  near : s.h.scb.state.txQueuedDataOpen = true → Near s.h.bufTx s.written

theorem flowing_fresh (hs : Sound { h := h }) : Flowing { h := h } :=
  ⟨hs.inBounds, hs.sending, ⟨fun _ => rfl, fun _ => ⟨0, by simp, le_rfl, .inl ⟨rfl, rfl⟩⟩⟩,
    fun _ => near_nil _⟩

theorem step_other {s' : Flow} (hw : ∀ b, op ≠ .write b)
    (hsend : ∀ len extra pol, op ≠ .send len extra pol) (hstep : step s op = .ok s') :
    ∃ h, s.h.handlerStep op = .ok h ∧ (if s.h.opens op then { h := h }
      else { s with h := h, top := topAfter s.h h s.top }) = s' := by
  refine map_ok (Eq.trans ?_ hstep)
  cases op with
  | write b => exact absurd rfl (hw b)
  | send len extra pol => exact absurd rfl (hsend len extra pol)
  | _ => rfl

theorem received_connid (hin : InBounds h.bufRx) (hout : Handler.Received h keep pkt h' err) :
    h'.connid = h.connid := by
  cases hout with
  | @accepted _ _ _ scb _ hr =>
    have hin' : InBounds { h with scb := scb }.bufRx := hin
    obtain ⟨_, _, _, _, heq, -⟩ := Handler.withPayload_eq hin' hr.fits
    rw [heq]
  | @acceptedSyn _ _ _ scb _ hr =>
    have hin' : InBounds { h with scb := scb }.bufRx := hin
    obtain ⟨_, _, _, _, heq, -⟩ := Handler.withPayload_eq hin' hr.fits
    rw [withSyn, heq]
  | _ => rfl

theorem flowing_opened (hsh : s.h = h) (hguard : Steady s op) (hopens : h.opens op)
    (hh : h.handlerStep op = .ok h') : Flowing { h := h' } := by
  subst hsh
  unfold Handler.opens at hopens
  cases op with
  | openActive localPort remotePort iss =>
    obtain rfl := Except.ok.inj hh
    rw [beq_iff_eq] at hopens
    exact flowing_fresh (opened_sound (.active hopens (hguard hopens)))
  | openListen localPort iss =>
    obtain rfl := Except.ok.inj hh
    rw [beq_iff_eq] at hopens
    exact flowing_fresh (opened_sound (.passive hopens (hguard hopens)))
  | _ => cases hopens

theorem closed_queued {st : State} (h : st.isClosed) : st.txQueuedDataOpen = false := by
  cases st <;> first | rfl | cases h

theorem marked_quiet (hm : Marked h.scb h.bufTx stream top) (hq : Handler.Quiet h h') :
    Marked h'.scb h'.bufTx stream (topAfter h h' top) := by
  cases hq with
  | aborted heq =>
    rw [heq]
    exact marked_after (fun hopen _ => absurd rfl hopen) (fun _ => rfl)
  | kept d wnd hp hscb htx hid =>
  refine marked_after (fun _ _ => ?_) (fun hne => absurd hid hne)
  rw [hscb]
  refine hm.kept id (fun hq => .inl ⟨hq, rfl, ?_⟩)
  rcases htx with htx | ⟨hclosed, -⟩
  · rw [htx]
  · cases (closed_queued hclosed).symm.trans hq

theorem near_quiet (hn : h.scb.state.txQueuedDataOpen → Near h.bufTx stream)
    (hq : Handler.Quiet h h') (hopen : h'.scb.state.txQueuedDataOpen) : Near h'.bufTx stream := by
  cases hq with
  | aborted heq =>
    rw [heq] at hopen
    cases hopen
  | kept d wnd hp hscb htx =>
  rw [hscb] at hopen
  rcases htx with htx | ⟨hclosed, -⟩
  · rw [htx]
    exact hn hopen
  · cases (closed_queued hclosed).symm.trans hopen

theorem flowing_recv (hs : Flowing s) (hnear : AckNear s.h pkt)
    (hh : s.h.handlerStep (.recv keep pkt) = .ok h') :
    Flowing { s with h := h', top := topAfter s.h h' s.top } := by
  obtain ⟨err, hr⟩ := map_fst_ok hh
  have hout := Handler.received_of_recv hs.inBounds hr
  refine ⟨step_inBounds hs.inBounds hh,
    sending_received hs.inBounds hs.sending hnear hout, marked_after (fun hopen _ =>
      marked_received hs.inBounds hs.marked hs.sending hnear hout hopen) (fun hne => ?_),
    near_received hs.inBounds hs.sending hs.near hout⟩
  exact absurd (received_connid hs.inBounds hout) hne

theorem flowing_send {extra : ℕ} (hs : Flowing s) (hguard : Steady s (.send len extra pol))
    (hr : s.h.send len (len + extra) pol = .ok (h', r)) :
    Flowing { s with h := h', top := topAfter s.h h' (r.frame.elim s.top (raise s.top)) } := by
  have hh : s.h.handlerStep (.send len extra pol) = .ok h' := by
    simp only [Handler.handlerStep, hr]
    rfl
  obtain ⟨hclosed, hfol, hready⟩ := hguard
  have hout := Handler.sends_of_send hr
  have hsafe := hready.intact hs.sending hclosed hfol hout
  exact ⟨step_inBounds hs.inBounds hh, (sending_sends hs.sending hclosed hfol hsafe hout).1,
    marked_sends hs.marked hs.sending hclosed hfol hsafe hout,
    near_sends hs.near hs.sending hclosed hfol hout⟩

section
variable (hs : Flowing s) (hroom : Roomy s b.length) (hr : s.h.write b = .ok (h', n, err))
include hs hroom hr

theorem near_write
    (hq : h'.scb.state.txQueuedDataOpen) : Near h'.bufTx (s.written ++ b.take n) := by
  rcases write_laid hs.sending hr with
    ⟨rfl, rfl⟩ | ⟨-, -, rfl, a, _, _, _, tx, -, -, rfl, -, hlen, -⟩
  · simpa using hs.near hq
  unfold Near RingTx.size
  unfold Roomy RingTx.size at hroom
  rw [take_length, length_append]
  dsimp only
  omega

theorem flowing_write : Flowing { s with h := h', written := s.written ++ b.take n } := by
  refine ⟨?_, sending_write hs.sending ?_ hr, marked_write hs.marked hs.sending hr,
    near_write hs hroom hr⟩
  · obtain ⟨tx, rfl⟩ := Handler.write_eq hr
    exact hs.inBounds
  · unfold Roomy RingTx.size at hroom
    omega

end

theorem flowing_step {s' : Flow} (hs : Flowing s) (hguard : Steady s op)
    (hstep : step s op = .ok s') : Flowing s' := by
  cases hopens : s.h.opens op with
  | true =>
    have hw : ∀ b, op ≠ .write b := by rintro b rfl; cases hopens
    have hsend : ∀ len extra pol, op ≠ .send len extra pol := by
      rintro len extra pol rfl; cases hopens
    obtain ⟨h', hh, rfl⟩ := step_other hw hsend hstep
    rw [if_pos hopens]
    exact flowing_opened rfl hguard hopens hh
  | false =>
  cases op with
  | write b =>
    obtain ⟨⟨h', n, err⟩, hr, rfl⟩ := map_ok hstep
    exact flowing_write hs hguard hr
  | send len extra pol =>
    obtain ⟨⟨h', r⟩, hr, rfl⟩ := map_ok hstep
    exact flowing_send hs hguard hr
  | recv keep pkt =>
    obtain ⟨h', hh, rfl⟩ := step_other (by simp) (by simp) hstep
    exact flowing_recv hs hguard hh
  | setBuffers | openActive | openListen | abort | close | shutdownRead | requeue | setPolicy
  | read =>
  obtain ⟨h', hh, rfl⟩ := step_other (by simp) (by simp) hstep
  rw [hopens]
  have hq := Handler.step_quiet hs.inBounds (by simp) (by simp) (by simp) hopens hh
  exact ⟨step_inBounds hs.inBounds hh, sending_left hs.sending hq,
    marked_quiet hs.marked hq, near_quiet hs.near hq⟩

end Lneto.SendRuns
