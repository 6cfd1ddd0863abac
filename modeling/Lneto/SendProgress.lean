import Lneto.SendCursors

/-!
What Send does to the cursors: a segment without new data leaves them alone,
a handshake segment takes the SYN's number, new data moves both by its length
and a FIN moves the block one past the stream.
-/
namespace Lneto.SendProgress

open Segments SerialNumbers Control TransmitRing InternalRing Connection SendCursors List Flags
  ControlBlock State Bool

variable {room : ℕ} {bytes : List UInt8} {tx' : RingTx} {seq : Value} {scb' : ControlBlock}

theorem makePacket_free {rtx rtx' : RingTx} {n : ℕ}
    (hmake : rtx.makePacket n seq = .ok (rtx', bytes, none)) : rtx.slist.free ≠ 0 := by
  intro hfull
  rw [RingTx.makePacket, if_pos hfull] at hmake
  cases hmake

/-- MakePacket answers with no bytes only where there are none. -/
theorem spent_of_makePacket {rtx rtx' : RingTx} {n : ℕ} (hn : n ≠ 0)
    (hmake : rtx.makePacket n seq = .ok (rtx', [], none)) :
    rtx.slist.free ≠ 0 ∧ Spent rtx seq := by
  have hfree := makePacket_free hmake
  have hread : ∀ {r r' : ByteRing}, r.read n ≠ .ok (r', [], none) := by
    intro r r' hr
    unfold ByteRing.read at hr
    cases hpeek : r.readPeek n with
    | error p =>
      rw [hpeek] at hr
      cases hr
    | ok out =>
    obtain ⟨bytes, err⟩ := out
    rw [hpeek] at hr
    cases err with
    | some err => cases hr
    | none =>
    simp only [if_neg hn] at hr
    split at hr
    · cases hr
    · rename_i hend
      cases hr
      cases hend
  by_cases hold : (rtx.sentEndSeq.any fun endSeq => Value.lessThan seq endSeq) = true
  · rw [RingTx.makePacket, if_neg hfree, if_pos hold, RingTx.resendPacket] at hmake
    cases hfind : rtx.slist.pkts.find? fun pkt => pkt.seq == seq with
    | none =>
      rw [hfind] at hmake
      cases hmake
    | some pkt =>
    rw [hfind] at hmake
    cases hr : (rtx.ring pkt.off pkt.endOff).read n with
    | error p =>
      simp only [hr] at hmake
      cases hmake
    | ok out =>
    obtain ⟨r, bytes, err⟩ := out
    simp only [hr] at hmake
    cases hmake
    exact absurd hr hread
  · refine ⟨hfree, ?_, by simpa using hold⟩
    rw [RingTx.makePacket, if_neg hfree, if_neg hold] at hmake
    cases newPacket_outcome hmake with
    | nothing hempty => exact hempty
    | again hr | fresh hr => exact absurd hr hread

section Packets
variable {rtx rtx' : RingTx} {start : Value} {stream bytes : List UInt8} {a b n : ℕ}

section
variable (h : Laid rtx start stream a b) (hnear : stream.length < a + 2 ^ 31) (hn : 0 < n)
include h hnear hn

theorem makePacket_next (hmake : rtx.makePacket n (advance start b) = .ok (rtx', bytes, none)) :
    Laid rtx' start stream a (b + bytes.length) ∧ bytes = (stream.drop b).take bytes.length ∧
      ∀ pkt ∈ rtx'.slist.pkts, pkt ∈ rtx.slist.pkts ∨ pkt.size.toNat = bytes.length := by
  obtain ⟨phase, hlay⟩ := h
  have ha := hlay.a_le
  have hb := hlay.b_le
  have hfree := makePacket_free hmake
  rw [hlay.makePacket_new n hfree] at hmake
  rcases Nat.eq_or_lt_of_le hb with hall | hlt
  · rw [hlay.newPacket_none n _ hall] at hmake
    cases hmake
    exact ⟨⟨phase, hlay⟩, by simp, fun pkt hpkt => .inl hpkt⟩
  obtain ⟨rtx'', pkt, hnew, hlay', hlist, hsize, -⟩ := hlay.newPacket hn hlt (by omega) hfree
  rw [hnew] at hmake
  cases hmake
  have hlen : ((stream.drop b).take n).length = min n (stream.length - b) := by simp
  refine ⟨⟨phase, hlen ▸ hlay'⟩, prefix_iff_eq_take.mp (List.take_prefix _ _), ?_⟩
  rw [hlist]
  intro p hp
  rcases mem_append.1 hp with hp | hp
  · exact .inl hp
  · rw [mem_singleton.1 hp, hsize]
    simp

/-- At the first cut the oldest packet is repeated, as long as it was or shorter. -/
theorem makePacket_oldest (hab : a < b)
    (hmake : rtx.makePacket n (advance start a) = .ok (rtx', bytes, none)) :
    rtx' = rtx ∧ bytes = (stream.drop a).take bytes.length ∧ a + bytes.length ≤ b ∧
      ∃ pkt ∈ rtx.slist.pkts, bytes.length ≤ pkt.size.toNat := by
  obtain ⟨phase, hlay⟩ := h
  have hb := hlay.b_le
  have hpkts := hlay.packets
  cases hlist : rtx.slist.pkts with
  | nil =>
    rw [hlist] at hpkts
    have : a = b := hpkts
    omega
  | cons pkt rest =>
  rw [hlist] at hpkts
  have hre := hlay.makePacket_resend (by omega) hn (makePacket_free hmake)
    (by rw [hlist]; rfl : rtx.slist.pkts = [] ++ pkt :: rest) rfl hpkts
  rw [← hpkts.1.seq_eq, hre] at hmake
  cases hmake
  have hle := hpkts.2.le
  have hlen : (((stream.drop a).take pkt.size.toNat).take n).length ≤ pkt.size.toNat := by
    simp only [length_take]
    omega
  exact ⟨rfl, prefix_iff_eq_take.mp ((List.take_prefix _ _).trans (List.take_prefix _ _)),
    by omega, pkt, mem_cons_self, hlen⟩

end

theorem makePacket_past (h : Laid rtx start stream a b) (hall : b = stream.length) {t : ℕ}
    (ht : t = b ∨ t = b + 1)
    (hmake : rtx.makePacket n (advance start t) = .ok (rtx', bytes, none)) :
    rtx' = rtx ∧ bytes = [] := by
  obtain ⟨phase, hlay⟩ := h
  refine Spent.makePacket ⟨?_, ?_⟩ hmake
  · simpa [ByteRing.isEmpty, RingTx.unsentRing, RingTx.ring] using hlay.unsentend_zero.mpr hall
  · rw [hlay.sentEndSeq_any, ← Bool.not_eq_true, and_eq_true,
      lessThan_advance_iff start (by omega) (by omega)]
    omega

end Packets

section Sent
variable {scb : ControlBlock} {tx : RingTx} {stream : List UInt8} {seg : Segment}

/-- What a sent segment changes of the send side, with an empty second flag slot. -/
structure Commits (scb : ControlBlock) (seg : Segment) (scb' : ControlBlock) : Prop where
  iss : scb'.snd.iss = scb.snd.iss
  una : scb'.snd.una = scb.snd.una
  nxt : scb'.snd.nxt = if Value.lessThan seg.seq scb.snd.nxt then scb.snd.nxt
    else scb.snd.nxt + seg.len
  pending : scb'.pending0 = Flags.clear scb.pending0 seg.flags
  second : scb'.pending1 = 0
  state : scb'.state = ControlBlock.sentState scb.state seg.flags
  dupack : scb'.dupack = scb.dupack

theorem commits (seg : Segment) (hsecond : scb.pending1 = 0) (hopen : scb.state ≠ .closed) :
    Commits scb seg (scb.commitSend seg) := by
  obtain ⟨p0, p1, c, nrt, heq, hp0, hp1⟩ := scb.commitSend_eq seg hopen
  rw [heq]
  refine ⟨?_, ?_, ?_, ?_, ?_, rfl, rfl⟩
  · split_ifs <;> rfl
  · split_ifs <;> rfl
  · split_ifs <;> rfl
  · simp only [hp0, hsecond]
    split_ifs with hz
    · rw [hz]
      simp [clear]
    · rfl
  · simp only [hp1, hsecond]
    split_ifs <;> rfl

theorem Commits.noSyn (h : Commits scb seg scb') (hsyn : hasAny scb.pending0 flagSYN = false) :
    hasAny scb'.pending0 flagSYN = false := by
  rw [h.pending, hasAny_clear_SYN, hsyn, Bool.false_and]

theorem Commits.noFin (h : Commits scb seg scb') (hfin : hasAny scb.pending0 flagFIN = false) :
    hasAny scb'.pending0 flagFIN = false := by
  rw [h.pending, hasAny_clear_FIN, hfin, Bool.false_and]

section
variable (h : Sending scb tx stream)
include h

theorem noSyn_of_state (hst : scb.state ≠ .synRcvd) : hasAny scb.pending0 flagSYN = false := by
  cases hs : hasAny scb.pending0 flagSYN with
  | false => rfl
  | true => exact absurd (h.syn hs).1 hst

theorem sending_quiet (hopen : scb.state ≠ .closed)
    (hspace : Value.lessThan seg.seq scb.snd.nxt ∨ seg.len = 0)
    (hfin : hasAny seg.flags flagFIN = false) : Sending (scb.commitSend seg) tx stream := by
  have hc := commits seg h.second hopen
  have hnxt : (scb.commitSend seg).snd.nxt = scb.snd.nxt := by
    rw [hc.nxt]
    rcases hspace with hlt | hlen
    · rw [if_pos hlt]
    · rw [hlen]
      simp
  have hstate : (scb.commitSend seg).state = scb.state ∨
      (scb.state = .closing ∧ (scb.commitSend seg).state = .timeWait) := by
    rw [hc.state]
    cases hst : scb.state <;> simp [sentState, hfin]
  rcases hstate with hstate | ⟨hfrom, hto⟩
  · refine ⟨h.empty, hc.second, ?_, ?_, ?_, ?_, ?_, ?_⟩
    · intro hsyn
      rw [hc.pending, hasAny_clear_SYN, and_eq_true] at hsyn
      rw [hstate, hnxt, hc.iss]
      exact h.syn hsyn.1
    · rw [hstate, hc.una, hc.iss]
      exact h.opening
    · rw [hstate, hnxt, hc.iss]
      exact h.handshake
    · rw [hstate, hc.iss]
      exact fun hst => ⟨hc.noFin (h.active hst).1, (h.active hst).2⟩
    · rw [hstate]
      intro hq
      rcases h.cursors hq with hnone | ⟨a, u, b, c, hcur⟩
      · exact .inl hnone
      · exact .inr ⟨a, u, b, c, hcur.kept hc.iss hc.una hnxt hc.noFin (by rw [hstate])⟩
    · rw [hstate, hc.dupack, hc.una, hnxt]
      exact h.dups
  · exact h.resting (.inr (.inr hto)) id hc.second
      (hc.noSyn (noSyn_of_state h (by rw [hfrom]; simp)))

/-- SYN and SYN|ACK, first or repeated, leave snd.NXT right behind the SYN. -/
theorem sending_syn
    (hst : scb.state = .synSent ∨ scb.state = .synRcvd) (hseq : seg.seq = scb.snd.iss)
    (hlen : seg.len = 1) (hsyn : hasAny seg.flags flagSYN)
    (hfin : hasAny seg.flags flagFIN = false) : Sending (scb.commitSend seg) tx stream := by
  have hc := commits seg h.second (by rcases hst with hst | hst <;> simp [hst])
  have hnxt : (scb.commitSend seg).snd.nxt = scb.snd.iss + 1 := by
    rw [hc.nxt, hseq, hlen]
    rcases h.handshake hst with hn | hn
    · rw [hn, lessThan_self, if_neg (by simp)]
    have hlt : Value.lessThan scb.snd.iss (scb.snd.iss + 1) := by
      have := (lessThan_advance_iff scb.snd.iss (m := 0) (n := 1) (by omega) (by omega)).mpr
        (by omega)
      rwa [advance_zero] at this
    rw [hn, if_pos hlt]
  have hstate : (scb.commitSend seg).state = scb.state := by
    rw [hc.state]
    rcases hst with hst | hst <;> simp [hst, sentState, hfin]
  have hno : hasAny (scb.commitSend seg).pending0 flagSYN = false := by
    rw [hc.pending, hasAny_clear_SYN, hsyn]
    simp
  refine ⟨h.empty, hc.second, ?_, ?_, ?_, ?_, ?_, ?_⟩
  · rw [hno]
    simp
  · rw [hstate, hc.una, hc.iss]
    exact h.opening
  · rw [hnxt, hc.iss]
    exact fun _ => .inr rfl
  · rw [hstate, hc.iss]
    exact fun hs => ⟨hc.noFin (h.active hs).1, (h.active hs).2⟩
  · rw [hstate]
    rcases hst with hst | hst <;> simp [hst, txQueuedDataOpen, txDataOpen]
  · rw [hstate]
    rcases hst with hst | hst <;> simp [hst, txDataOpen]

theorem sending_listen (hst : scb.state = .listen) : Sending (scb.commitSend seg) tx stream := by
  have hc := commits seg h.second (by simp [hst])
  have hstate : (scb.commitSend seg).state = .listen := by
    rw [hc.state, hst]
    rfl
  have hno := hc.noSyn (noSyn_of_state h (by simp [hst]))
  refine ⟨h.empty, hc.second, ?_, fun _ => ?_, ?_, ?_, ?_, ?_⟩
  · rw [hno]
    simp
  · rw [hc.una, hc.iss]
    exact h.opening (by rw [hst]; rfl)
  all_goals simp [hstate, txQueuedDataOpen, txDataOpen]

theorem sending_over (hst : scb.state = .finWait2 ∨ scb.state = .timeWait) :
    Sending (scb.commitSend seg) tx stream := by
  have hc := commits seg h.second (by rcases hst with hst | hst <;> simp [hst])
  refine h.resting ?_ id hc.second
    (hc.noSyn (noSyn_of_state h (by rcases hst with hst | hst <;> simp [hst])))
  rw [hc.state]
  rcases hst with hst | hst
  · rw [hst]
    exact .inr (.inl rfl)
  · rw [hst]
    exact .inr (.inr rfl)

theorem sending_unwritten (hw : stream = [])
    (hopen : scb.state ≠ .closed) (hto : (sentState scb.state seg.flags = .timeWait ∨
      (sentState scb.state seg.flags).txQueuedDataOpen = true) ∧
      (sentState scb.state seg.flags).txDataOpen = false)
    (hsyn : hasAny (clear scb.pending0 seg.flags) flagSYN = false) :
    Sending (scb.commitSend seg) tx stream := by
  have hc := commits seg h.second hopen
  rw [← hc.state] at hto
  rw [← hc.pending] at hsyn
  obtain ⟨hto | hto, hdata⟩ := hto
  · exact h.resting (.inr (.inr hto)) id hc.second hsyn
  have hnot : (scb.commitSend seg).state.isPreestablished = false ∧
      (scb.commitSend seg).state ≠ .synSent ∧ (scb.commitSend seg).state ≠ .synRcvd := by
    revert hto
    cases (scb.commitSend seg).state <;> decide
  refine ⟨h.empty, hc.second, ?_, ?_, ?_, ?_, fun _ => .inl ⟨hdata, hw⟩, ?_⟩
  · rw [hsyn]
    simp
  · simp [hnot.1]
  · simp [hnot.2.1, hnot.2.2]
  · simp [hnot.2.1]
  · simp [hdata]

end

theorem sentState_queued {st : State} (flags : Flags) (hq : st.txQueuedDataOpen) :
    sentState st flags = .timeWait ∨ ((sentState st flags).txQueuedDataOpen ∧
        (hasAny flags flagFIN → (sentState st flags).txDataOpen = false) ∧
        (hasAny flags flagFIN = false → sentState st flags = st)) := by
  revert hq
  cases st <;> simp only [sentState, txQueuedDataOpen, txDataOpen] <;>
    cases hasAny flags flagFIN <;> cases hasAny flags flagACK <;> simp

/-- k new bytes at snd.NXT move both cursors by k; a FIN behind the last byte moves
the block by one more. -/
theorem sending_data {a u b k : ℕ} (h : Sending scb tx stream)
    (hcur : Cursors scb tx stream a u b b) (hq : scb.state.txQueuedDataOpen)
    (hlaid : Laid tx' (scb.snd.iss + 1) stream a (b + k)) (hempty : Bare tx → Bare tx')
    (hseq : seg.seq = scb.snd.nxt) (hlen : seg.datalen = BitVec.ofNat 32 k)
    (hsyn : hasAny seg.flags flagSYN = false)
    (hfin : hasAny seg.flags flagFIN → b + k = stream.length) :
    Sending (scb.commitSend seg) tx' stream := by
  have hc := commits seg h.second (by rintro hst; rw [hst] at hq; cases hq)
  have hnear := hcur.near
  have hau := hcur.behind
  have hbk : b + k ≤ stream.length := by
    obtain ⟨phase, hlay⟩ := hlaid
    exact hlay.b_le
  have hnxt : (scb.commitSend seg).snd.nxt = advance (scb.snd.iss + 1)
      (b + k + if hasAny seg.flags flagFIN then 1 else 0) := by
    rw [hc.nxt, hseq, lessThan_self, if_neg (by simp), Segment.len_eq, hlen, hsyn, hcur.nxt,
      ← advance_advance, ← advance_advance]
    cases hasAny seg.flags flagFIN <;> simp [advance, BitVec.add_assoc]
  have hno := hc.noSyn (noSyn_of_state h (by rintro hst; rw [hst] at hq; cases hq))
  rcases sentState_queued seg.flags hq with hover | ⟨hto, hdata, hsame⟩
  · exact h.resting (.inr (.inr (hc.state.trans hover))) hempty hc.second hno
  rw [← hc.state] at hto hdata hsame
  have hnot : (scb.commitSend seg).state.isPreestablished = false ∧
      (scb.commitSend seg).state ≠ .synSent ∧ (scb.commitSend seg).state ≠ .synRcvd := by
    revert hto
    cases (scb.commitSend seg).state <;> decide
  -- data can still be written only if this was no FIN
  have hopen : (scb.commitSend seg).state.txDataOpen →
      hasAny seg.flags flagFIN = false ∧ scb.state.txDataOpen := by
    intro ho
    cases hf : hasAny seg.flags flagFIN with
    | true => exact absurd ((hdata hf).symm.trans ho) (by simp)
    | false => exact ⟨rfl, by rw [← hsame hf]; exact ho⟩
  refine ⟨fun hw => hempty (h.empty hw), hc.second, ?_, ?_, ?_, ?_,
    fun _ => .inr ⟨a, u, b + k, _, by rw [hc.iss]; exact hlaid, hcur.behind, ?_,
      by rw [hc.una, hc.iss]; exact hcur.una, by rw [hc.iss]; exact hnxt, ?_,
      fun ho => hcur.exact (hopen ho).2, hcur.near⟩, ?_⟩
  · rw [hno]
    simp
  · simp [hnot.1]
  · simp [hnot.2.1, hnot.2.2]
  · simp [hnot.2.1]
  · have := hcur.acked
    omega
  · cases hf : hasAny seg.flags flagFIN with
    | false => exact .inl rfl
    | true =>
    refine .inr ⟨rfl, hfin hf, ?_, hdata hf⟩
    rw [hc.pending, hasAny_clear_FIN, hf]
    simp
  intro ho hne
  obtain ⟨hf, ho'⟩ := hopen ho
  rw [hc.dupack] at hne
  have hold := h.dups ho' hne
  rw [hcur.una, hcur.nxt] at hold
  have hub : u < b := by
    have := hcur.acked
    rcases Nat.eq_or_lt_of_le this with heq | hlt
    · exact absurd (by rw [heq]) hold
    · exact hlt
  rw [hc.una, hnxt, hcur.una, hf]
  exact seq_ne_of_lt _ (by simp; omega) (by simp; omega)

theorem len_eq_zero (hdata : seg.datalen = 0) (hfin : hasAny seg.flags flagFIN = false)
    (hsyn : hasAny seg.flags flagSYN = false) : seg.len = 0 := by
  rw [Segment.len_eq, hdata, hfin, hsyn]
  rfl

theorem len_eq_one (hdata : seg.datalen = 0) (hfin : hasAny seg.flags flagFIN = false)
    (hsyn : hasAny seg.flags flagSYN) : seg.len = 1 := by
  rw [Segment.len_eq, hdata, hfin, hsyn]
  rfl

theorem dataSegment_hasAny (h : Handler) (seg : Segment) (bytes : List UInt8) {m : Flags}
    (hm : hasAny flagPSH m = false) :
    hasAny (h.dataSegment seg bytes).flags m = hasAny seg.flags m := by
  unfold Handler.dataSegment
  split_ifs
  · rfl
  · rw [hasAny_or, hm, Bool.or_false]

/-- Only the ordinary segment has a flag beside ACK, and the flag was queued. -/
theorem pends_flagged {out : Segment} {m : Flags} (hp : scb.Pends room (some out))
    (hm : hasAny flagACK m = false) (hf : hasAny out.flags m) :
    scb.NoPriority ∧ out = scb.ordinarySegment room ∧ hasAny scb.pending0 m := by
  cases hp with
  | challenge | resend => cases hm.symm.trans hf
  | ordinary hno => exact ⟨hno, rfl, (scb.hasAny_pendingFlags hm).symm.trans hf⟩

theorem close_pending0 (hok : scb.close.2 = none) :
    hasAny scb.close.1.pending0 flagRST = false := by
  have hno : hasAny (scb.pending0 &&& flagACK) flagRST = false := by
    simp [hasAny, BitVec.and_assoc, show flagACK &&& flagRST = 0 by decide]
  unfold close at hok ⊢
  cases hst : scb.state <;> simp only [hst, reduceCtorEq] at hok ⊢
  all_goals first | exact hasAny_zero _ | rfl | rw [hasAny_or, hno]; rfl

theorem ordinary_bare (scb : ControlBlock) (room : ℕ) (hq : scb.state.txQueuedDataOpen = false) :
    (scb.ordinarySegment room).datalen = 0 ∧ (scb.ordinarySegment room).flags = scb.pending0 := by
  simp [ordinarySegment, pendingFlags, hq]

theorem ordinary_seq (hrst : hasAny (scb.ordinarySegment room).flags flagRST = false) :
    (scb.ordinarySegment room).seq = scb.snd.nxt := by
  have hrst' : hasAny scb.pendingFlags flagRST = false := hrst
  simp [ordinarySegment, hrst']

theorem open_of_pends {out : Segment} (h : Sending scb tx stream) (hp : scb.Pends room (some seg))
    (hflags : out.flags = seg.flags) (hsend : (scb.send out).2 = none) : scb.state ≠ .closed := by
  intro hst
  have hsyn := (scb.commitSend_closed out hst (send_ok hsend).1).1
  rw [hflags] at hsyn
  cases hp with
  | challenge => exact absurd hsyn (by simp only [makeChallengeACK]; decide)
  | resend => exact absurd hsyn (by simp only [resendSegment]; decide)
  | ordinary =>
  have hno := noSyn_of_state h (by simp [hst])
  rw [(ordinary_bare scb room (by rw [hst]; rfl)).2] at hsyn
  rw [hsyn] at hno
  exact absurd hno (by decide)

/-- An ordinary segment of a handshake, of LISTEN or of a connection that is over. -/
theorem sending_ordinary_bare {out : Segment} (h : Sending scb tx stream)
    (hopen : scb.state ≠ .closed) (hq : scb.state.txQueuedDataOpen = false)
    (hrst : hasAny (scb.ordinarySegment room).flags flagRST = false)
    (hout : out = { scb.ordinarySegment room with wnd := out.wnd }) :
    Sending (scb.commitSend out) tx stream := by
  obtain ⟨hdata, hflags⟩ := ordinary_bare scb room hq
  have hd : out.datalen = 0 := by rw [hout]; exact hdata
  have hf : out.flags = scb.pending0 := by rw [hout]; exact hflags
  have hseq : out.seq = scb.snd.nxt := by rw [hout]; exact ordinary_seq hrst
  cases hst : scb.state with
  | closed => exact absurd hst hopen
  | listen => exact sending_listen h hst
  | finWait2 => exact sending_over h (.inl hst)
  | timeWait => exact sending_over h (.inr hst)
  | synSent =>
    have hfin : hasAny out.flags flagFIN = false := by rw [hf]; exact (h.active hst).1
    have hsyn : hasAny out.flags flagSYN = false := by
      rw [hf]
      exact noSyn_of_state h (by simp [hst])
    exact sending_quiet h hopen (.inr (len_eq_zero hd hfin hsyn)) hfin
  | synRcvd =>
    cases hfin : hasAny out.flags flagFIN with
    | true =>
      -- a close before the handshake ends: the FIN takes the place of the SYN
      refine sending_unwritten h (h.opening (by rw [hst]; rfl)).1 hopen ?_ ?_
      · simp [hst, sentState, hfin, txQueuedDataOpen, txDataOpen]
      · rw [hf, hasAny_clear_SYN]
        cases hasAny scb.pending0 flagSYN <;> rfl
    | false =>
    cases hsyn : hasAny out.flags flagSYN with
    | true =>
      have hiss := (h.syn (by rw [← hf]; exact hsyn)).2
      exact sending_syn h (.inr hst) (hseq.trans hiss) (len_eq_one hd hfin hsyn) hsyn hfin
    | false => exact sending_quiet h hopen (.inr (len_eq_zero hd hfin hsyn)) hfin
  | established | finWait1 | closing | closeWait | lastAck => rw [hst] at hq; cases hq

/-- The payload is the written stream at the segment's sequence number. -/
def Faithful (stream : List UInt8) (iss seq : Value) (payload : List UInt8) : Prop :=
  payload = (stream.drop (ahead (iss + 1) seq)).take payload.length

instance (stream : List UInt8) (iss seq : Value) (payload : List UInt8) :
    Decidable (Faithful stream iss seq payload) :=
  inferInstanceAs (Decidable (_ = _))

/-- The same for a stream of any length: the offset is one that the sequence number
denotes. -/
def Drawn (stream : List UInt8) (iss seq : Value) (payload : List UInt8) : Prop :=
  payload ≠ [] → ∃ k, k ≤ stream.length ∧ seq = advance (iss + 1) k ∧
    payload = (stream.drop k).take payload.length

theorem drawn_nil (stream : List UInt8) (iss seq : Value) : Drawn stream iss seq [] :=
  fun hne => absurd rfl hne

theorem Drawn.faithful {stream : List UInt8} {iss : Value} {payload : List UInt8}
    (h : Drawn stream iss seq payload) (hbound : stream.length < 2 ^ 31) :
    Faithful stream iss seq payload := by
  by_cases hnil : payload = []
  · simp [Faithful, hnil]
  obtain ⟨k, hk, hseq, hbytes⟩ := h hnil
  rw [Faithful, hseq, ahead_advance _ _ (by omega)]
  exact hbytes

/-- The ring gave the bytes at the sequence number, or was not asked. -/
def Filled (tx tx' : RingTx) (seq : Value) (bytes : List UInt8) : Prop :=
  (tx' = tx ∧ bytes = []) ∨ ∃ n, 0 < n ∧ tx.makePacket n seq = .ok (tx', bytes, none)

theorem bare_filled (h : Bare tx) (hfill : Filled tx tx' seq bytes) : tx' = tx ∧ bytes = [] := by
  rcases hfill with hsame | ⟨n, -, hmake⟩
  · exact hsame
  · exact h.makePacket hmake

/-- New data, with the queued flags, in a state that sends queued data. -/
theorem sending_ordinary_data (seg : Segment) (h : Sending scb tx stream)
    (hq : scb.state.txQueuedDataOpen) (hseq : seg.seq = scb.snd.nxt)
    (hlen : seg.datalen = BitVec.ofNat 32 bytes.length)
    (hflags : ∀ m, hasAny flagACK m = false → hasAny flagPSH m = false → hasAny
      seg.flags m = hasAny scb.pending0 m) (hfill : Filled tx tx' scb.snd.nxt bytes)
    (hfin : hasAny seg.flags flagFIN → tx'.bufferedUnsent = 0) :
    Sending (scb.commitSend seg) tx' stream ∧ Drawn stream scb.snd.iss scb.snd.nxt bytes := by
  have hopen : scb.state ≠ .closed := by rintro hst; rw [hst] at hq; cases hq
  have hsyn : hasAny seg.flags flagSYN = false := by
    rw [hflags flagSYN (by decide) (by decide)]
    exact noSyn_of_state h (by rintro hst; rw [hst] at hq; cases hq)
  rcases h.cursors hq with ⟨hdata, hw⟩ | ⟨a, u, b, c, hcur⟩
  · obtain ⟨rfl, rfl⟩ := bare_filled (h.empty hw) hfill
    refine ⟨sending_unwritten h hw hopen ?_ ?_, drawn_nil _ _ _⟩
    · rcases sentState_queued seg.flags hq with hover | ⟨hto, hfinal, hsame⟩
      · exact ⟨.inl hover, by rw [hover]; rfl⟩
      refine ⟨.inr hto, ?_⟩
      cases hf : hasAny seg.flags flagFIN with
      | true => exact hfinal hf
      | false =>
        rw [hsame hf]
        exact hdata
    · rw [hasAny_clear_SYN, ← hflags flagSYN (by decide) (by decide), hsyn]
      rfl
  have hnear := hcur.near
  rcases hcur.next with rfl | ⟨rfl, hall, hnofin, -⟩
  · obtain ⟨hlaid, hbytes⟩ : Laid tx' (scb.snd.iss + 1) stream a (c + bytes.length) ∧
        bytes = (stream.drop c).take bytes.length := by
      rcases hfill with ⟨rfl, rfl⟩ | ⟨n, hn, hmake⟩
      · exact ⟨hcur.laid, by simp⟩
      rw [hcur.nxt] at hmake
      obtain ⟨hlaid, hbytes, -⟩ := makePacket_next hcur.laid hnear hn hmake
      exact ⟨hlaid, hbytes⟩
    have hcb : c ≤ stream.length := by
      obtain ⟨phase, hlay⟩ := hcur.laid
      exact hlay.b_le
    refine ⟨sending_data h hcur hq hlaid (fun hb => (bare_filled hb hfill).1 ▸ hb) hseq hlen
      hsyn ?_, ?_⟩
    · intro hf
      obtain ⟨phase, hlay⟩ := hlaid
      have hunsent := hlay.bufferedUnsent_eq
      have hle := hlay.b_le
      have hz := hfin hf
      omega
    · exact fun _ => ⟨c, hcb, hcur.nxt, hbytes⟩
  obtain ⟨rfl, rfl⟩ : tx' = tx ∧ bytes = [] := by
    rcases hfill with hsame | ⟨n, -, hmake⟩
    · exact hsame
    · rw [hcur.nxt] at hmake
      exact makePacket_past hcur.laid hall (.inr rfl) hmake
  have hf : hasAny seg.flags flagFIN = false := by
    rw [hflags flagFIN (by decide) (by decide)]
    exact hnofin
  exact ⟨sending_quiet h hopen (.inr (len_eq_zero (by rw [hlen]; rfl) hf hsyn)) hf, drawn_nil _ _ _⟩

theorem sending_resend (h : Sending scb tx stream) (hdata : scb.state.txDataOpen)
    (hseq : seg.seq = scb.snd.una) (hlen : seg.datalen = BitVec.ofNat 32 bytes.length)
    (hfin : hasAny seg.flags flagFIN = false) (hsyn : hasAny seg.flags flagSYN = false)
    (hfill : Filled tx tx' scb.snd.una bytes) : Sending (scb.commitSend seg) tx' stream ∧
      Drawn stream scb.snd.iss scb.snd.una bytes := by
  have hq : scb.state.txQueuedDataOpen := by simp [txQueuedDataOpen, hdata]
  have hopen : scb.state ≠ .closed := by rintro hst; rw [hst] at hq; cases hq
  obtain ⟨a, u, c, hcur⟩ := h.level hdata
  obtain rfl := hcur.exact hdata
  have hle := hcur.acked
  have hnear := hcur.near
  have hcb : c ≤ stream.length := by
    obtain ⟨phase, hlay⟩ := hcur.laid
    exact hlay.b_le
  rcases Nat.eq_or_lt_of_le hle with rfl | hlt
  · -- nothing outstanding: new data goes out at snd.NXT
    have hnext : scb.snd.una = scb.snd.nxt := hcur.una.trans hcur.nxt.symm
    obtain ⟨hlaid, hbytes⟩ : Laid tx' (scb.snd.iss + 1) stream u (u + bytes.length) ∧
        bytes = (stream.drop u).take bytes.length := by
      rcases hfill with ⟨rfl, rfl⟩ | ⟨n, hn, hmake⟩
      · exact ⟨hcur.laid, by simp⟩
      rw [hcur.una] at hmake
      obtain ⟨hlaid, hbytes, -⟩ := makePacket_next hcur.laid hnear hn hmake
      exact ⟨hlaid, hbytes⟩
    refine ⟨sending_data h hcur hq hlaid (fun hb => (bare_filled hb hfill).1 ▸ hb)
      (hseq.trans hnext) hlen hsyn (fun hf => by rw [hfin] at hf; cases hf),
      fun _ => ⟨u, hcb, hcur.una, hbytes⟩⟩
  obtain ⟨rfl, hbytes⟩ : tx' = tx ∧ bytes = (stream.drop u).take bytes.length := by
    rcases hfill with ⟨rfl, rfl⟩ | ⟨n, hn, hmake⟩
    · exact ⟨rfl, by simp⟩
    rw [hcur.una] at hmake
    obtain ⟨hsame, hbytes, -⟩ := makePacket_oldest hcur.laid hnear hn hlt hmake
    exact ⟨hsame, hbytes⟩
  refine ⟨sending_quiet h hopen (.inl ?_) hfin, fun _ => ⟨u, by omega, hcur.una, hbytes⟩⟩
  rw [hseq, hcur.una, hcur.nxt]
  exact (lessThan_advance_iff _ (by omega) (by omega)).mpr hlt

end Sent

/-- No packet covers the sequence number, or one starts there that is the oldest or not
at the front of the buffer. -/
def Followed (tx : RingTx) (seq : Value) : Prop :=
  ∀ pkt, tx.slist.packetContaining seq = some pkt →
    pkt.seq = seq ∧ (tx.slist.oldest = some pkt ∨ pkt.off ≠ 0)

instance (tx : RingTx) (seq : Value) : Decidable (Followed tx seq) :=
  match h : tx.slist.packetContaining seq with
  | none => isTrue fun pkt hp => by rw [h] at hp; cases hp
  | some pkt =>
    decidable_of_iff (pkt.seq = seq ∧ (tx.slist.oldest = some pkt ∨ pkt.off ≠ 0))
      ⟨fun hp p heq => by rw [h] at heq; cases heq; exact hp, fun hall => hall pkt h⟩

section Rewinding
variable {scb : ControlBlock} {tx : RingTx} {stream : List UInt8} {a u b c t : ℕ} {seq : Value}

/-- A rewind that the block takes goes back to an offset between its cursors. -/
theorem rewind_offset (hcur : Cursors scb tx stream a u b c)
    (hback : Value.lessThan seq scb.snd.una = false)
    (hahead : Value.lessThan scb.snd.nxt seq = false) :
    ∃ t, u ≤ t ∧ t ≤ c ∧ seq = advance (scb.snd.iss + 1) t := by
  obtain ⟨phase, hlay⟩ := hcur.laid
  have hb := hlay.b_le
  have hau := hcur.behind
  have huc := hcur.acked
  have hnear := hcur.near
  have hcb : c ≤ b + 1 := by rcases hcur.next with hc | ⟨hc, -⟩ <;> omega
  obtain ⟨d, hd, hseq⟩ : ∃ d, d < 2 ^ 32 ∧ seq = advance (scb.snd.iss + 1) (u + d) := by
    refine ⟨ahead scb.snd.una seq, ahead_lt _ _, ?_⟩
    rw [← advance_advance, ← hcur.una, advance_ahead]
  refine ⟨u + d, by omega, ?_, hseq⟩
  by_contra hgt
  have hpast : ahead scb.snd.nxt seq = u + d - c := by
    rw [hcur.nxt, hseq, ahead_advance_advance _ (by omega) (by omega)]
  have hsize : ahead scb.snd.una seq = d := by
    rw [hcur.una, hseq, ahead_advance_advance _ (by omega) (by omega)]
    omega
  have hne : scb.snd.una ≠ seq := by
    intro heq
    rw [heq, ahead_self] at hsize
    omega
  have hsum := ahead_add_ahead _ _ hne
  rw [← not_eq_true, lessThan_iff] at hback hahead
  omega

/-- Where the ring's second cut stands after a rewind it can follow. -/
theorem Followed.laid (hfol : Followed tx (advance (scb.snd.iss + 1) t))
    (hlaid : Laid tx (scb.snd.iss + 1) stream a b) (hnear : stream.length < a + 2 ^ 31)
    (hat : a ≤ t)
    (htb : t ≤ b + 1) :
    (t ≤ b ∧ Laid (tx.retransmitFrom (advance (scb.snd.iss + 1) t)) (scb.snd.iss + 1) stream a t) ∨
      (t = b + 1 ∧ tx.retransmitFrom (advance (scb.snd.iss + 1) t) = tx) := by
  obtain ⟨phase, hlay⟩ := hlaid
  have hb := hlay.b_le
  cases hpc : tx.slist.packetContaining (advance (scb.snd.iss + 1) t) with
  | none =>
    have hsame : tx.retransmitFrom (advance (scb.snd.iss + 1) t) = tx := by
      rw [RingTx.retransmitFrom, hpc]
    have hbt : b ≤ t := by
      by_contra hlt
      obtain ⟨front, pkt, back, k, hpkts, hf, hr, hk, ht⟩ := hlay.packets.cover hat (by omega)
      rw [packetContaining_eq (by omega) hpkts hf hr hk ht] at hpc
      cases hpc
    rcases Nat.eq_or_lt_of_le hbt with rfl | hlt
    · rw [hsame]
      exact .inl ⟨le_rfl, phase, hlay⟩
    · exact .inr ⟨by omega, hsame⟩
  | some pkt =>
  obtain ⟨hseq, hoff⟩ := hfol pkt hpc
  obtain ⟨hin, front, back, hpkts, hnone⟩ := find?_eq_some_iff_append.mp hpc
  obtain ⟨k, hf, hr⟩ := hlay.split hpkts
  have hk := hf.le
  have hkb := hr.2.le
  have hpos := hr.1.nonempty
  obtain rfl : k = t := by
    rw [hr.1.seq_eq] at hseq
    rcases Nat.lt_trichotomy k t with hlt | heq | hgt
    · exact absurd hseq (seq_ne_of_lt _ hlt (by omega))
    · exact heq
    · exact absurd hseq.symm (seq_ne_of_lt _ hgt (by omega))
  have hfront : front = [] ∨ pkt.off ≠ 0 := by
    rcases hoff with hold | hne
    · left
      cases front with
      | nil => rfl
      | cons first rest =>
      rw [SentList.oldest, hpkts] at hold
      obtain rfl : first = pkt := Option.some.inj hold
      have := hnone first (mem_cons_self ..)
      rw [hin] at this
      cases this
    · exact .inr hne
  exact .inl ⟨by omega, phase, (hlay.retransmitFrom (by omega) hpkts hf hr hpc hfront).1⟩

theorem sending_rewound (h : Sending scb tx stream) (hfol : Followed tx seq)
    (htake : scb.retransmitFrom seq = (scb', true)) :
    Sending scb' (tx.retransmitFrom seq) stream := by
  unfold retransmitFrom at htake
  split_ifs at htake with hq hrange
  · simp at htake
  · simp at htake
  rw [not_eq_true, not_eq_false'] at hq
  rw [not_eq_true, or_eq_false_iff] at hrange
  obtain ⟨rfl, -⟩ := Prod.mk.inj htake
  have hnot : scb.state.isPreestablished = false ∧ scb.state ≠ .synSent ∧
      scb.state ≠ .synRcvd := by
    revert hq
    cases scb.state <;> decide
  have hsyn := noSyn_of_state h hnot.2.2
  have hempty : stream = [] → Bare (tx.retransmitFrom seq) := by
    intro hw
    rw [(h.empty hw).retransmitFrom]
    exact h.empty hw
  refine ⟨hempty, h.second, ?_, ?_, ?_, ?_, fun _ => ?_, ?_⟩
  · simp [hsyn]
  · simp [hnot.1]
  · simp [hnot.2.1, hnot.2.2]
  · simp [hnot.2.1]
  · rcases h.cursors hq with hnone | ⟨a, u, b, c, hcur⟩
    · exact .inl hnone
    have hau := hcur.behind
    obtain ⟨t, hut, htc, rfl⟩ := rewind_offset hcur hrange.1 hrange.2
    have htb : t ≤ b + 1 := by rcases hcur.next with hc | ⟨hc, -⟩ <;> omega
    rcases hfol.laid hcur.laid hcur.near (by omega) htb with ⟨-, hlaid⟩ | ⟨rfl, hsame⟩
    · exact .inr ⟨a, u, t, t, hlaid, hau, hut, hcur.una, rfl, .inl rfl, hcur.exact, hcur.near⟩
    rw [hsame]
    refine .inr ⟨a, u, b, b + 1, hcur.laid, hau, hut, hcur.una, rfl, ?_, hcur.exact, hcur.near⟩
    rcases hcur.next with hc | ⟨-, hfin⟩
    · omega
    · exact .inr ⟨rfl, hfin⟩
  · simp

end Rewinding

end Lneto.SendProgress
