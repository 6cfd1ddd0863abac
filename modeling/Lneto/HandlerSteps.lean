import Lneto.Connection
import Lneto.ControlSteps

/-!
What one call does to a connection handler, said once per method. Recv leaves
the handler alone, stages an early payload, or hands the segment to the control
block. With a receive ring in bounds, all that can stop it is an oversized
payload or the block itself.
-/
namespace Lneto.Connection

open Segments Control InternalRing TransmitRing OutOfOrder Frames CircularBuffers ByteRing

variable {bytes payload pkt : List UInt8} {h h' : Handler} {n : ℕ} {seg : Segment} {tfrm : Frame}
  {keep : Bool} {rtx rtx' : RingTx} {err : Option Err} {rx : ByteRing} {seq : Value}
  {scb : ControlBlock}

def InBounds (rx : ByteRing) : Prop := rx.off ≤ rx.buf.length ∧ rx.endOff ≤ rx.buf.length

theorem InBounds.wf (h : InBounds rx) (hn : 0 < n) (hfree : n ≤ rx.free) : rx.WF := by
  refine ⟨?_, h.1, h.2⟩
  obtain ⟨hoff, hend⟩ := h
  unfold free at hfree
  split_ifs at hfree <;> omega

theorem InBounds.extend (h : InBounds rx) {buf : List UInt8} (hn : 0 < n) (hfree : n ≤ rx.free)
    (hbuf : buf.length = rx.buf.length) : InBounds (rx.extend buf n) := by
  obtain ⟨hwf, -⟩ := extend_spec rx buf n (h.wf hn hfree) hn hfree hbuf
  exact ⟨hwf.off_le, hwf.end_le⟩

structure SameShape (rx rx' : ByteRing) : Prop where
  off : rx'.off = rx.off
  endOff : rx'.endOff = rx.endOff
  size : rx'.buf.length = rx.buf.length

theorem SameShape.inBounds {rx' : ByteRing} (h : SameShape rx rx') (hb : InBounds rx) :
    InBounds rx' := by
  obtain ⟨hoff, hend, hsize⟩ := h
  unfold InBounds
  rw [hoff, hend, hsize]
  exact hb

theorem peekWrite_shape (h : InBounds rx) {b : List UInt8} (gap : ℕ) (hb : b ≠ []) :
    ∃ rx' ok, rx.peekWrite b gap = .ok (rx', ok) ∧ SameShape rx rx' := by
  by_cases hfree : gap + b.length ≤ rx.free
  · have hpos : 0 < gap + b.length := by
      have := List.length_pos_of_ne_nil hb
      omega
    obtain ⟨i, hi, -, hw⟩ := peekWrite_ok rx b gap (h.wf hpos hfree) hfree
    exact ⟨_, _, hw, rfl, rfl, length_wrapBlit _ _ _ hi⟩
  · exact ⟨_, _, peekWrite_full rx b gap (by omega), rfl, rfl, rfl⟩

/-- Storing an early segment always returns; a refusal changes nothing. -/
theorem store_outcome (r : Reassembly) (h : InBounds rx) (nxt seq : Value) (payload : List UInt8) :
    ∃ r' rx' ok, r.store rx nxt seq payload = .ok (r', rx', ok) ∧ SameShape rx rx' := by
  simp only [Reassembly.store]
  split_ifs with h1 h2 h3 h4 h5
  · exact ⟨_, _, _, rfl, rfl, rfl, rfl⟩
  · exact ⟨_, _, _, rfl, rfl, rfl, rfl⟩
  · exact ⟨_, _, _, rfl, rfl, rfl, rfl⟩
  · exact ⟨_, _, _, rfl, rfl, rfl, rfl⟩
  · exact ⟨_, _, _, rfl, rfl, rfl, rfl⟩
  have hb : payload ≠ [] := by
    rintro rfl
    simp at h1
  obtain ⟨rx', ok, hw, hshape⟩ := peekWrite_shape h (Value.sizeof nxt seq).toNat hb
  rw [hw]
  cases ok with
  | false => exact ⟨_, _, _, rfl, rfl, rfl, rfl⟩
  | true => exact ⟨_, _, _, rfl, hshape⟩

theorem reassembleHeld_inBounds (held : List ReasmSeg) :
    ∀ (rx : ByteRing) (nxt : Value) (delivered : Size), InBounds rx →
      InBounds (Reassembly.reassembleHeld rx nxt delivered held).1 := by
  induction held with
  | nil =>
    intro rx nxt delivered h
    exact h
  | cons seg rest ih =>
  intro rx nxt delivered h
  simp only [Reassembly.reassembleHeld]
  split_ifs with hseq hold
  · by_cases hfit : 0 < seg.n ∧ seg.n ≤ rx.free
    · rw [commit_ok rx seg.n hfit.1 hfit.2]
      exact ih _ _ _ (h.extend hfit.1 hfit.2 rfl)
    obtain ⟨err, herr⟩ := commit_refused rx seg.n (by omega)
    rw [herr]
    exact h
  · exact ih rx nxt delivered h
  · exact h

theorem markRcvd_ne_nil (ack : Value) : ∀ (pkts : List RingIdx) (ssn : Value), pkts ≠ [] →
    (SentList.markRcvd ack ssn pkts).2 ≠ [] := by
  intro pkts ssn hne
  cases pkts with
  | nil => exact absurd rfl hne
  | cons pkt rest =>
    simp only [SentList.markRcvd]
    split_ifs <;> simp

theorem recvACK_returns (rtx : RingTx) (ack : Value) :
    ∃ rtx' err, rtx.recvACK ack = .ok (rtx', err) := by
  have hlist : ∃ slist err, rtx.slist.recvAck ack rtx.size = .ok (slist, err) := by
    unfold SentList.recvAck
    cases hnew : rtx.slist.newest with
    | none => exact ⟨_, _, rfl⟩
    | some newest =>
    simp only []
    split_ifs
    · exact ⟨_, _, rfl⟩
    have hne : rtx.slist.pkts ≠ [] := by
      intro hnil
      rw [SentList.newest, hnil] at hnew
      cases hnew
    obtain ⟨pkt, rest, hmark⟩ :=
      List.exists_cons_of_ne_nil (markRcvd_ne_nil ack _ rtx.slist.ssn hne)
    rw [hmark]
    exact ⟨_, _, rfl⟩
  obtain ⟨slist, err, hlist⟩ := hlist
  rw [RingTx.recvACK, hlist]
  cases err with
  | some err => exact ⟨_, _, rfl⟩
  | none =>
    simp only []
    split <;> exact ⟨_, _, rfl⟩

inductive Makes (rtx : RingTx) (n : ℕ) (seq : Value) : RingTx → List UInt8 → Option Err → Prop where
  | refused (err : Err) : Makes rtx n seq rtx [] (some err)
  | again {pkt : RingIdx} {r : ByteRing} {bytes : List UInt8} {err : Option Err}
      (hread : (rtx.ring pkt.off pkt.endOff).read n = .ok (r, bytes, err)) :
      Makes rtx n seq rtx bytes err
  | nothing (hempty : rtx.unsentRing.isEmpty = true) : Makes rtx n seq rtx [] none
  | fresh {r : ByteRing} {bytes : List UInt8} (hread : rtx.unsentRing.read n = .ok (r, bytes, none))
      (rtx' : RingTx) : Makes rtx n seq rtx' bytes none

theorem resendPacket_outcome (h : rtx.resendPacket n seq = .ok (bytes, err)) :
    Makes rtx n seq rtx bytes err := by
  unfold RingTx.resendPacket at h
  cases hfind : rtx.slist.pkts.find? fun pkt => pkt.seq == seq with
  | none =>
    rw [hfind] at h
    cases h
    exact .refused _
  | some pkt =>
  rw [hfind] at h
  cases hread : (rtx.ring pkt.off pkt.endOff).read n with
  | error p => simp [hread] at h
  | ok out =>
  obtain ⟨r, b, e⟩ := out
  simp only [hread] at h
  cases h
  exact .again hread

theorem newPacket_outcome (h : rtx.newPacket n seq = .ok (rtx', bytes, err)) :
    Makes rtx n seq rtx' bytes err := by
  unfold RingTx.newPacket at h
  by_cases hempty : rtx.unsentRing.isEmpty
  · rw [if_pos hempty] at h
    cases h
    exact .nothing hempty
  rw [if_neg hempty] at h
  cases hread : rtx.unsentRing.read n with
  | error p => simp [hread] at h
  | ok out =>
  obtain ⟨r, b, e⟩ := out
  rw [hread] at h
  cases e with
  | some e =>
    cases h
    exact .refused _
  | none =>
  simp only [] at h
  cases hadd : rtx.slist.addPacket b.length rtx.unsentoff rtx.size seq with
  | error p => simp [hadd] at h
  | ok added =>
  rw [hadd] at h
  simp only [] at h
  by_cases hbad : added.2.off ≠ rtx.unsentoff ∨
      added.2.endOff ≠ addEnd added.2.off b.length rtx.size
  · rw [if_pos hbad] at h
    cases h
  rw [if_neg hbad] at h
  cases h
  exact .fresh hread _

theorem makePacket_outcome (h : rtx.makePacket n seq = .ok (rtx', bytes, err)) :
    Makes rtx n seq rtx' bytes err := by
  unfold RingTx.makePacket at h
  by_cases hfull : rtx.slist.free = 0
  · rw [if_pos hfull] at h
    cases h
    exact .refused _
  rw [if_neg hfull] at h
  by_cases hold : (rtx.sentEndSeq.any fun endSeq => Value.lessThan seq endSeq)
  · rw [if_pos hold] at h
    cases hre : rtx.resendPacket n seq with
    | error p => simp [hre] at h
    | ok out =>
    obtain ⟨b, e⟩ := out
    simp only [hre] at h
    cases h
    exact resendPacket_outcome hre
  · rw [if_neg hold] at h
    exact newPacket_outcome h

theorem length_makePacket_le (h : rtx.makePacket n seq = .ok (rtx', bytes, err)) :
    bytes.length ≤ n := by
  cases makePacket_outcome h with
  | refused | nothing => exact Nat.zero_le _
  | again hread | fresh hread => exact length_read_le hread

theorem makePacket_err {e : Err} (h : rtx.makePacket n seq = .ok (rtx', bytes, some e)) :
    rtx' = rtx := by
  cases makePacket_outcome h <;> rfl

namespace Handler

/-- Delivery advances rcv.NXT and may queue an ACK; it touches nothing else of the
control block. -/
theorem deliverReassembled_eq (h : Handler) : ∃ reasm rx d pending, h.deliverReassembled = { h with
      reasm := reasm
      bufRx := rx
      scb := { h.scb with
        rcv := { h.scb.rcv with nxt := h.scb.rcv.nxt + d }
        pending0 := pending } } ∧
    (pending = h.scb.pending0 ∨ pending = h.scb.pending0 ||| flagACK) ∧
    (InBounds h.bufRx → InBounds rx) := by
  have hsame : h.scb.rcv.nxt + 0 = h.scb.rcv.nxt := by simp
  unfold deliverReassembled
  split_ifs with hnone hshut
  · exact ⟨h.reasm, h.bufRx, 0, h.scb.pending0, by rw [hsame], .inl rfl, id⟩
  · exact ⟨h.reasm.clear, h.bufRx, 0, h.scb.pending0, by rw [hsame], .inl rfl, id⟩
  have hin := reassembleHeld_inBounds h.reasm.held h.bufRx h.scb.rcv.nxt 0
  obtain ⟨rx, held, d, hout⟩ : ∃ rx held d,
      Reassembly.reassembleHeld h.bufRx h.scb.rcv.nxt 0 h.reasm.held = (rx, held, d) :=
    ⟨_, _, _, rfl⟩
  have hre : h.reasm.reassemble h.bufRx h.scb.rcv.nxt =
      ({ h.reasm with held := held }, rx, d) := by rw [Reassembly.reassemble, hout]
  rw [hout] at hin
  simp only [hre]
  by_cases hd : 0 < d
  · exact ⟨{ h.reasm with held := held }, rx, d, h.scb.pending0 ||| flagACK, if_pos hd,
      .inr rfl, hin⟩
  · refine ⟨{ h.reasm with held := held }, rx, 0, h.scb.pending0, ?_, .inl rfl, hin⟩
    rw [if_neg hd, hsame]

structure Carries (seg : Segment) (payload : List UInt8) : Prop where
  datalen : seg.datalen = BitVec.ofNat 32 payload.length
  small : payload.length ≤ Frame.maxPayload

theorem Carries.datalen_toNat (h : Carries seg payload) : seg.datalen.toNat = payload.length := by
  have := h.small
  unfold Frame.maxPayload at this
  rw [h.datalen, BitVec.toNat_ofNat, Nat.mod_eq_of_lt (by omega)]

theorem Carries.datalen_eq_zero_iff (h : Carries seg payload) : seg.datalen = 0 ↔ payload = [] := by
  rw [← BitVec.toNat_inj, h.datalen_toNat]
  simp

def appended (rx : ByteRing) (payload : List UInt8) : ByteRing :=
  rx.extend (wrapBlit rx.buf rx.writePos payload) payload.length

/-- The handler with an accepted payload behind the data it holds. -/
def withPayload (h : Handler) (payload : List UInt8) : Handler :=
  if payload = [] then h
  else if h.shutdownRx then h.deliverReassembled
  else { h with bufRx := appended h.bufRx payload }.deliverReassembled

/-- The check of Recv before the control block sees the segment. -/
def Fits (h : Handler) (payload : List UInt8) : Prop :=
  h.shutdownRx = true ∨ payload.length ≤ h.bufRx.free

theorem acceptPayload_eq (hin : InBounds h.bufRx) (hcarry : Carries seg payload)
    (hfits : h.Fits payload) : h.acceptPayload seg payload = .ok (h.withPayload payload, none) := by
  unfold acceptPayload withPayload
  simp only [hcarry.datalen_eq_zero_iff]
  by_cases hnil : payload = []
  · rw [if_pos hnil, if_pos hnil]
  rw [if_neg hnil, if_neg hnil]
  cases hshut : h.shutdownRx with
  | true => rfl
  | false =>
  have hfree : payload.length ≤ h.bufRx.free := by
    rcases hfits with hs | hf
    · rw [hshut] at hs
      cases hs
    · exact hf
  have hwf := hin.wf (List.length_pos_of_ne_nil hnil) hfree
  rw [write_ok h.bufRx payload hwf hnil hfree]
  rfl

theorem freeAcked_eq (h : Handler) (seg : Segment) (prevUNA : Value) :
    ∃ tx, h.freeAcked seg prevUNA = .ok { h with bufTx := tx } ∧
      if Flags.hasAny seg.flags flagACK ∧ seg.ack ≠ prevUNA then
        ∃ err, h.bufTx.recvACK seg.ack = .ok (tx, err)
      else tx = h.bufTx := by
  unfold freeAcked
  split_ifs with hack
  · obtain ⟨tx, err, htx⟩ := recvACK_returns h.bufTx seg.ack
    rw [htx]
    exact ⟨tx, rfl, err, rfl⟩
  · exact ⟨h.bufTx, rfl, rfl⟩

/-- What the options of a SYN and its source port leave in the handler. -/
def withSyn (h : Handler) (mss : Size) (ws : Bool) (shift : ℕ) (port : BitVec 16) : Handler :=
  { h with
    scb := { h.scb with snd := { h.scb.snd with mss := mss } }
    peerOfferedWS := ws
    wndShiftPeer := shift
    remotePort := port }

/-- What one option of a SYN makes of the peer's MSS. -/
def optionMss (mss : Size) (opt : UInt8 × List UInt8) : Size :=
  match opt with
  | (kind, [hi, lo]) =>
    if kind = optMaxSegmentSize ∧ (hi ≠ 0 ∨ lo ≠ 0) then
      BitVec.ofNat 32 (hi.toNat * 256 + lo.toNat)
    else mss
  | _ => mss

/-- The MSS after a SYN: what its options announce, or else what it was. -/
def announcedMss (tfrm : Frame) (mss : Size) : Size :=
  match tfrm.options with
  | .ok opts => (forEachOption opts).foldl optionMss mss
  | .error _ => mss

theorem foldl_applyOption_eq (opts : List (UInt8 × List UInt8)) : ∀ h : Handler,
    ∃ ws shift, opts.foldl applyOption h =
      h.withSyn (opts.foldl optionMss h.scb.snd.mss) ws shift h.remotePort := by
  induction opts with
  | nil =>
    intro h
    exact ⟨h.peerOfferedWS, h.wndShiftPeer, rfl⟩
  | cons opt rest ih =>
  intro h
  have hone : ∃ ws shift, h.applyOption opt =
      h.withSyn (optionMss h.scb.snd.mss opt) ws shift h.remotePort := by
    unfold applyOption
    split
    · split_ifs with hkind
      · exact ⟨h.peerOfferedWS, h.wndShiftPeer, by rw [optionMss, if_pos hkind]; rfl⟩
      · exact ⟨h.peerOfferedWS, h.wndShiftPeer, by rw [optionMss, if_neg hkind]; rfl⟩
    · split_ifs
      · exact ⟨_, _, rfl⟩
      · exact ⟨h.peerOfferedWS, h.wndShiftPeer, rfl⟩
    rename_i hno _
    have hsame : optionMss h.scb.snd.mss opt = h.scb.snd.mss := by
      unfold optionMss
      split
      · exact absurd rfl (hno _ _ _)
      · rfl
    exact ⟨h.peerOfferedWS, h.wndShiftPeer, by rw [hsame]; rfl⟩
  obtain ⟨ws, shift, hone⟩ := hone
  obtain ⟨ws', shift', hrest⟩ := ih (h.withSyn (optionMss h.scb.snd.mss opt) ws shift h.remotePort)
  rw [List.foldl_cons, hone, hrest]
  exact ⟨ws', shift', rfl⟩

theorem acceptSyn_eq (h : Handler) (hvalid : tfrm.validateExceptCRC = none) : ∃ ws shift port,
      h.acceptSyn tfrm = .ok (h.withSyn (announcedMss tfrm h.scb.snd.mss) ws shift port) := by
  have hopts : ∃ opts, tfrm.options = .ok opts := by
    unfold Frame.validateExceptCRC at hvalid
    unfold Frame.options
    split_ifs at hvalid with h1 h2
    rw [if_neg (by omega)]
    exact ⟨_, rfl⟩
  obtain ⟨opts, hopts⟩ := hopts
  obtain ⟨ws, shift, hfold⟩ := foldl_applyOption_eq (forEachOption opts) h
  simp only [acceptSyn, announcedMss, hopts, hfold]
  split_ifs
  · exact ⟨ws, shift, tfrm.sourcePort, rfl⟩
  · exact ⟨ws, shift, h.remotePort, rfl⟩

structure Addressed (h : Handler) (pkt : List UInt8) (tfrm : Frame) : Prop where
  frame : newFrame pkt = .ok tfrm
  valid : tfrm.validateExceptCRC = none
  source : h.remotePort = 0 ∨ tfrm.sourcePort = h.remotePort
  destination : h.localPort = tfrm.destinationPort

def incomingSegment (h : Handler) (tfrm : Frame) (payload : List UInt8) : Segment :=
  { seq := tfrm.seq
    ack := tfrm.ack
    datalen := BitVec.ofNat 32 payload.length
    flags := tfrm.flags
    wnd := if h.peerOfferedWS && !Flags.hasAny tfrm.flags flagSYN then
      tfrm.windowSize.setWidth 32 <<< h.wndShiftPeer else tfrm.windowSize.setWidth 32 }

theorem newFrame_buf (h : newFrame pkt = .ok tfrm) : tfrm.buf = pkt := by
  unfold newFrame at h
  split_ifs at h
  cases h
  rfl

theorem parseIncoming_eq (haddr : h.Addressed pkt tfrm) : h.parseIncoming pkt =
      if Frame.maxPayload < (pkt.drop tfrm.headerLength).length then .error .overflowPayloadSize
      else .ok (.ok (tfrm, pkt.drop tfrm.headerLength,
        h.incomingSegment tfrm (pkt.drop tfrm.headerLength))) := by
  have hpay : tfrm.payload = .ok (pkt.drop tfrm.headerLength) := by
    have hvalid := haddr.valid
    unfold Frame.validateExceptCRC at hvalid
    split_ifs at hvalid with h1 h2
    rw [Frame.payload, if_neg h2, newFrame_buf haddr.frame]
  have hsource : ¬ (h.remotePort ≠ 0 ∧ tfrm.sourcePort ≠ h.remotePort) := by
    have := haddr.source
    tauto
  simp only [parseIncoming, haddr.frame, haddr.valid, hpay]
  rw [if_neg hsource, if_neg (fun hne => hne haddr.destination), Frame.segment]
  split_ifs <;> simp_all [incomingSegment]

theorem parseIncoming_refused (hno : ∀ tfrm, ¬ h.Addressed pkt tfrm) :
    ∃ err, h.parseIncoming pkt = .ok (.error err) := by
  unfold parseIncoming
  cases hframe : newFrame pkt with
  | error err => exact ⟨err, rfl⟩
  | ok tfrm =>
  simp only []
  cases hvalid : tfrm.validateExceptCRC with
  | some err => exact ⟨err, rfl⟩
  | none =>
  by_cases hsource : h.remotePort ≠ 0 ∧ tfrm.sourcePort ≠ h.remotePort
  · exact ⟨_, if_pos hsource⟩
  rw [if_neg hsource]
  have hdest : h.localPort ≠ tfrm.destinationPort := by
    intro heq
    exact hno tfrm ⟨hframe, hvalid, by tauto, heq⟩
  exact ⟨_, if_pos hdest⟩

theorem parseIncoming_ok (hparse : h.parseIncoming pkt = .ok (.ok (tfrm, payload, seg))) :
    h.Addressed pkt tfrm ∧ payload = pkt.drop tfrm.headerLength ∧
      seg = h.incomingSegment tfrm payload ∧ Carries seg payload := by
  by_cases haddr : ∃ frm, h.Addressed pkt frm
  · obtain ⟨frm, haddr⟩ := haddr
    rw [parseIncoming_eq haddr] at hparse
    split_ifs at hparse with hbig
    cases hparse
    exact ⟨haddr, rfl, rfl, rfl, by omega⟩
  obtain ⟨err, herr⟩ := parseIncoming_refused (not_exists.mp haddr)
  rw [herr] at hparse
  cases hparse

/-- Recv hands the segment of the packet to the control block. -/
structure Reaches (h : Handler) (keep : Bool) (pkt : List UInt8) (tfrm : Frame)
    (payload : List UInt8) (seg : Segment) : Prop where
  live : h.isTxOver = false
  parsed : h.parseIncoming pkt = .ok (.ok (tfrm, payload, seg))
  notKeepalive : h.scb.incomingIsKeepalive seg = false
  kept : h.policyEnabled = true → keep = true
  notStaged : h.reasm.enabled = true → h.handleOutOfOrder seg payload = .ok (h, false)
  fits : h.Fits payload

/-- Recv holds the payload of the packet for later. -/
structure Stages (h : Handler) (pkt : List UInt8) (tfrm : Frame) (payload : List UInt8)
    (seg : Segment) (reasm : Reassembly) (rx : ByteRing) : Prop where
  parsed : h.parseIncoming pkt = .ok (.ok (tfrm, payload, seg))
  reading : h.shutdownRx = false
  enabled : h.reasm.enabled = true
  data : seg.datalen ≠ 0
  noControl : Flags.hasAny seg.flags flagctl = false
  early : seg.seq ≠ h.scb.rcv.nxt
  first : Value.inWindow seg.seq h.scb.rcv.nxt h.scb.rcv.wnd = true
  last : Value.inWindow seg.last h.scb.rcv.nxt h.scb.rcv.wnd = true
  stored : h.reasm.store h.bufRx h.scb.rcv.nxt seg.seq payload = .ok (reasm, rx, true)

def Acked (bufTx tx : RingTx) (seg : Segment) (prevUNA : Value) : Prop :=
  if Flags.hasAny seg.flags flagACK ∧ seg.ack ≠ prevUNA then
    ∃ err, bufTx.recvACK seg.ack = .ok (tx, err)
  else tx = bufTx

/-- The packet stops short of the control block. -/
def Stopped (h : Handler) (keep : Bool) (pkt : List UInt8) : Prop :=
  ∀ tfrm payload seg, ¬ h.Reaches keep pkt tfrm payload seg

inductive Received (h : Handler) (keep : Bool) (pkt : List UInt8) :
    Handler → Option Err → Prop where
  | untouched (hstop : h.Stopped keep pkt) (err : Option Err) : Received h keep pkt h err
  | staged {tfrm : Frame} {payload : List UInt8} {seg : Segment} {reasm : Reassembly}
      {rx : ByteRing} (hstop : h.Stopped keep pkt) (hs : h.Stages pkt tfrm payload seg reasm rx) :
      Received h keep pkt { h with
        reasm := reasm
        bufRx := rx
        scb := { h.scb with pending0 := h.scb.pending0 ||| flagACK } } none
  | rejected {tfrm : Frame} {payload : List UInt8} {seg : Segment} {scb : ControlBlock} {e : Err}
      (hr : h.Reaches keep pkt tfrm payload seg) (hrecv : h.scb.recv seg = .ok (scb, some e))
      (err : Option Err) : Received h keep pkt { h with scb := scb } err
  | finished {tfrm : Frame} {payload : List UInt8} {seg : Segment} {scb : ControlBlock}
      (hr : h.Reaches keep pkt tfrm payload seg) (hrecv : h.scb.recv seg = .ok (scb, none))
      (hclosed : scb.state = .closed) : Received h keep pkt { h with scb := scb } (some .netClosed)
  | reset {tfrm : Frame} {payload : List UInt8} {seg : Segment} {scb : ControlBlock}
      (hr : h.Reaches keep pkt tfrm payload seg) (hrecv : h.scb.recv seg = .ok (scb, none))
      (hdata : seg.datalen ≠ 0) (hshut : h.shutdownRx = true)
      (hstate : scb.state = .finWait1 ∨ scb.state = .finWait2) :
      Received h keep pkt { h with scb := scb.queueRST seg.ack } none
  | accepted {tfrm : Frame} {payload : List UInt8} {seg : Segment} {scb : ControlBlock}
      {tx : RingTx} (hr : h.Reaches keep pkt tfrm payload seg)
      (hrecv : h.scb.recv seg = .ok (scb, none)) (hopen : scb.state ≠ .closed)
      (hsyn : Flags.hasAny seg.flags flagSYN = false) (htx : Acked h.bufTx tx seg h.scb.snd.una) :
      Received h keep pkt { { h with scb := scb }.withPayload payload with bufTx := tx } none
  | acceptedSyn {tfrm : Frame} {payload : List UInt8} {seg : Segment} {scb : ControlBlock}
      {tx : RingTx} (hr : h.Reaches keep pkt tfrm payload seg)
      (hrecv : h.scb.recv seg = .ok (scb, none)) (hopen : scb.state ≠ .closed)
      (hsyn : Flags.hasAny seg.flags flagSYN = true) (htx : Acked h.bufTx tx seg h.scb.snd.una)
      {mss : Size} (hmss : mss = announcedMss tfrm scb.snd.mss) (ws : Bool) (shift : ℕ)
      (port : BitVec 16) :
      Received h keep pkt ({ { h with scb := scb }.withPayload payload with
        bufTx := tx }.withSyn mss ws shift port) none

theorem length_appended (h : InBounds rx) (payload : List UInt8) :
    (appended rx payload).buf.length = rx.buf.length := by
  refine length_wrapBlit _ _ _ ?_
  unfold writePos
  split_ifs
  · exact h.1
  · exact h.2

/-- Taking a payload moves only rcv.NXT, the queued ACK and the receive side. -/
theorem withPayload_eq (hin : InBounds h.bufRx) (hfits : h.Fits payload) : ∃ reasm rx d pending,
    h.withPayload payload = { h with
      reasm := reasm
      bufRx := rx
      scb := { h.scb with
        rcv := { h.scb.rcv with nxt := h.scb.rcv.nxt + d }
        pending0 := pending } } ∧
    (pending = h.scb.pending0 ∨ pending = h.scb.pending0 ||| flagACK) ∧ InBounds rx := by
  unfold withPayload
  split_ifs with hnil hshut
  · exact ⟨h.reasm, h.bufRx, 0, h.scb.pending0, by simp, .inl rfl, hin⟩
  · obtain ⟨reasm, rx, d, pending, heq, hp, hb⟩ := h.deliverReassembled_eq
    exact ⟨reasm, rx, d, pending, heq, hp, hb hin⟩
  obtain ⟨reasm, rx, d, pending, heq, hp, hb⟩ :=
    deliverReassembled_eq { h with bufRx := appended h.bufRx payload }
  have hfree : payload.length ≤ h.bufRx.free := by
    rcases hfits with hs | hf
    · exact absurd hs hshut
    · exact hf
  exact ⟨reasm, rx, d, pending, heq, hp,
    hb (hin.extend (List.length_pos_of_ne_nil hnil) hfree (length_appended hin payload))⟩

theorem acceptSegment_outcome (hin : InBounds h.bufRx) (hr : h.Reaches keep pkt tfrm payload seg)
    (hrecv : h.scb.recv seg = .ok (scb, none)) (hopen : scb.state ≠ .closed) :
    ∃ h', { h with scb := scb }.acceptSegment tfrm payload seg h.scb.snd.una = .ok (h', none) ∧
      Received h keep pkt h' none := by
  obtain ⟨haddr, -, -, hcarry⟩ := parseIncoming_ok hr.parsed
  unfold acceptSegment
  by_cases hrst : seg.datalen ≠ 0 ∧ h.shutdownRx ∧ (scb.state = .finWait1 ∨ scb.state = .finWait2)
  · rw [if_pos hrst]
    exact ⟨_, rfl, .reset hr hrecv hrst.1 hrst.2.1 hrst.2.2⟩
  rw [if_neg hrst]
  have hfits : Fits { h with scb := scb } payload := hr.fits
  have hin' : InBounds { h with scb := scb }.bufRx := hin
  obtain ⟨reasm, rx, d, pending, hpay, -⟩ := withPayload_eq hin' hfits
  have htx : ({ h with scb := scb }.withPayload payload).bufTx = h.bufTx := by rw [hpay]
  rw [acceptPayload_eq hin' hcarry hfits]
  obtain ⟨tx, hfree, hacked⟩ :=
    freeAcked_eq ({ h with scb := scb }.withPayload payload) seg h.scb.snd.una
  rw [htx] at hacked
  simp only [hfree]
  cases hsyn : Flags.hasAny seg.flags flagSYN with
  | false =>
    exact ⟨_, rfl, .accepted hr hrecv hopen hsyn hacked⟩
  | true =>
  obtain ⟨ws, shift, port, hacc⟩ := acceptSyn_eq
    { { h with scb := scb }.withPayload payload with bufTx := tx } haddr.valid
  rw [if_pos rfl, hacc]
  exact ⟨_, rfl, .acceptedSyn hr hrecv hopen hsyn hacked (by rw [hpay]) ws shift port⟩

/-- The reassembly queue either passes on a segment or takes it. -/
theorem handleOutOfOrder_outcome (hin : InBounds h.bufRx)
    (hparse : h.parseIncoming pkt = .ok (.ok (tfrm, payload, seg))) (henabled : h.reasm.enabled) :
    h.handleOutOfOrder seg payload = .ok (h, false) ∨
    ∃ reasm rx, h.Stages pkt tfrm payload seg reasm rx ∧
      h.handleOutOfOrder seg payload = .ok ({ h with
        reasm := reasm
        bufRx := rx
        scb := { h.scb with pending0 := h.scb.pending0 ||| flagACK } }, true) := by
  unfold handleOutOfOrder
  by_cases hshut : h.shutdownRx
  · exact .inl (if_pos hshut)
  rw [if_neg hshut]
  by_cases hctl : seg.datalen = 0 ∨ Flags.hasAny seg.flags flagctl
  · exact .inl (if_pos hctl)
  rw [if_neg hctl]
  by_cases hnext : seg.seq = h.scb.rcv.nxt
  · exact .inl (if_pos hnext)
  rw [if_neg hnext]
  by_cases hout : ¬ Value.inWindow seg.seq h.scb.rcv.nxt h.scb.rcv.wnd ∨
      ¬ Value.inWindow seg.last h.scb.rcv.nxt h.scb.rcv.wnd
  · exact .inl (if_pos hout)
  rw [if_neg hout]
  rw [not_or, not_not, not_not] at hout
  rw [not_or, Bool.not_eq_true] at hctl
  obtain ⟨reasm, rx, ok, hstore, -⟩ := store_outcome h.reasm hin h.scb.rcv.nxt seg.seq payload
  rw [hstore]
  cases ok with
  | false => exact .inl rfl
  | true =>
    exact .inr ⟨reasm, rx, ⟨hparse, by simpa using hshut, henabled, hctl.1, hctl.2, hnext,
      hout.1, hout.2, hstore⟩, rfl⟩

/-- A result of Recv: one of its outcomes, or a stop inside the control block. -/
def Returns (h : Handler) (keep : Bool) (pkt : List UInt8)
    (result : Except Panic (Handler × Option Err)) : Prop :=
  (∃ h' err, result = .ok (h', err) ∧ Received h keep pkt h' err) ∨
    ∃ tfrm payload seg p, h.Reaches keep pkt tfrm payload seg ∧ h.scb.recv seg = .error p ∧
      result = .error p

section
variable (hin : InBounds h.bufRx) (hlive : h.isTxOver = false)
  (hparse : h.parseIncoming pkt = .ok (.ok (tfrm, payload, seg)))
include hin hlive hparse

theorem recvControl_returns
    (hkeepalive : h.scb.incomingIsKeepalive seg = false) (hkept : h.policyEnabled → keep)
    (hnot : h.reasm.enabled → h.handleOutOfOrder seg payload = .ok (h, false)) :
    Returns h keep pkt (h.recvControl tfrm payload seg) := by
  unfold recvControl
  by_cases hfull : (!h.shutdownRx) ∧ h.bufRx.free < payload.length
  · rw [if_pos hfull]
    refine .inl ⟨_, _, rfl, .untouched ?_ _⟩
    intro tfrm' payload' seg' hr
    cases hparse.symm.trans hr.parsed
    rcases hr.fits with hs | hf
    · simp [hs] at hfull
    · omega
  rw [if_neg hfull]
  have hr : h.Reaches keep pkt tfrm payload seg := by
    refine ⟨hlive, hparse, hkeepalive, hkept, hnot, ?_⟩
    unfold Fits
    cases hs : h.shutdownRx with
    | true => exact .inl rfl
    | false => exact .inr (not_lt.mp fun hlt => hfull ⟨by simp [hs], hlt⟩)
  cases hrecv : h.scb.recv seg with
  | error p => exact .inr ⟨tfrm, payload, seg, p, hr, hrecv, rfl⟩
  | ok out =>
  left
  obtain ⟨scb, err⟩ := out
  cases err with
  | some e => exact ⟨_, _, rfl, .rejected hr hrecv _⟩
  | none =>
  by_cases hclosed : scb.state = .closed
  · simp only [if_pos hclosed]
    exact ⟨_, _, rfl, .finished hr hrecv hclosed⟩
  simp only [if_neg hclosed]
  obtain ⟨h', hacc, hout⟩ := acceptSegment_outcome hin hr hrecv hclosed
  exact ⟨h', none, hacc, hout⟩

theorem recvSegment_returns : Returns h keep pkt (h.recvSegment keep tfrm payload seg) := by
  unfold recvSegment
  by_cases hkeepalive : h.scb.incomingIsKeepalive seg
  · rw [if_pos hkeepalive]
    refine .inl ⟨_, _, rfl, .untouched ?_ _⟩
    intro tfrm' payload' seg' hr
    cases hparse.symm.trans hr.parsed
    rw [hr.notKeepalive] at hkeepalive
    cases hkeepalive
  rw [if_neg hkeepalive]
  rw [Bool.not_eq_true] at hkeepalive
  by_cases hpolicy : (h.policyEnabled && !keep)
  · rw [if_pos hpolicy]
    refine .inl ⟨_, _, rfl, .untouched ?_ _⟩
    intro tfrm' payload' seg' hr
    rw [Bool.and_eq_true, Bool.not_eq_true'] at hpolicy
    simp [hr.kept hpolicy.1] at hpolicy
  rw [if_neg hpolicy]
  have hkept : h.policyEnabled → keep := by
    intro hp
    simpa [hp] using hpolicy
  cases henabled : h.reasm.enabled with
  | false =>
    exact recvControl_returns hin hlive hparse hkeepalive hkept
      (fun he => absurd he (by simp [henabled]))
  | true =>
  rcases handleOutOfOrder_outcome hin hparse henabled with hpass | ⟨reasm, rx, hs, htake⟩
  · rw [hpass]
    exact recvControl_returns hin hlive hparse hkeepalive hkept (fun _ => hpass)
  rw [htake]
  refine .inl ⟨_, _, rfl, .staged ?_ hs⟩
  intro tfrm' payload' seg' hr
  cases hparse.symm.trans hr.parsed
  have hflag := congrArg (fun x => x.toOption.map Prod.snd)
    (htake.symm.trans (hr.notStaged henabled))
  simp [Except.toOption] at hflag

end

/-- Recv returns with one of its outcomes, or stops on an oversized payload or
inside the control block. -/
theorem recv_outcome (hin : InBounds h.bufRx) (keep : Bool) (pkt : List UInt8) :
    Returns h keep pkt (h.recv keep pkt) ∨ (h.isTxOver = false ∧
      ∃ p, h.parseIncoming pkt = .error p ∧ h.recv keep pkt = .error p) := by
  unfold recv
  cases hlive : h.isTxOver with
  | true =>
    refine .inl (.inl ⟨_, _, rfl, .untouched ?_ _⟩)
    intro tfrm payload seg hr
    cases hlive.symm.trans hr.live
  | false =>
  cases hparse : h.parseIncoming pkt with
  | error p => exact .inr ⟨rfl, p, rfl, rfl⟩
  | ok r =>
  left
  cases r with
  | error err =>
    refine .inl ⟨_, _, rfl, .untouched ?_ _⟩
    intro tfrm payload seg hr
    cases hparse.symm.trans hr.parsed
  | ok parsed => exact recvSegment_returns hin hlive hparse

theorem recv_of_reaches (hr : h.Reaches keep pkt tfrm payload seg) :
    h.recv keep pkt = match h.scb.recv seg with
      | .error p => .error p
      | .ok (scb, some err) =>
        .ok ({ h with scb := scb }, some (if scb.state = .closed then .netClosed else err))
      | .ok (scb, none) =>
        if scb.state = .closed then .ok ({ h with scb := scb }, some .netClosed)
        else { h with scb := scb }.acceptSegment tfrm payload seg h.scb.snd.una := by
  have hpolicy : (h.policyEnabled && !keep) = false := by
    cases hp : h.policyEnabled with
    | false => rfl
    | true => rw [hr.kept hp]; rfl
  have hfull : ¬ ((!h.shutdownRx) ∧ h.bufRx.free < payload.length) := by
    rintro ⟨hs, hf⟩
    rcases hr.fits with h1 | h1
    · simp [h1] at hs
    · omega
  have hcontrol : h.recv keep pkt = h.recvControl tfrm payload seg := by
    rw [recv, hr.live, if_neg (by simp), hr.parsed]
    simp only [recvSegment, hr.notKeepalive, hpolicy]
    cases henabled : h.reasm.enabled with
    | false => rfl
    | true =>
      simp only [hr.notStaged henabled]
      rfl
  rw [hcontrol, recvControl]
  exact if_neg hfull

theorem received_of_recv (hin : InBounds h.bufRx) (hrecv : h.recv keep pkt = .ok (h', err)) :
    Received h keep pkt h' err := by
  rcases recv_outcome hin keep pkt with (⟨h1, e1, hok, hout⟩ | ⟨_, _, _, p, -, -, herr⟩) |
    ⟨-, p, -, herr⟩
  · rw [hok] at hrecv
    cases hrecv
    exact hout
  all_goals
    rw [herr] at hrecv
    cases hrecv

theorem withPayload_inBounds (scb : ControlBlock) (hin : InBounds h.bufRx) (hfits : h.Fits payload)
    : InBounds ({ h with scb := scb }.withPayload payload).bufRx := by
  have hin' : InBounds { h with scb := scb }.bufRx := hin
  obtain ⟨_, _, _, _, heq, -, hb⟩ := withPayload_eq hin' hfits
  rw [heq]
  exact hb

theorem withPayload_scb (scb : ControlBlock) (hin : InBounds h.bufRx) (hfits : h.Fits payload) :
    ∃ d pending, ({ h with scb := scb }.withPayload payload).scb = { scb with
      rcv := { scb.rcv with nxt := scb.rcv.nxt + d }
      pending0 := pending } ∧ (pending = scb.pending0 ∨ pending = scb.pending0 ||| flagACK) := by
  have hin' : InBounds { h with scb := scb }.bufRx := hin
  obtain ⟨_, _, d, pending, heq, hp, -⟩ := withPayload_eq hin' hfits
  rw [heq]
  exact ⟨d, pending, rfl, hp⟩

/-- What Recv leaves of a block that gave its verdict: the block, a queued reset, or the
block after payload and options. -/
inductive Settled (scb : ControlBlock) (seg : Segment) : ControlBlock → Prop where
  | verdict : Settled scb seg scb
  | reset : Settled scb seg (scb.queueRST seg.ack)
  | taken (d mss : Size) {pending : Flags}
      (hp : pending = scb.pending0 ∨ pending = scb.pending0 ||| flagACK) :
      Settled scb seg { scb with
        snd := { scb.snd with mss := mss }
        rcv := { scb.rcv with nxt := scb.rcv.nxt + d }
        pending0 := pending }

theorem received_scb (hin : InBounds h.bufRx) (hout : Received h keep pkt h' err) :
    (h.Stopped keep pkt ∧ (h'.scb = h.scb ∨
      h'.scb = { h.scb with pending0 := h.scb.pending0 ||| flagACK })) ∨
    ∃ tfrm payload seg scb e, h.Reaches keep pkt tfrm payload seg ∧
      h.scb.recv seg = .ok (scb, e) ∧ Settled scb seg h'.scb := by
  cases hout with
  | untouched hstop => exact .inl ⟨hstop, .inl rfl⟩
  | staged hstop => exact .inl ⟨hstop, .inr rfl⟩
  | rejected hr hb | finished hr hb => exact .inr ⟨_, _, _, _, _, hr, hb, .verdict⟩
  | reset hr hb => exact .inr ⟨_, _, _, _, _, hr, hb, .reset⟩
  | @accepted tfrm payload seg scb tx hr hb =>
    obtain ⟨d, pending, heq, hp⟩ := withPayload_scb scb hin hr.fits
    refine .inr ⟨_, _, _, _, _, hr, hb, ?_⟩
    simp only [heq]
    exact .taken d scb.snd.mss hp
  | @acceptedSyn tfrm payload seg scb tx hr hb _ _ _ mss _ ws shift port =>
  obtain ⟨d, pending, heq, hp⟩ := withPayload_scb scb hin hr.fits
  refine .inr ⟨_, _, _, _, _, hr, hb, ?_⟩
  simp only [withSyn, heq]
  exact .taken d mss hp

theorem Settled.state {out : ControlBlock} (h : Settled scb seg out) : out.state = scb.state := by
  cases h <;> rfl

/-- A packet that reaches the control block is settled by its verdict. -/
theorem recv_settled {e : Option Err} (hin : InBounds h.bufRx)
    (hr : h.Reaches keep pkt tfrm payload seg) (hrecv : h.scb.recv seg = .ok (scb, e)) :
    ∃ h' err, h.recv keep pkt = .ok (h', err) ∧ Settled scb seg h'.scb := by
  rcases recv_outcome hin keep pkt with (⟨h', err, hok, hout⟩ | ⟨_, _, _, p, hr', hp, -⟩) |
    ⟨-, p, hparse, -⟩
  · refine ⟨h', err, hok, ?_⟩
    rcases received_scb hin hout with ⟨hstop, -⟩ | ⟨_, _, _, scb', _, hr', hb, hset⟩
    · exact absurd hr (hstop tfrm payload seg)
    cases hr.parsed.symm.trans hr'.parsed
    cases hrecv.symm.trans hb
    exact hset
  · cases hr.parsed.symm.trans hr'.parsed
    cases hrecv.symm.trans hp
  · cases hparse.symm.trans hr.parsed

theorem maybeQueueWindowUpdate_eq (h : Handler) : ∃ pending,
    h.maybeQueueWindowUpdate = { h with scb := { h.scb with pending0 := pending } } ∧
      (pending = h.scb.pending0 ∨ pending = h.scb.pending0 ||| flagACK) := by
  unfold maybeQueueWindowUpdate
  simp only []
  split_ifs
  · exact ⟨_, rfl, .inl rfl⟩
  · exact ⟨_, rfl, .inr rfl⟩
  · exact ⟨_, rfl, .inl rfl⟩
  · exact ⟨_, rfl, .inr rfl⟩
  · exact ⟨_, rfl, .inl rfl⟩

def afterRead (h : Handler) (n : ℕ) : Handler :=
  { h with bufRx := h.bufRx.shrink n }.deliverReassembled.maybeQueueWindowUpdate

theorem read_outcome (hin : InBounds h.bufRx) (n : ℕ) : (∃ err, h.read n = .ok (h, [], err)) ∨
    (h.bufRx.WF ∧ h.bufRx.endOff ≠ 0 ∧ 0 < n ∧
      h.read n = .ok (h.afterRead (min n h.bufRx.buffered), h.bufRx.readable.take n, none)) := by
  unfold read
  by_cases hshut : h.shutdownRx
  · exact .inl ⟨_, if_pos hshut⟩
  rw [if_neg hshut]
  by_cases hempty : h.bufRx.buffered = 0
  · exact .inl ⟨_, if_pos hempty⟩
  rw [if_neg hempty]
  by_cases hn : n = 0
  · left
    subst hn
    exact ⟨_, rfl⟩
  have hwf : h.bufRx.WF := by
    refine ⟨?_, hin.1, hin.2⟩
    unfold buffered size at hempty
    omega
  have hend : h.bufRx.endOff ≠ 0 := fun hz =>
    hempty ((buffered_eq_zero_iff _ hwf).mpr hz)
  right
  refine ⟨hwf, hend, by omega, ?_⟩
  rw [read_ok h.bufRx n hwf (by omega) hend]
  have hbytes : h.bufRx.readable.take n ≠ [] := by
    intro hnil
    have := congrArg List.length hnil
    simp at this
    omega
  simp only [if_neg hbytes, afterRead]

/-- Read moves only rcv.NXT, the queued ACK and the receive side. -/
theorem afterRead_eq (h : Handler) (n : ℕ) : ∃ reasm rx d pending, h.afterRead n = { h with
      reasm := reasm
      bufRx := rx
      scb := { h.scb with
        rcv := { h.scb.rcv with nxt := h.scb.rcv.nxt + d }
        pending0 := pending } } ∧
    (pending = h.scb.pending0 ∨ pending = h.scb.pending0 ||| flagACK) := by
  obtain ⟨reasm, rx, d, p, heq, hp, -⟩ := deliverReassembled_eq { h with bufRx := h.bufRx.shrink n }
  obtain ⟨pending, hupd, hpend⟩ := maybeQueueWindowUpdate_eq
    { h with bufRx := h.bufRx.shrink n }.deliverReassembled
  rw [heq] at hupd hpend
  refine ⟨reasm, rx, d, pending, ?_, ?_⟩
  · rw [afterRead, heq, hupd]
  rcases hp with rfl | rfl
  · exact hpend
  rcases hpend with rfl | rfl
  · exact .inr rfl
  · right
    simp only [BitVec.or_assoc, BitVec.or_self]

theorem afterRead_inBounds (hwf : h.bufRx.WF) (hend : h.bufRx.endOff ≠ 0) (hn : 0 < n) :
    InBounds (h.afterRead (min n h.bufRx.buffered)).bufRx := by
  have hpos : h.bufRx.buffered ≠ 0 := fun hz =>
    hend ((buffered_eq_zero_iff _ hwf).mp hz)
  obtain ⟨hw, -⟩ := shrink_spec h.bufRx (min n h.bufRx.buffered) hwf (by omega) (by omega)
  obtain ⟨_, _, _, _, heq, -, hb⟩ := deliverReassembled_eq
    { h with bufRx := h.bufRx.shrink (min n h.bufRx.buffered) }
  obtain ⟨pending, hupd, -⟩ := maybeQueueWindowUpdate_eq
    { h with bufRx := h.bufRx.shrink (min n h.bufRx.buffered) }.deliverReassembled
  rw [afterRead, hupd, heq]
  exact hb ⟨hw.off_le, hw.end_le⟩

theorem write_eq {b : List UInt8} {r : ℕ × Option Err} (hwrite : h.write b = .ok (h', r)) :
    ∃ tx, h' = { h with bufTx := tx } := by
  unfold write at hwrite
  split_ifs at hwrite
  · cases hwrite
    exact ⟨h.bufTx, rfl⟩
  · cases hwrite
    exact ⟨h.bufTx, rfl⟩
  split at hwrite
  · cases hwrite
  · cases hwrite
    exact ⟨_, rfl⟩

def dataSegment (h : Handler) (seg : Segment) (bytes : List UInt8) : Segment :=
  { seg with
    wnd := h.recvWindow
    datalen := BitVec.ofNat 32 bytes.length
    flags := if bytes = [] then seg.flags else seg.flags ||| flagPSH }

def synackSegment (h : Handler) : Segment :=
  { seq := h.scb.snd.una
    ack := h.scb.rcv.nxt
    wnd := BitVec.ofNat 32 h.bufRx.free
    flags := synack }

/-- The outcomes of the choice of a segment; room is what PendingSegment is asked to fill. -/
inductive Chosen (h : Handler) (awaitingSyn : Bool) (room : ℕ) : Handler → Choice → Prop where
  | syn (hwhy : awaitingSyn = true ∨ (h.requeueControl = true ∧ h.scb.state = .synSent))
      (offset : ℕ) (options : List UInt8) :
      Chosen h awaitingSyn room h (.segment
        (clientSynSegment h.bufTx.iss (BitVec.ofNat 32 h.bufRx.size)) offset options [])
  | synackAgain (hstate : h.scb.state = .synRcvd) (offset : ℕ) (options : List UInt8) :
      Chosen h awaitingSyn room h (.segment h.synackSegment offset options [])
  | requeued (hreq : h.requeueControl = true) :
      Chosen h awaitingSyn room { h with requeueControl := false } (.yield none)
  | nothing (hreq : h.requeueControl = false) (hp : h.scb.Pends room none) :
      Chosen h awaitingSyn room h (.yield none)
  | bare {seg : Segment} (hp : h.scb.Pends room (some seg))
      (hwhy : seg.flags = synack ∨ seg.datalen = 0) (offset : ℕ) (options : List UInt8) :
      Chosen h awaitingSyn room h (.segment { seg with wnd := h.recvWindow } offset options [])
  | noPacket {seg : Segment} {tx : RingTx} {bytes : List UInt8} {err : Err}
      (hp : h.scb.Pends room (some seg)) (hsyn : seg.flags ≠ synack) (hdata : seg.datalen ≠ 0)
      (hmake : h.bufTx.makePacket seg.datalen.toNat seg.seq = .ok (tx, bytes, some err)) :
      Chosen h awaitingSyn room { h with bufTx := tx } (.yield (some err))
  | filled {seg : Segment} {tx : RingTx} {bytes : List UInt8} (hp : h.scb.Pends room (some seg))
      (hsyn : seg.flags ≠ synack) (hdata : seg.datalen ≠ 0)
      (hmake : h.bufTx.makePacket seg.datalen.toNat seg.seq = .ok (tx, bytes, none))
      (offset : ℕ) :
      Chosen h awaitingSyn room { h with bufTx := tx }
        (.segment (h.dataSegment seg bytes) offset [] bytes)

theorem chosen_scb {mid : Handler} {awaitingSyn : Bool} {room : ℕ} {choice : Choice}
    (hch : Chosen h awaitingSyn room mid choice) : mid.scb = h.scb := by
  cases hch <;> rfl

theorem chooseSegment_outcome (h : Handler) (awaitingSyn : Bool) (len offset : ℕ) (txLimit : Size) :
    (∃ mid choice, h.chooseSegment awaitingSyn len offset txLimit = .ok (mid, choice) ∧
      Chosen h awaitingSyn (h.payloadRoom len offset txLimit) mid choice) ∨
    ∃ p, h.chooseSegment awaitingSyn len offset txLimit = .error p := by
  unfold chooseSegment
  by_cases hsyn : (awaitingSyn || (h.requeueControl && h.scb.state == .synSent))
  · rw [if_pos hsyn]
    refine .inl ⟨_, _, rfl, .syn ?_ _ _⟩
    simpa using hsyn
  rw [if_neg hsyn]
  by_cases hsynack : (h.requeueControl && h.scb.state == .synRcvd)
  · rw [if_pos hsynack]
    rw [Bool.and_eq_true, beq_iff_eq] at hsynack
    exact .inl ⟨_, _, rfl, .synackAgain hsynack.2 _ _⟩
  rw [if_neg hsynack]
  by_cases hreq : h.requeueControl
  · rw [if_pos hreq]
    exact .inl ⟨_, _, rfl, .requeued hreq⟩
  rw [if_neg hreq]
  rw [Bool.not_eq_true] at hreq
  obtain ⟨r, hr, hp⟩ := h.scb.pendingSegment_outcome (h.payloadRoom len offset txLimit)
  rw [hr]
  cases r with
  | none => exact .inl ⟨_, _, rfl, .nothing hreq hp⟩
  | some seg =>
  simp only []
  by_cases hsa : seg.flags = synack
  · rw [if_pos hsa]
    exact .inl ⟨_, _, rfl, .bare hp (.inl hsa) _ _⟩
  rw [if_neg hsa]
  by_cases hdata : seg.datalen = 0
  · rw [if_neg (by simp [hdata])]
    exact .inl ⟨_, _, rfl, .bare hp (.inr hdata) _ _⟩
  rw [if_pos (by bv_omega)]
  unfold fillSegment
  cases hmake : h.bufTx.makePacket seg.datalen.toNat seg.seq with
  | error p => exact .inr ⟨p, rfl⟩
  | ok out =>
  obtain ⟨tx, bytes, err⟩ := out
  cases err with
  | some err => exact .inl ⟨_, _, rfl, .noPacket hp hsa hdata hmake⟩
  | none => exact .inl ⟨_, _, rfl, .filled hp hsa hdata hmake _⟩

/-- What a sent segment leaves behind: the last ACK of TIME-WAIT and a RST end the
connection. -/
def afterSend (h : Handler) (scb : ControlBlock) (seg : Segment) : Handler :=
  if h.scb.state = .timeWait ∧ Flags.hasAny seg.flags flagACK then
    { h with scb := scb, requeueControl := false }.reset 0 0 0
  else if Flags.hasAny seg.flags flagRST then
    { h with scb := scb, requeueControl := false }.abort
  else { h with scb := scb, requeueControl := false }

def frameOf (h : Handler) (seg : Segment) (offset : ℕ) (options payload : List UInt8) : TxFrame :=
  { sourcePort := h.localPort, destinationPort := h.remotePort,
    seg := { seg with wnd := h.wireWnd seg }, offset := offset, options := options,
    payload := payload }

/-- The outcomes of Send once the Policy and a due close are dealt with. -/
inductive Transmits (h : Handler) (awaitingSyn : Bool) (room : ℕ) :
    Handler → SendResult → Prop where
  | yielded {mid : Handler} {err : Option Err} (hch : Chosen h awaitingSyn room mid (.yield err)) :
      Transmits h awaitingSyn room mid { err := err }
  | refused {mid : Handler} {seg : Segment} {offset : ℕ} {options payload : List UInt8} {err : Err}
      (hch : Chosen h awaitingSyn room mid (.segment seg offset options payload))
      (hsend : (mid.scb.send seg).2 = some err) :
      Transmits h awaitingSyn room mid { err := some err }
  | emitted {mid : Handler} {seg : Segment} {offset : ℕ} {options payload : List UInt8}
      (hch : Chosen h awaitingSyn room mid (.segment seg offset options payload))
      (hsend : (mid.scb.send seg).2 = none) :
      Transmits h awaitingSyn room (mid.afterSend (mid.scb.commitSend seg) seg)
        { n := offset * 4 + seg.datalen.toNat,
          frame := some (mid.frameOf seg offset options payload) }

theorem emit_refused {err : Err} (hsend : (h.scb.send seg).2 = some err) (cap offset : ℕ)
    (options payload : List UInt8) :
    h.emit cap seg offset options payload = .ok (h, { err := some err }) := by
  have hsame := ControlBlock.send_err hsend
  have heq : h.scb.send seg = (h.scb, some err) := Prod.ext hsame hsend
  simp only [emit, heq]

/-- An accepted segment leaves in a frame, if the header and the buffer hold it. -/
theorem emit_sent (hsend : (h.scb.send seg).2 = none) (cap offset : ℕ)
    (options payload : List UInt8) : h.emit cap seg offset options payload =
      if 16 ≤ offset then .error .tcpOffsetTooLarge
      else if h.policyEnabled ∧ cap < offset * 4 + seg.datalen.toNat then .error .sliceBounds
      else .ok (h.afterSend (h.scb.commitSend seg) seg,
        { n := offset * 4 + seg.datalen.toNat,
          frame := some (h.frameOf seg offset options payload) }) := by
  have hcommit := (ControlBlock.send_ok hsend).2
  have heq : h.scb.send seg = (h.scb.commitSend seg, none) := Prod.ext hcommit hsend
  have hwnd : ¬ 0xFFFF < wireWnd { h with scb := h.scb.commitSend seg, requeueControl := false }
      seg := by
    unfold wireWnd
    simp only []
    split_ifs <;> bv_omega
  simp only [emit, heq]
  rw [if_neg hwnd]
  rfl

theorem transmit_outcome {awaitingSyn : Bool} {len cap offset : ℕ} {txLimit : Size} {r : SendResult}
    (ht : h.transmit awaitingSyn len cap offset txLimit = .ok (h', r)) :
    Transmits h awaitingSyn (h.payloadRoom len offset txLimit) h' r := by
  unfold transmit at ht
  rcases chooseSegment_outcome h awaitingSyn len offset txLimit with
    ⟨mid, choice, hc, hch⟩ | ⟨p, hc⟩
  · rw [hc] at ht
    cases choice with
    | yield err =>
      cases ht
      exact .yielded hch
    | segment seg off options payload =>
    simp only [] at ht
    cases hsend : (mid.scb.send seg).2 with
    | some err =>
      rw [emit_refused hsend] at ht
      cases ht
      exact .refused hch hsend
    | none =>
    rw [emit_sent hsend] at ht
    split_ifs at ht
    cases ht
    exact .emitted hch hsend
  · rw [hc] at ht
    cases ht

/-- The Policy can move snd.NXT and clear the duplicate-ACK counts, nothing else. -/
theorem preTx_scb (h : Handler) (pol : PolicyTx) : ∃ nxt dup nrt, (h.preTx pol).scb = { h.scb with
      snd := { h.scb.snd with nxt := nxt }
      dupack := dup
      nRetransmit := nrt } := by
  unfold preTx
  split
  · unfold ControlBlock.retransmitFrom
    split_ifs <;> exact ⟨_, _, _, rfl⟩
  · exact ⟨_, _, _, rfl⟩

theorem autoClose_scb (h : Handler) : h.autoClose.scb = h.scb := by
  unfold autoClose
  split_ifs <;> rfl

inductive Starts (h : Handler) (pol : PolicyTx) : Handler → Bool → Prop where
  | going (hbusy : (h.preTx pol).autoClose.nothingToSend = false)
      (hdue : (h.preTx pol).autoClose.closeDue = false) :
      Starts h pol (h.preTx pol).autoClose (h.preTx pol).autoClose.awaitingSynSend
  | closed (hdue : (h.preTx pol).autoClose.closeDue = true)
      (hclose : (h.preTx pol).autoClose.scb.close.2 = none) :
      Starts h pol { (h.preTx pol).autoClose with
        scb := (h.preTx pol).autoClose.scb.close.1
        closing := false } (h.preTx pol).autoClose.awaitingSynSend

inductive Sends (h : Handler) (len : ℕ) (pol : PolicyTx) : Handler → SendResult → Prop where
  | idle (err : Err) (hwhy : h.isTxOver = true ∨ len < sizeHeaderTCP) :
      Sends h len pol h { err := some err }
  | quiet (hquiet : (h.preTx pol).autoClose.nothingToSend = true) :
      Sends h len pol (h.preTx pol).autoClose {}
  | ended (hdue : (h.preTx pol).autoClose.closeDue = true)
      (hclose : (h.preTx pol).autoClose.scb.close.2 ≠ none) :
      Sends h len pol { (h.preTx pol).autoClose with
        scb := (h.preTx pol).autoClose.scb.close.1
        closing := false }.abort { err := some .eof }
  | transmitted {mid h' : Handler} {awaitingSyn : Bool} {r : SendResult}
      (hlive : h.isTxOver = false) (hstart : h.Starts pol mid awaitingSyn)
      (ht : Transmits mid awaitingSyn (mid.payloadRoom len (h.txOffset len pol)
        (if h.policyEnabled then pol.limit else BitVec.allOnes 32)) h' r) : Sends h len pol h' r

theorem sends_of_send {len cap : ℕ} {pol : PolicyTx} {r : SendResult}
    (hsend : h.send len cap pol = .ok (h', r)) : Sends h len pol h' r := by
  unfold send at hsend
  cases hlive : h.isTxOver with
  | true =>
    rw [if_pos hlive] at hsend
    cases hsend
    exact .idle _ (.inl hlive)
  | false =>
  rw [if_neg (by simp [hlive])] at hsend
  by_cases hshort : len < sizeHeaderTCP
  · rw [if_pos hshort] at hsend
    cases hsend
    exact .idle _ (.inr hshort)
  rw [if_neg hshort] at hsend
  cases hbusy : (h.preTx pol).autoClose.nothingToSend with
  | true =>
    rw [if_pos hbusy] at hsend
    cases hsend
    exact .quiet hbusy
  | false =>
  rw [if_neg (by simp [hbusy])] at hsend
  cases hdue : (h.preTx pol).autoClose.closeDue with
  | false =>
    rw [if_neg (by simp [hdue])] at hsend
    exact .transmitted hlive (.going hbusy hdue) (transmit_outcome hsend)
  | true =>
  rw [if_pos hdue] at hsend
  cases hclose : (h.preTx pol).autoClose.scb.close with
  | mk scb err =>
  rw [hclose] at hsend
  have hscb : scb = (h.preTx pol).autoClose.scb.close.1 := by rw [hclose]
  cases err with
  | some err =>
    cases hsend
    exact .ended hdue (by rw [hclose]; simp)
  | none =>
  rw [hscb] at hsend
  exact .transmitted hlive (.closed hdue (by rw [hclose])) (transmit_outcome hsend)

end Handler

end Lneto.Connection
