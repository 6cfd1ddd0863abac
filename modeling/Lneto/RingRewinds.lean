import Lneto.Connection
import Lneto.GuardedRuns
import Lneto.TransmitQueue

/-!
Rewinds of the transmit ring into the middle of its packets. A rewind splits the
sent packets in two: those before the packet found stay sent, the rest is unsent again.
The ring writes the offset of that packet into its end of the sent region, where zero
stands for an empty region.
-/
namespace Lneto.RingRewinds

open Segments SerialNumbers CircularBuffers InternalRing TransmitRing TransmitQueue GuardedRuns List
  RingTx

variable {rtx : RingTx} {q : TxQueue} {size cap : ℕ} {seq : Value} {front back : List RingIdx}
  {pkt : RingIdx}

theorem length_packetsAt {L phase : ℕ} {start : Value} {o e : ℕ} {pkts : List RingIdx}
    (h : PacketsAt L phase start o pkts e) : e = o + (pkts.map fun p => p.size.toNat).sum := by
  induction pkts generalizing o with
  | nil => exact h.symm
  | cons p rest ih =>
    rw [ih h.2, map_cons, sum_cons, Nat.add_assoc]

theorem layout_free {phase : ℕ} {start : Value} {stream : List UInt8} {a b : ℕ}
    (h : Layout rtx phase start stream a b) : rtx.free = a + rtx.rawbuf.length - stream.length := by
  have ha := h.a_le
  have hb := h.b_le
  have hfits := h.fits
  have hpos := h.pos
  have hcount : rtx.sentAndUnsentBuffer.buffered = stream.length - a := by
    unfold sentAndUnsentBuffer
    split_ifs with hu hs
    · have := h.unsentend_zero.mp hu
      exact h.bufferedSent_eq.trans (by omega)
    · have := h.sentend_zero.mp hs
      exact h.bufferedUnsent_eq.trans (by omega)
    have hab : a < b := lt_of_le_of_ne ha fun heq => hs (h.sentend_zero.mpr heq)
    have hlt : b < stream.length := lt_of_le_of_ne hb fun heq => hu (h.unsentend_zero.mpr heq)
    obtain ⟨hle, hmod⟩ := h.sentoff_le hab
    refine ByteRing.buffered_of_mod _ ⟨hpos, hle, h.unsentend_le⟩ hu (by omega) ?_ ?_
    · show stream.length - a ≤ rtx.rawbuf.length
      omega
    show rtx.unsentend % rtx.rawbuf.length = (rtx.sentoff + (stream.length - a)) % rtx.rawbuf.length
    rw [add_mod_congr hmod, h.unsentend_mod hlt]
    congr 1
    omega
  have hfree : rtx.sentAndUnsentBuffer.free ≤ rtx.rawbuf.length := by
    have hsent : rtx.sentend = 0 ∨ rtx.sentoff ≤ rtx.rawbuf.length := by
      rcases Nat.eq_or_lt_of_le ha with hab | hab
      · exact .inl (h.sentend_zero.mpr hab)
      · exact .inr (h.sentoff_le hab).1
    have hoff := h.unsentoff_le
    simp only [sentAndUnsentBuffer, ByteRing.free, ring]
    split_ifs <;> simp only [] at * <;> omega
  have hsize : rtx.sentAndUnsentBuffer.size = rtx.rawbuf.length := by
    unfold sentAndUnsentBuffer
    split_ifs <;> rfl
  have hsum : rtx.sentAndUnsentBuffer.buffered =
    rtx.sentAndUnsentBuffer.size - rtx.sentAndUnsentBuffer.free := rfl
  rw [free]
  omega

def rewound (q : TxQueue) (k : ℕ) : TxQueue :=
  { q with sent := q.sent.take k, unsent := (q.sent.drop k).flatten ++ q.unsent }

theorem stream_rewound (q : TxQueue) (k : ℕ) : (rewound q k).stream = q.stream := by
  simp only [TxQueue.stream, rewound, append_assoc]
  rw [← append_assoc (q.sent.take k).flatten, ← flatten_append, take_append_drop]

theorem refines_rewind (h : Refines size cap rtx q) (hbig : size ≤ 2 ^ 31)
    (hpkts : rtx.slist.pkts = front ++ pkt :: back)
    (hseq : rtx.slist.packetContaining seq = some pkt) (hoff : front = [] ∨ pkt.off ≠ 0) :
    Refines size cap (rtx.retransmitFrom seq) (rewound q front.length) ∧
      (rtx.retransmitFrom seq).slist.pkts = front ∧
      (rtx.retransmitFrom seq).rawbuf = rtx.rawbuf := by
  obtain ⟨phase, hlay⟩ := h.laid
  have hroom := h.room
  obtain ⟨k, hfront, hrest⟩ := hlay.split hpkts
  obtain ⟨hlay', hpkts', hcap, hraw⟩ := hlay.retransmitFrom (by omega) hpkts hfront hrest hseq hoff
  have hsizes : front.map (fun p => p.size.toNat) = (q.sent.take front.length).map length := by
    have := congrArg (take front.length) h.sizes
    rwa [hpkts, map_append, take_left' (by simp), ← map_take] at this
  have hk : k = q.acked.length + (q.sent.take front.length).flatten.length := by
    rw [length_packetsAt hfront, hsizes, length_flatten]
  refine ⟨⟨by rw [hraw]; exact h.size_eq, hcap.trans h.cap_eq, ⟨phase, ?_⟩, ?_⟩, hpkts', hraw⟩
  · rw [stream_rewound]
    exact hk ▸ hlay'
  · rw [hpkts']
    exact hsizes

structure Queued where
  rtx : RingTx
  q : TxQueue

inductive RingOp where
  | queue (op : TxOp)
  | rewind (seq : Value)
deriving DecidableEq, Repr

def step (size cap : ℕ) (s : Queued) : RingOp → Except Panic Queued
  | .queue op => (ringStep s.rtx op).map fun r => ⟨r.1, (s.q.step size cap op).1⟩
  | .rewind seq =>
    .ok ⟨s.rtx.retransmitFrom seq, rewound s.q (s.rtx.retransmitFrom seq).slist.pkts.length⟩

/-- No rewind finds a packet at the start of the buffer, the oldest one apart. -/
def Clear (s : Queued) : RingOp → Prop
  | .queue op => s.q.Allows op
  | .rewind seq => ∀ pkt ∈ s.rtx.slist.packetContaining seq,
      s.rtx.slist.pkts.head? = some pkt ∨ pkt.off ≠ 0

instance (s : Queued) (op : RingOp) : Decidable (Clear s op) := by
  cases op <;> unfold Clear <;> infer_instance

theorem refines_step {s s' : Queued} {op : RingOp} (hbig : size ≤ 2 ^ 31)
    (h : Refines size cap s.rtx s.q) (hop : Clear s op) (hstep : step size cap s op = .ok s') :
    Refines size cap s'.rtx s'.q := by
  cases op with
  | queue op =>
    obtain ⟨rtx', hring, h'⟩ := h.step hbig hop
    simp only [step, hring, Except.map] at hstep
    cases hstep
    exact h'
  | rewind seq =>
  cases hstep
  cases hfound : s.rtx.slist.packetContaining seq with
  | none =>
    have hsame : s.rtx.retransmitFrom seq = s.rtx := by rw [retransmitFrom, hfound]
    have hlen := congrArg length h.sizes
    rw [length_map, length_map] at hlen
    have hq : rewound s.q s.rtx.slist.pkts.length = s.q := by
      rw [rewound, hlen, take_length, drop_length]
      rfl
    simp only [hsame, hq]
    exact h
  | some pkt =>
  obtain ⟨hself, front, back, hpkts, hbefore⟩ := find?_eq_some_iff_append.mp hfound
  have hoff : front = [] ∨ pkt.off ≠ 0 := by
    rcases hop pkt hfound with hhead | hoff
    · cases front with
      | nil => exact .inl rfl
      | cons p rest =>
      rw [hpkts] at hhead
      cases hhead
      have hnot := hbefore pkt mem_cons_self
      rw [hself] at hnot
      cases hnot
    · exact .inr hoff
  obtain ⟨h', hpkts', -⟩ := refines_rewind h hbig hpkts hfound hoff
  simp only [hpkts']
  exact h'

theorem run_writes (size cap : ℕ) (writes : List (List UInt8)) : ∀ q : TxQueue,
    q.AllowsAll size cap (writes.map .write) ∧
      ∃ more, (q.run size cap (writes.map .write)).1 = { q with unsent := q.unsent ++ more } := by
  induction writes with
  | nil => exact fun q => ⟨trivial, [], by simp [TxQueue.run]⟩
  | cons data rest ih =>
  intro q
  obtain ⟨hallow, more, hrun⟩ := ih (q.write size data).1
  refine ⟨⟨trivial, hallow⟩, ?_⟩
  simp only [map_cons, TxQueue.run, TxQueue.step, hrun]
  unfold TxQueue.write
  split_ifs
  · exact ⟨more, rfl⟩
  · exact ⟨data ++ more, by simp only [append_assoc]⟩

def bytesOf (rtx : RingTx) (pkt : RingIdx) : List UInt8 := (rtx.ring pkt.off pkt.endOff).readable

theorem tag_snd (sent : List (List UInt8)) : ∀ seq, (tag seq sent).map Prod.snd = sent := by
  induction sent with
  | nil => exact fun _ => rfl
  | cons bytes rest ih => exact fun seq => congrArg (bytes :: ·) (ih _)

theorem sent_eq (h : Refines size cap rtx q) : q.sent = rtx.slist.pkts.map (bytesOf rtx) := by
  have := congrArg (map Prod.snd) h.ringPackets_eq
  rw [TxQueue.packets, tag_snd, ringPackets, map_map] at this
  exact this.symm

theorem packets_survive (h : Refines size cap rtx q) (hbig : size ≤ 2 ^ 31)
    (hslots : rtx.slist.pkts.length < cap) (writes : List (List UInt8)) :
    ∃ r outs, ringRun rtx (writes.map .write) = .ok (r, outs) ∧ ∀ p ∈ rtx.slist.pkts, ∀ n, 0 < n →
        r.makePacket n p.seq = .ok (r, (bytesOf rtx p).take n, none) := by
  obtain ⟨hallow, more, hmore⟩ := run_writes size cap writes q
  obtain ⟨r, hrun, h'⟩ := h.run hbig hallow
  refine ⟨r, _, hrun, fun p hp n hn => ?_⟩
  rw [hmore] at h'
  obtain ⟨phase, hlay⟩ := h'.laid
  have hroom := h'.room
  have hfree : r.slist.free ≠ 0 := by
    rw [Ne, h'.free_eq_zero_iff, sent_eq h, length_map]
    omega
  -- the packet list is the same as before the writes
  have hsame : ringPackets r = ringPackets rtx := h'.ringPackets_eq.trans h.ringPackets_eq.symm
  have hmem : (p.seq, bytesOf rtx p) ∈ ringPackets r := by
    rw [hsame]
    exact mem_map.mpr ⟨p, hp, rfl⟩
  obtain ⟨p', hp', heq⟩ := mem_map.mp hmem
  obtain ⟨hseq, hbytes⟩ := Prod.mk.inj heq
  obtain ⟨front, back, hpkts⟩ := append_of_mem hp'
  obtain ⟨k, hfront, hrest⟩ := hlay.split hpkts
  rw [← hseq, ← hbytes, hlay.packet_readable hrest.1 hfront.le hrest.2.le]
  exact hlay.makePacket_resend (by omega) hn hfree hpkts hfront hrest

theorem length_dropFront_le (sent : List (List UInt8)) :
    ∀ d, (dropFront d sent).length ≤ sent.length := by
  induction sent with
  | nil => exact fun _ => le_rfl
  | cons bytes rest ih =>
  intro d
  unfold dropFront
  split_ifs
  · exact (ih _).trans (Nat.le_succ _)
  · exact le_rfl

theorem length_sent_step (op : TxOp) (h : q.sent.length ≤ cap) :
    (q.step size cap op).1.sent.length ≤ cap := by
  cases op with
  | write data =>
    simp only [TxQueue.step, TxQueue.write]
    split_ifs <;> exact h
  | makePacket n seq =>
    simp only [TxQueue.step, TxQueue.makePacket]
    split_ifs with hfull
    · exact h
    · exact h
    · simp only [length_append, length_singleton]
      omega
    · split <;> exact h
  | recvACK ack =>
    simp only [TxQueue.step, TxQueue.recvACK]
    split_ifs
    · exact (length_dropFront_le _ _).trans h
    · exact h
  | retransmitFromUNA => exact Nat.zero_le _

theorem length_step {s s' : Queued} {op : RingOp} (h : s.q.sent.length ≤ cap)
    (hstep : step size cap s op = .ok s') : s'.q.sent.length ≤ cap := by
  cases op with
  | queue op =>
    obtain ⟨r, -, rfl⟩ := map_ok hstep
    exact length_sent_step op h
  | rewind seq =>
    cases hstep
    exact (length_take_le' _ _).trans h

/-- A rewind to the packet that covers a sequence number leaves the packets before it
sent, whatever is written later, and makes the rest unsent in order. -/
theorem rewind_splits_sent (rtx₀ : RingTx) (buf : List UInt8) (maxqueuedPackets : ℤ)
    (iss start : Value) (hok : (rtx₀.reset buf maxqueuedPackets iss).2 = none)
    (hbig : buf.length ≤ 2 ^ 31) {ops : List RingOp} {s : Queued}
    (hops : Guarded (step buf.length (rtx₀.reset buf maxqueuedPackets iss).1.slist.cap) Clear
      ⟨(rtx₀.reset buf maxqueuedPackets iss).1, { start := start }⟩ ops)
    (hrun : exec (step buf.length (rtx₀.reset buf maxqueuedPackets iss).1.slist.cap)
      ⟨(rtx₀.reset buf maxqueuedPackets iss).1, { start := start }⟩ ops = .ok s)
    (hpkts : s.rtx.slist.pkts = front ++ pkt :: back) (hseq : ahead pkt.seq seq < pkt.size.toNat)
    (hoff : front = [] ∨ pkt.off ≠ 0) :
    let r := s.rtx.retransmitFrom seq
    r.slist.pkts = front ∧ r.bufferedSent = (front.map fun p => p.size.toNat).sum ∧
      r.unsentRing.readable = (pkt :: back).flatMap (bytesOf s.rtx) ++ s.rtx.unsentRing.readable ∧
      r.free = s.rtx.free ∧
      ∀ writes : List (List UInt8), ∃ r' outs, ringRun r (writes.map .write) = .ok (r', outs) ∧
        ∀ p ∈ front, ∀ n, 0 < n →
          r'.makePacket n p.seq = .ok (r', (bytesOf s.rtx p).take n, none) := by
  obtain ⟨h, hcap⟩ := exec_invariant (I := fun s : Queued =>
      Refines buf.length (rtx₀.reset buf maxqueuedPackets iss).1.slist.cap s.rtx s.q ∧
        s.q.sent.length ≤ (rtx₀.reset buf maxqueuedPackets iss).1.slist.cap)
    (fun s op s' hs hop hstep => ⟨refines_step hbig hs.1 hop hstep, length_step hs.2 hstep⟩) ops _ s
    ⟨reset_refines rtx₀ buf maxqueuedPackets iss start hok, Nat.zero_le _⟩ hops hrun
  have hsent := sent_eq h
  rw [hsent, length_map, hpkts, length_append, length_cons] at hcap
  obtain ⟨phase, hlay⟩ := h.laid
  have hroom := h.room
  obtain ⟨k, hfront, hrest⟩ := hlay.split hpkts
  have hfound : s.rtx.slist.packetContaining seq = some pkt := by
    have hat : seq = advance s.q.start (k + ahead pkt.seq seq) := by
      rw [← advance_advance, ← hrest.1.seq_eq, advance_ahead]
    rw [hat]
    exact packetContaining_eq (by omega) hpkts hfront hrest (by omega) (by omega)
  obtain ⟨h', hpkts', hraw⟩ := refines_rewind h hbig hpkts hfound hoff
  obtain ⟨phase', hlay'⟩ := h'.laid
  have hbytes : bytesOf (s.rtx.retransmitFrom seq) = bytesOf s.rtx := by
    funext p
    simp only [bytesOf, RingTx.ring, hraw]
  refine ⟨hpkts', ?_, ?_, ?_, fun writes => ?_⟩
  · rw [hlay'.bufferedSent_eq, Nat.add_sub_cancel_left, length_flatten, ← h'.sizes, hpkts']
  · rw [h'.unsent_eq, rewound, hsent, hpkts, map_append, drop_left' (by simp),
      ← flatMap_def, h.unsent_eq]
  · rw [layout_free hlay', layout_free hlay, hraw, stream_rewound]
    rfl
  obtain ⟨r', outs, hwrites, hresend⟩ := packets_survive h' hbig (by rw [hpkts']; omega) writes
  rw [hpkts', hbytes] at hresend
  exact ⟨r', outs, hwrites, hresend⟩

def wrapped : List RingOp :=
  [.queue (.write [1, 2, 3, 4]), .queue (.makePacket 1 8), .queue (.makePacket 1 9),
    .queue (.recvACK 9), .queue (.write [5]), .queue (.makePacket 2 10), .queue (.makePacket 1 12)]

def emptyRing : Queued := ⟨(({} : RingTx).reset [0, 0, 0, 0] 4 7).1, { start := 8 }⟩

theorem rewind_splits_sent_wrapped : ∃ s, exec (step 4 4) emptyRing wrapped = .ok s ∧
    (s.rtx.retransmitFrom 11).bufferedSent = 1 ∧ (s.rtx.retransmitFrom 11).free = s.rtx.free := by
  obtain ⟨s, hrun, hpkts⟩ : ∃ s : Queued, exec (step 4 4) emptyRing wrapped = .ok s ∧
      s.rtx.slist.pkts = [⟨1, 2, 9, 1⟩] ++ ⟨2, 4, 10, 2⟩ :: [⟨0, 1, 12, 1⟩] :=
    exists_exec (by decide +kernel)
  obtain ⟨-, hsent, -, hfree, -⟩ := @rewind_splits_sent 11 _ _ _ {} [0, 0, 0, 0] 4 7 8 rfl
    (by decide) wrapped s (by decide +kernel) hrun hpkts (by decide) (.inr (by decide))
  exact ⟨s, hrun, hsent, hfree⟩

/-- Rewound to that packet, the ring still queues the packets before it and counts none of
their bytes. -/
theorem rewind_to_front_loses_sent : ∃ s : Queued, exec (step 4 4) emptyRing wrapped = .ok s ∧
    s.rtx.slist.pkts = [⟨1, 2, 9, 1⟩, ⟨2, 4, 10, 2⟩, ⟨0, 1, 12, 1⟩] ∧
    (s.rtx.retransmitFrom 12).slist.pkts = [⟨1, 2, 9, 1⟩, ⟨2, 4, 10, 2⟩] ∧
    (s.rtx.retransmitFrom 12).bufferedSent = 0 ∧
    s.rtx.free = 0 ∧ (s.rtx.retransmitFrom 12).free = 3 :=
  exists_exec (by decide +kernel)

theorem write_of_free (h : Refines size cap rtx q) {data : List UInt8} (hne : data ≠ []) :
    (data.length ≤ rtx.free → ∃ r, rtx.write data = .ok (r, data.length, none)) ∧
      (rtx.free < data.length → ∃ err, rtx.write data = .ok (rtx, 0, some err)) := by
  obtain ⟨phase, hlay⟩ := h.laid
  have hfree := layout_free hlay
  have hfits := hlay.fits
  constructor
  · intro hle
    obtain ⟨r, hr, -⟩ := hlay.write data hne (by omega)
    exact ⟨r, hr⟩
  · intro hlt
    exact hlay.write_refused data (.inr (by omega))

/-- One round of the loop of Conn.Write: the bytes it counts, the error it leaves with;
none stands for its panic. -/
def writeRound (h : Connection.Handler) (b : List UInt8) :
    Except Panic (Option (Connection.Handler × ℕ × Option Err)) :=
  let towrite := min h.bufTx.free b.length
  if towrite = 0 then .ok (some (h, 0, none))
  else (h.write (b.take towrite)).map fun (h', ngot, err) =>
    if err ≠ none ∧ err ≠ some .bufferFull then some (h', 0, err)
    else if ngot ≠ towrite then none
    else some (h', ngot, err)

theorem writeRound_spec (h : Refines size cap rtx q) (c : Connection.Handler) (hc : c.bufTx = rtx)
    (b : List UInt8) : ∃ c' n err, writeRound c b = .ok (some (c', n, err)) ∧
      (err = none → n = min rtx.free b.length) := by
  unfold writeRound
  rw [hc]
  simp only []
  split_ifs with hz
  · exact ⟨c, 0, none, rfl, fun _ => hz.symm⟩
  have hlen : (b.take (min rtx.free b.length)).length = min rtx.free b.length := by
    rw [length_take]
    omega
  have hne : b.take (min rtx.free b.length) ≠ [] := fun hnil => hz (by rw [← hlen, hnil]; rfl)
  obtain ⟨r, hr⟩ := (write_of_free h hne).1 (by omega)
  unfold Connection.Handler.write
  split_ifs
  · exact ⟨c, 0, _, rfl, nofun⟩
  · exact ⟨c, 0, _, rfl, nofun⟩
  · rw [hc, hr, hlen]
    exact ⟨{ c with bufTx := r }, _, none, by simp [Except.map], fun _ => rfl⟩

/-- The ring takes a write exactly when it fits into Free and is left alone by one that
does not; Conn.Write, which asks for no more than that, never panics. -/
theorem write_fits_iff_free (rtx₀ : RingTx) (buf : List UInt8) (maxqueuedPackets : ℤ)
    (iss start : Value) (hok : (rtx₀.reset buf maxqueuedPackets iss).2 = none)
    (hbig : buf.length ≤ 2 ^ 31) {ops : List RingOp} {s : Queued}
    (hops : Guarded (step buf.length (rtx₀.reset buf maxqueuedPackets iss).1.slist.cap) Clear
      ⟨(rtx₀.reset buf maxqueuedPackets iss).1, { start := start }⟩ ops)
    (hrun : exec (step buf.length (rtx₀.reset buf maxqueuedPackets iss).1.slist.cap)
      ⟨(rtx₀.reset buf maxqueuedPackets iss).1, { start := start }⟩ ops = .ok s) :
    (∀ data ≠ [], ((∃ r, s.rtx.write data = .ok (r, data.length, none)) ↔
      data.length ≤ s.rtx.free) ∧
      (s.rtx.free < data.length → ∃ err, s.rtx.write data = .ok (s.rtx, 0, some err))) ∧
    ∀ c : Connection.Handler, c.bufTx = s.rtx → ∀ b, ∃ c' n err,
      writeRound c b = .ok (some (c', n, err)) ∧ (err = none → n = min s.rtx.free b.length) := by
  have h := exec_invariant (I := fun s : Queued =>
      Refines buf.length (rtx₀.reset buf maxqueuedPackets iss).1.slist.cap s.rtx s.q)
    (fun s op s' hs hop hstep => refines_step hbig hs hop hstep) ops _ s
    (reset_refines rtx₀ buf maxqueuedPackets iss start hok) hops hrun
  refine ⟨fun data hne => ⟨⟨fun ⟨r, hr⟩ => ?_, (write_of_free h hne).1⟩, (write_of_free h hne).2⟩,
    writeRound_spec h⟩
  by_contra hlt
  obtain ⟨err, herr⟩ := (write_of_free h hne).2 (by omega)
  simp [herr] at hr

theorem write_fits_iff_free_wrapped : ∃ s, exec (step 4 4) emptyRing (wrapped.take 4) = .ok s ∧
    s.rtx.free = 1 ∧ ∃ r, s.rtx.write [5] = .ok (r, 1, none) := by
  obtain ⟨s, hrun, hfree⟩ : ∃ s : Queued, exec (step 4 4) emptyRing (wrapped.take 4) = .ok s ∧
      s.rtx.free = 1 := exists_exec (by decide +kernel)
  have h := (write_fits_iff_free {} [0, 0, 0, 0] 4 7 8 rfl (by decide) (by decide +kernel) hrun).1
    [5] (by decide)
  exact ⟨s, hrun, hfree, h.1.mpr hfree.ge⟩

/-- After a rewind to the packet at the front of the buffer, writes and an ACK, Free
promises two bytes, the ring takes none, and Conn.Write panics. -/
theorem write_below_free_refused : ∃ s : Queued, exec (step 4 4) emptyRing
      (wrapped ++ [.rewind 12, .queue (.write [6, 7, 8]), .queue (.recvACK 10)]) = .ok s ∧
    s.rtx.free = 2 ∧ s.rtx.write [9] = .ok (s.rtx, 0, some .bufferFull) ∧
    writeRound { scb := { state := .established }, bufTx := s.rtx } [9] = .ok none :=
  exists_exec (by decide +kernel)

end Lneto.RingRewinds
