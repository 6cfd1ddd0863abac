import Lneto.TransmitLayout

/-!
The transmit queue as a protocol sees it, and the ring buffer as its
implementation. The queue is the written stream in three parts: acknowledged,
sent in packets, and unsent. Every operation of the ring does to its buffer what
the queue operation does to the stream, and hands out the same bytes.
-/
namespace Lneto.TransmitQueue

open Segments SerialNumbers CircularBuffers TransmitRing List SentList

/-- The written stream; start is the sequence number of its first byte. -/
structure TxQueue where
  start : Value
  acked : List UInt8 := []
  sent : List (List UInt8) := []
  unsent : List UInt8 := []
deriving DecidableEq, Repr

/-- The packets with their sequence numbers, the first of which is given. -/
def tag (seq : Value) : List (List UInt8) → List (Value × List UInt8)
  | [] => []
  | bytes :: rest => (seq, bytes) :: tag (advance seq bytes.length) rest

def dropFront : ℕ → List (List UInt8) → List (List UInt8)
  | _, [] => []
  | d, bytes :: rest =>
    if bytes.length ≤ d then dropFront (d - bytes.length) rest else bytes.drop d :: rest

inductive TxOut where
  | accepted (n : ℕ)
  | emitted (bytes : List UInt8) (err : Option Err)
  | done
deriving DecidableEq, Repr

inductive TxOp where
  | write (data : List UInt8)
  | makePacket (n : ℕ) (seq : Value)
  | recvACK (ack : Value)
  | retransmitFromUNA
deriving DecidableEq, Repr

namespace TxQueue

def stream (q : TxQueue) : List UInt8 := q.acked ++ q.sent.flatten ++ q.unsent

def una (q : TxQueue) : Value := advance q.start q.acked.length

def nxt (q : TxQueue) : Value := advance q.start (q.acked.length + q.sent.flatten.length)

def packets (q : TxQueue) : List (Value × List UInt8) := tag q.una q.sent

def write (size : ℕ) (q : TxQueue) (data : List UInt8) : TxQueue × TxOut :=
  if data = [] ∨ size < q.sent.flatten.length + q.unsent.length + data.length then
    (q, .accepted 0)
  else ({ q with unsent := q.unsent ++ data }, .accepted data.length)

/-- At the next sequence number a packet is cut off the unsent bytes; at that of a
queued packet it is repeated. -/
def makePacket (cap : ℕ) (q : TxQueue) (n : ℕ) (seq : Value) : TxQueue × TxOut :=
  if cap ≤ q.sent.length then (q, .emitted [] (some .bufferFull))
  else if seq = q.nxt then
    if q.unsent = [] then (q, .emitted [] none)
    else
      ({ q with sent := q.sent ++ [q.unsent.take n], unsent := q.unsent.drop n },
        .emitted (q.unsent.take n) none)
  else
    match q.packets.find? fun pkt => pkt.1 == seq with
    | none => (q, .emitted [] (some .bug))
    | some pkt => (q, .emitted (pkt.2.take n) none)

def recvACK (q : TxQueue) (ack : Value) : TxQueue :=
  if ahead q.una ack ≤ q.sent.flatten.length then
    { q with acked := q.acked ++ q.sent.flatten.take (ahead q.una ack)
             sent := dropFront (ahead q.una ack) q.sent }
  else q

def retransmitFromUNA (q : TxQueue) : TxQueue :=
  { q with sent := [], unsent := q.sent.flatten ++ q.unsent }

def step (size cap : ℕ) (q : TxQueue) : TxOp → TxQueue × TxOut
  | .write data => q.write size data
  | .makePacket n seq => q.makePacket cap n seq
  | .recvACK ack => (q.recvACK ack, .done)
  | .retransmitFromUNA => (q.retransmitFromUNA, .done)

def run (size cap : ℕ) (q : TxQueue) : List TxOp → TxQueue × List TxOut
  | [] => (q, [])
  | op :: ops =>
    ((run size cap (q.step size cap op).1 ops).1,
      (q.step size cap op).2 :: (run size cap (q.step size cap op).1 ops).2)

/-- Packets are asked for into a nonempty buffer, at the next sequence number or at a
queued packet. -/
def Allows (q : TxQueue) : TxOp → Prop
  | .makePacket n seq => 0 < n ∧ (seq = q.nxt ∨ seq ∈ q.packets.map Prod.fst)
  | _ => True

instance (q : TxQueue) (op : TxOp) : Decidable (q.Allows op) := by
  cases op <;> unfold Allows <;> infer_instance

def AllowsAll (size cap : ℕ) (q : TxQueue) : List TxOp → Prop
  | [] => True
  | op :: ops => q.Allows op ∧ AllowsAll size cap (q.step size cap op).1 ops

instance decidableAllowsAll (size cap : ℕ) (q : TxQueue) (ops : List TxOp) :
    Decidable (q.AllowsAll size cap ops) :=
  match ops with
  | [] => isTrue trivial
  | op :: ops =>
    @instDecidableAnd _ _ _ (decidableAllowsAll size cap (q.step size cap op).1 ops)

end TxQueue

open TxQueue

def ringStep (rtx : RingTx) : TxOp → Except Panic (RingTx × TxOut)
  | .write data =>
    match rtx.write data with
    | .error p => .error p
    | .ok (rtx', n, _) => .ok (rtx', .accepted n)
  | .makePacket n seq =>
    match rtx.makePacket n seq with
    | .error p => .error p
    | .ok (rtx', bytes, err) => .ok (rtx', .emitted bytes err)
  | .recvACK ack =>
    match rtx.recvACK ack with
    | .error p => .error p
    | .ok (rtx', _) => .ok (rtx', .done)
  | .retransmitFromUNA => .ok (rtx.retransmitFromUNA, .done)

def ringRun (rtx : RingTx) : List TxOp → Except Panic (RingTx × List TxOut)
  | [] => .ok (rtx, [])
  | op :: ops =>
    match ringStep rtx op with
    | .error p => .error p
    | .ok (rtx', out) =>
      match ringRun rtx' ops with
      | .error p => .error p
      | .ok (rtx'', outs) => .ok (rtx'', out :: outs)

def ringPackets (rtx : RingTx) : List (Value × List UInt8) :=
  rtx.slist.pkts.map fun pkt => (pkt.seq, (rtx.ring pkt.off pkt.endOff).readable)

/-- The bytes that the writes of a run were reported to have taken. -/
def written : List TxOp → List TxOut → List UInt8
  | .write data :: ops, .accepted n :: outs => data.take n ++ written ops outs
  | _ :: ops, _ :: outs => written ops outs
  | _, _ => []

structure Refines (size cap : ℕ) (rtx : RingTx) (q : TxQueue) : Prop where
  size_eq : rtx.rawbuf.length = size
  cap_eq : rtx.slist.cap = cap
  laid : Laid rtx q.start q.stream q.acked.length (q.acked.length + q.sent.flatten.length)
  sizes : rtx.slist.pkts.map (fun pkt => pkt.size.toNat) = q.sent.map List.length

theorem flatten_dropFront (d : ℕ) (sent : List (List UInt8)) :
    (dropFront d sent).flatten = sent.flatten.drop d := by
  induction sent generalizing d with
  | nil => simp [dropFront]
  | cons bytes rest ih =>
  rw [dropFront, flatten_cons, drop_append]
  split_ifs with hle
  · rw [ih, drop_of_length_le hle, nil_append]
  · rw [flatten_cons, Nat.sub_eq_zero_of_le (by omega), drop_zero]

theorem map_length_dropFront (d : ℕ) (sent : List (List UInt8)) :
    (dropFront d sent).map length = cutSizes d (sent.map length) := by
  induction sent generalizing d with
  | nil => rfl
  | cons bytes rest ih =>
  rw [dropFront, map_cons, cutSizes]
  split_ifs with hle
  · exact ih _
  · rw [map_cons, length_drop]

theorem tag_eq {rtx : RingTx} {phase : ℕ} {start : Value} {stream : List UInt8} {a b o : ℕ}
    (h : Layout rtx phase start stream a b) {pkts : List RingIdx} {sent : List (List UInt8)}
    (hpkts : PacketsAt rtx.rawbuf.length phase start o pkts b) (hao : a ≤ o)
    (hsizes : pkts.map (fun pkt => pkt.size.toNat) = sent.map length)
    (hbytes : (stream.drop o).take (b - o) = sent.flatten) :
    pkts.map (fun pkt => (pkt.seq, (rtx.ring pkt.off pkt.endOff).readable)) =
      tag (advance start o) sent := by
  induction pkts generalizing o sent with
  | nil =>
    cases sent with
    | nil => rfl
    | cons bytes rest => cases hsizes
  | cons pkt rest ih =>
  cases sent with
  | nil => cases hsizes
  | cons bytes sent =>
  obtain ⟨hp, hrest⟩ := hpkts
  have hle := hrest.le
  have hlen : pkt.size.toNat = bytes.length := (cons.inj hsizes).1
  have htail := (cons.inj hsizes).2
  rw [flatten_cons] at hbytes
  have hfirst : (stream.drop o).take pkt.size.toNat = bytes := by
    have := congrArg (take pkt.size.toNat) hbytes
    rwa [take_take, min_eq_left (by omega), hlen, take_left, ← hlen] at this
  have hothers : (stream.drop (o + pkt.size.toNat)).take (b - (o + pkt.size.toNat)) =
      sent.flatten := by
    have := congrArg (drop pkt.size.toNat) hbytes
    rwa [drop_take, drop_drop, Nat.sub_sub, hlen, drop_left, ← hlen] at this
  rw [map_cons, tag, ih hrest (by omega) htail hothers, advance_advance, ← hlen,
    hp.seq_eq, h.packet_readable hp hao hle, hfirst]

/-- The next packet begins where this one ends, in sequence and in the buffer. -/
def Adjoins (L : ℕ) (pkt next : RingIdx) : Prop :=
  pkt.endSeq = next.seq ∧ (next.off = pkt.endOff ∨ next.off = 0 ∧ pkt.endOff = L)

theorem packetsAt_chain {L phase : ℕ} {start : Value} {o e : ℕ} {pkts : List RingIdx}
    (h : PacketsAt L phase start o pkts e) : pkts.IsChain (Adjoins L) := by
  induction pkts generalizing o with
  | nil => exact List.IsChain.nil
  | cons pkt rest ih =>
  cases rest with
  | nil => exact List.IsChain.singleton _
  | cons next rest =>
  obtain ⟨hp, htail⟩ := h
  have hnext := htail.1
  refine isChain_cons_cons.mpr ⟨⟨by rw [hp.endSeq_eq, hnext.seq_eq], ?_⟩, ih htail⟩
  have hmod : next.off % L = pkt.endOff % L := hnext.off_mod.trans hp.end_mod.symm
  rcases Nat.eq_zero_or_pos next.off with hz | hpos
  · right
    have hL : 0 < L := lt_of_lt_of_le hp.end_pos hp.end_le
    refine ⟨hz, eq_of_mod_eq hp.end_pos hp.end_le hL le_rfl ?_⟩
    rw [← hmod, hz, Nat.zero_mod, Nat.mod_self]
  · exact .inl (eq_of_mod_eq hpos hnext.off_le hp.end_pos hp.end_le hmod)

namespace Refines
variable {size cap : ℕ} {rtx : RingTx} {q : TxQueue}

theorem length_stream (q : TxQueue) :
    q.stream.length = q.acked.length + q.sent.flatten.length + q.unsent.length := by
  simp only [stream, length_append]

theorem drop_stream (q : TxQueue) :
    q.stream.drop (q.acked.length + q.sent.flatten.length) = q.unsent := by
  rw [stream, ← length_append, drop_left]

section
variable (h : Refines size cap rtx q)
include h

theorem ringPackets_eq : ringPackets rtx = q.packets := by
  obtain ⟨phase, hlay⟩ := h.laid
  refine tag_eq hlay hlay.packets le_rfl h.sizes ?_
  rw [Nat.add_sub_cancel_left, stream, append_assoc, drop_left, take_left]

theorem unsent_eq : rtx.unsentRing.readable = q.unsent := by
  obtain ⟨phase, hlay⟩ := h.laid
  rw [hlay.unsent_readable, drop_stream]

theorem room : q.sent.flatten.length + q.unsent.length ≤ size := by
  obtain ⟨phase, hlay⟩ := h.laid
  have hfits := hlay.fits
  rw [length_stream, h.size_eq] at hfits
  omega

theorem free_eq_zero_iff : rtx.slist.free = 0 ↔ cap ≤ q.sent.length := by
  have hlen := congrArg length h.sizes
  rw [length_map, length_map] at hlen
  rw [free, h.cap_eq, hlen]
  omega

end

theorem write (h : Refines size cap rtx q) (data : List UInt8) :
    ∃ rtx', ringStep rtx (.write data) = .ok (rtx', (q.write size data).2) ∧
      Refines size cap rtx' (q.write size data).1 := by
  obtain ⟨phase, hlay⟩ := h.laid
  have hlen := length_stream q
  have hsize := h.size_eq
  unfold TxQueue.write
  split_ifs with hbad
  · obtain ⟨err, hw⟩ := hlay.write_refused data (hbad.imp_right fun hover => by omega)
    exact ⟨rtx, by simp only [ringStep, hw], h⟩
  rw [not_or] at hbad
  obtain ⟨rtx', hw, hlay', hslist, hraw⟩ := hlay.write data hbad.1 (by omega)
  refine ⟨rtx', by simp only [ringStep, hw], hraw.trans hsize, by rw [hslist]; exact h.cap_eq,
    ⟨phase, ?_⟩, by rw [hslist]; exact h.sizes⟩
  have hstream : TxQueue.stream { q with unsent := q.unsent ++ data } = q.stream ++ data := by
    simp only [TxQueue.stream, append_assoc]
  rw [hstream]
  exact hlay'

theorem makePacket_full (h : Refines size cap rtx q) (hfull : cap ≤ q.sent.length) (n : ℕ)
    (seq : Value) :
    ∃ rtx', ringStep rtx (.makePacket n seq) = .ok (rtx', (q.makePacket cap n seq).2) ∧
      Refines size cap rtx' (q.makePacket cap n seq).1 := by
  have hfree := h.free_eq_zero_iff.mpr hfull
  simp only [ringStep, RingTx.makePacket, if_pos hfree, makePacket, if_pos hfull]
  exact ⟨rtx, rfl, h⟩

section
variable (h : Refines size cap rtx q) (hbig : size ≤ 2 ^ 31)
include h hbig

theorem makePacket_next {n : ℕ} (hn : 0 < n) : ∃ rtx', ringStep rtx (.makePacket n q.nxt) =
        .ok (rtx', (q.makePacket cap n q.nxt).2) ∧
      Refines size cap rtx' (q.makePacket cap n q.nxt).1 := by
  obtain ⟨phase, hlay⟩ := h.laid
  have hlen := length_stream q
  have hroom := h.room
  by_cases hfull : cap ≤ q.sent.length
  · exact makePacket_full h hfull n _
  have hfree : rtx.slist.free ≠ 0 := fun hz => hfull (h.free_eq_zero_iff.mp hz)
  simp only [makePacket, if_neg hfull, if_true]
  have hmake : rtx.makePacket n q.nxt = rtx.newPacket n q.nxt := hlay.makePacket_new n hfree
  by_cases hnil : q.unsent = []
  · have hnone := hlay.newPacket_none n q.nxt (by rw [hlen, hnil]; rfl)
    simp only [ringStep, hmake, hnone, if_pos hnil]
    exact ⟨rtx, rfl, h⟩
  have hpos : 0 < q.unsent.length := length_pos_of_ne_nil hnil
  obtain ⟨rtx', pkt, hnew, hlay', hslist, hps, hraw⟩ :=
    hlay.newPacket hn (by omega) (by omega) hfree
  have hcount : q.stream.length - (q.acked.length + q.sent.flatten.length) =
      q.unsent.length := by omega
  rw [hcount] at hlay' hps
  rw [drop_stream] at hnew
  have hnew' : rtx.newPacket n q.nxt = _ := hnew
  simp only [if_neg hnil]
  refine ⟨rtx', by simp only [ringStep, hmake, hnew'], by rw [hraw]; exact h.size_eq,
    by rw [hslist]; exact h.cap_eq, ⟨phase, ?_⟩, ?_⟩
  · have hstream : stream { q with
        sent := q.sent ++ [q.unsent.take n]
        unsent := q.unsent.drop n } = q.stream := by
      simp [stream]
    have hsent : (q.sent ++ [q.unsent.take n]).flatten.length =
        q.sent.flatten.length + min n q.unsent.length := by
      simp only [flatten_append, flatten_singleton, length_append, length_take]
    rw [hstream]
    simp only [hsent, ← Nat.add_assoc]
    exact hlay'
  · rw [hslist]
    simp only [map_append, h.sizes, map_cons, map_nil, hps, length_take]

theorem makePacket_again {n : ℕ}
    (hn : 0 < n) {seq : Value} (hseq : seq ∈ q.packets.map Prod.fst) (hnext : seq ≠ q.nxt) :
    ∃ rtx', ringStep rtx (.makePacket n seq) = .ok (rtx', (q.makePacket cap n seq).2) ∧
      Refines size cap rtx' (q.makePacket cap n seq).1 := by
  obtain ⟨phase, hlay⟩ := h.laid
  have hroom := h.room
  by_cases hfull : cap ≤ q.sent.length
  · exact makePacket_full h hfull n _
  have hfree : rtx.slist.free ≠ 0 := fun hz => hfull (h.free_eq_zero_iff.mp hz)
  obtain ⟨pkt, hfind⟩ : ∃ pkt, rtx.slist.pkts.find? (fun p => p.seq == seq) = some pkt := by
    rw [← h.ringPackets_eq, ringPackets, map_map] at hseq
    obtain ⟨pkt, hmem, heq⟩ := mem_map.mp hseq
    rw [← Option.isSome_iff_exists, find?_isSome]
    exact ⟨pkt, hmem, by simpa using heq⟩
  obtain ⟨hsame, front, back, hpkts, -⟩ := find?_eq_some_iff_append.mp hfind
  have hpseq : pkt.seq = seq := by simpa using hsame
  obtain ⟨k, hfront, hrest⟩ := hlay.split hpkts
  have hresend := hlay.makePacket_resend (by omega) hn hfree hpkts hfront hrest
  rw [hpseq] at hresend
  have hpacket : q.packets.find? (fun p => p.1 == seq) =
      some (pkt.seq, (rtx.ring pkt.off pkt.endOff).readable) := by
    rw [← h.ringPackets_eq, ringPackets, find?_map]
    exact congrArg (Option.map _) hfind
  rw [hlay.packet_readable hrest.1 hfront.le hrest.2.le] at hpacket
  simp only [ringStep, hresend, makePacket, if_neg hfull, if_neg hnext, hpacket]
  exact ⟨rtx, rfl, h⟩

theorem recvACK (ack : Value) : ∃ rtx', ringStep rtx (.recvACK ack) = .ok (rtx', .done) ∧
      Refines size cap rtx' (q.recvACK ack) := by
  obtain ⟨phase, hlay⟩ := h.laid
  have hroom := h.room
  have hack : ack = advance q.start (q.acked.length + ahead q.una ack) := by
    rw [← advance_advance]
    exact (advance_ahead q.una ack).symm
  unfold TxQueue.recvACK
  split_ifs with hd
  · obtain ⟨rtx', err, hrecv, hlaid, hraw, hcap, hsizes⟩ := hlay.recvACK
      (t := q.acked.length + ahead q.una ack) (by omega) (by omega) (by omega)
    rw [← hack] at hrecv
    refine ⟨rtx', by simp only [ringStep, hrecv], by rw [hraw]; exact h.size_eq,
      by rw [hcap]; exact h.cap_eq, ?_, ?_⟩
    · have hstream : TxQueue.stream { q with
          acked := q.acked ++ q.sent.flatten.take (ahead q.una ack)
          sent := dropFront (ahead q.una ack) q.sent } = q.stream := by
        simp only [TxQueue.stream, flatten_dropFront]
        rw [append_assoc q.acked, take_append_drop]
      rw [hstream]
      have hcut : (q.acked ++ q.sent.flatten.take (ahead q.una ack)).length =
          q.acked.length + ahead q.una ack := by
        rw [length_append, length_take, min_eq_left hd]
      have hend : q.acked.length + ahead q.una ack +
          (dropFront (ahead q.una ack) q.sent).flatten.length =
            q.acked.length + q.sent.flatten.length := by
        rw [flatten_dropFront, length_drop]
        omega
      simp only [hcut, hend]
      exact hlaid
    · rw [hsizes, h.sizes, Nat.add_sub_cancel_left]
      exact (map_length_dropFront _ _).symm
  have hlt := ahead_lt q.una ack
  obtain ⟨err, hrecv⟩ := hlay.recvACK_outside (t := q.acked.length + ahead q.una ack)
    (by omega) (by omega) (by omega)
  rw [← hack] at hrecv
  exact ⟨rtx, by simp only [ringStep, hrecv], h⟩

theorem retransmitFromUNA : Refines size cap rtx.retransmitFromUNA q.retransmitFromUNA := by
  obtain ⟨phase, hlay⟩ := h.laid
  have hroom := h.room
  have hstream : q.retransmitFromUNA.stream = q.stream := by
    simp [TxQueue.stream, TxQueue.retransmitFromUNA]
  cases hlist : rtx.slist.pkts with
  | nil =>
    have hsent : q.sent = [] := by
      have := h.sizes
      rw [hlist] at this
      exact map_eq_nil_iff.mp this.symm
    have hq : q.retransmitFromUNA = q := by
      simp only [TxQueue.retransmitFromUNA, hsent, flatten_nil, nil_append]
      rw [← hsent]
    rw [hq, RingTx.retransmitFromUNA, oldest, hlist]
    exact h
  | cons pkt rest =>
  have hall := hlay.packets
  rw [hlist] at hall
  have hpos := hall.1.nonempty
  have hfirst : rtx.slist.pkts = [] ++ pkt :: rest := hlist
  have hcont := packetContaining_eq (by omega) hfirst rfl hall le_rfl (by omega)
  rw [← hall.1.seq_eq] at hcont
  obtain ⟨hlay', hpkts, hcap, hraw⟩ := hlay.retransmitFrom (by omega) hfirst rfl
    hall hcont (.inl rfl)
  have hst : rtx.retransmitFromUNA = rtx.retransmitFrom pkt.seq := by
    rw [RingTx.retransmitFromUNA, oldest, hlist]
    rfl
  rw [hst]
  refine ⟨by rw [hraw]; exact h.size_eq, hcap.trans h.cap_eq, ?_, by rw [hpkts]; rfl⟩
  rw [hstream]
  exact ⟨phase, hlay'⟩

/-- Every allowed operation of the ring does what the queue does. -/
theorem step {op : TxOp} (hop : q.Allows op) :
    ∃ rtx', ringStep rtx op = .ok (rtx', (q.step size cap op).2) ∧
      Refines size cap rtx' (q.step size cap op).1 := by
  cases op with
  | write data => exact h.write data
  | makePacket n seq =>
    obtain ⟨hn, hseq⟩ := hop
    by_cases hnext : seq = q.nxt
    · rw [hnext]
      exact h.makePacket_next hbig hn
    · exact h.makePacket_again hbig hn (hseq.resolve_left hnext) hnext
  | recvACK ack => exact h.recvACK hbig ack
  | retransmitFromUNA => exact ⟨_, rfl, h.retransmitFromUNA hbig⟩

theorem run {ops : List TxOp} (hops : q.AllowsAll size cap ops) :
    ∃ rtx', ringRun rtx ops = .ok (rtx', (q.run size cap ops).2) ∧
      Refines size cap rtx' (q.run size cap ops).1 := by
  induction ops generalizing rtx q with
  | nil => exact ⟨rtx, rfl, h⟩
  | cons op ops ih =>
  obtain ⟨rtx', hstep, h'⟩ := h.step hbig hops.1
  obtain ⟨rtx'', hrun, h''⟩ := ih h' hops.2
  exact ⟨rtx'', by simp only [ringRun, hstep, hrun, run], h''⟩

end

end Refines

theorem stream_run (size cap : ℕ) (q : TxQueue) (ops : List TxOp) :
    (q.run size cap ops).1.stream = q.stream ++ written ops (q.run size cap ops).2 := by
  induction ops generalizing q with
  | nil => simp [run, written]
  | cons op ops ih =>
  rw [run, ih]
  cases op with
  | write data =>
    simp only [step, write]
    split_ifs with hbad
    · simp [written]
    · simp [written, stream]
  | makePacket n seq =>
    have hsame : (q.step size cap (.makePacket n seq)).1.stream = q.stream := by
      simp only [step, makePacket]
      split_ifs
      · rfl
      · rfl
      · simp [stream]
      · split <;> rfl
    rw [hsame]
    rfl
  | recvACK ack =>
    have hsame : (q.recvACK ack).stream = q.stream := by
      unfold recvACK
      split_ifs
      · simp only [stream, flatten_dropFront]
        rw [append_assoc q.acked, take_append_drop]
      · rfl
    rw [step, hsame]
    rfl
  | retransmitFromUNA =>
  have hsame : q.retransmitFromUNA.stream = q.stream := by
    simp [stream, retransmitFromUNA]
  rw [step, hsame]
  rfl

theorem reset_refines (rtx : RingTx) (buf : List UInt8) (maxqueuedPackets : ℤ)
    (iss start : Value) (hok : (rtx.reset buf maxqueuedPackets iss).2 = none) :
    Refines buf.length (rtx.reset buf maxqueuedPackets iss).1.slist.cap
      (rtx.reset buf maxqueuedPackets iss).1 { start := start } := by
  obtain ⟨hlaid, hraw, hpkts⟩ := reset_laid rtx buf maxqueuedPackets iss start hok
  exact ⟨by rw [hraw], rfl, hlaid, by rw [hpkts]; rfl⟩

/-- The ring buffer is the transmit queue: every run of allowed operations from a reset
returns what the queue returns, packets and unsent region hold the queue's bytes, the
packets are contiguous, and the counters count the two regions. -/
theorem ring_refines_transmit_queue (rtx₀ : RingTx) (buf : List UInt8) (maxqueuedPackets : ℤ)
    (iss start : Value) (hok : (rtx₀.reset buf maxqueuedPackets iss).2 = none)
    (hbig : buf.length ≤ 2 ^ 31) (ops : List TxOp)
    (hops : TxQueue.AllowsAll buf.length (rtx₀.reset buf maxqueuedPackets iss).1.slist.cap
      { start := start } ops) :
    ∃ rtx q outs, ringRun (rtx₀.reset buf maxqueuedPackets iss).1 ops = .ok (rtx, outs) ∧
      TxQueue.run buf.length (rtx₀.reset buf maxqueuedPackets iss).1.slist.cap
        { start := start } ops = (q, outs) ∧
      ringPackets rtx = q.packets ∧ rtx.unsentRing.readable = q.unsent ∧
      written ops outs = q.acked ++ q.sent.flatten ++ q.unsent ∧
      rtx.slist.pkts.IsChain (Adjoins buf.length) ∧
      rtx.bufferedSent = q.sent.flatten.length ∧ rtx.bufferedUnsent = q.unsent.length := by
  obtain ⟨rtx, hrun, href⟩ := (reset_refines rtx₀ buf maxqueuedPackets iss start hok).run hbig hops
  have hstream := stream_run buf.length (rtx₀.reset buf maxqueuedPackets iss).1.slist.cap
    { start := start } ops
  obtain ⟨phase, hlay⟩ := href.laid
  have hlen := Refines.length_stream
    (TxQueue.run buf.length (rtx₀.reset buf maxqueuedPackets iss).1.slist.cap
      { start := start } ops).1
  refine ⟨rtx, _, _, hrun, rfl, href.ringPackets_eq, href.unsent_eq, hstream.symm,
    href.size_eq ▸ packetsAt_chain hlay.packets, ?_, ?_⟩
  · rw [hlay.bufferedSent_eq, Nat.add_sub_cancel_left]
  · rw [hlay.bufferedUnsent_eq]
    omega

/-- Six bytes through a ring of four, with a partial acknowledgment and a rewind. -/
theorem ring_refines_transmit_queue_wrapping :
    ∃ rtx q outs, ringRun ((({} : RingTx).reset [0, 0, 0, 0] 3 7).1)
        [.write [1, 2, 3], .makePacket 2 8, .makePacket 2 10, .recvACK 9, .write [4, 5],
          .makePacket 9 9, .retransmitFromUNA, .makePacket 9 9] = .ok (rtx, outs) ∧
      TxQueue.run 4 3 { start := 8 }
        [.write [1, 2, 3], .makePacket 2 8, .makePacket 2 10, .recvACK 9, .write [4, 5],
          .makePacket 9 9, .retransmitFromUNA, .makePacket 9 9] = (q, outs) ∧
      ringPackets rtx = q.packets ∧ rtx.unsentRing.readable = q.unsent ∧
      written [.write [1, 2, 3], .makePacket 2 8, .makePacket 2 10, .recvACK 9, .write [4, 5],
          .makePacket 9 9, .retransmitFromUNA, .makePacket 9 9] outs =
        q.acked ++ q.sent.flatten ++ q.unsent ∧
      rtx.slist.pkts.IsChain (Adjoins 4) ∧
      rtx.bufferedSent = q.sent.flatten.length ∧ rtx.bufferedUnsent = q.unsent.length :=
  ring_refines_transmit_queue {} [0, 0, 0, 0] 3 7 8 (by decide) (by decide) _ (by decide)

def pastHalf (data : List UInt8) (start : Value) : List TxOp :=
  [.write data, .makePacket (2 ^ 31) start, .makePacket 1 (advance start (2 ^ 31)),
    .makePacket 1 start]

/-- With more than half the number space outstanding, the oldest packet's
sequence number no longer reads as sent. -/
theorem resend_past_half (buf front : List UInt8) (last : UInt8) (start : Value)
    (hbuf : buf.length = 2 ^ 31 + 2) (hfront : front.length = 2 ^ 31) :
    AllowsAll (2 ^ 31 + 2) 3 { start := start } (pastHalf (front ++ [last]) start) ∧
      ∃ rtx outs, ringRun (({} : RingTx).reset buf 3 start).1 (pastHalf (front ++ [last]) start) =
          .ok (rtx, outs) ∧
        outs ≠ (run (2 ^ 31 + 2) 3 { start := start } (pastHalf (front ++ [last]) start)).2 := by
  have hne : front ++ [last] ≠ [] := append_ne_nil_of_right_ne_nil _ (cons_ne_nil _ _)
  have hdata : (front ++ [last]).length = 2 ^ 31 + 1 := by rw [length_append, hfront]; rfl
  have htake : (front ++ [last]).take (2 ^ 31) = front := by rw [← hfront, take_left]
  have hdrop : (front ++ [last]).drop (2 ^ 31) = [last] := by rw [← hfront, drop_left]
  have hreset : ({} : RingTx).reset buf 3 start = ((({} : RingTx).reset buf 3 start).1, none) ∧
      (({} : RingTx).reset buf 3 start).1.slist = ⟨start, [], 3⟩ := by
    rw [RingTx.reset, if_neg (by omega), if_neg (by rw [hbuf, minBufferSize]; omega)]
    exact ⟨rfl, rfl⟩
  obtain ⟨⟨phase, hlay₀⟩, hraw₀, -⟩ := reset_laid {} buf 3 start start (by rw [hreset.1])
  obtain ⟨rtx₁, hw, hlay₁, hs₁, hl₁⟩ := hlay₀.write _ hne (by rw [hraw₀]; simp; omega)
  rw [nil_append] at hlay₁
  rw [hreset.2] at hs₁
  have hf₁ : rtx₁.slist.free ≠ 0 := by rw [hs₁]; simp [free]
  obtain ⟨rtx₂, pkt₁, hm₁, hlay₂, hs₂, -, -⟩ := hlay₁.newPacket (n := 2 ^ 31) (by omega)
    (by omega) (by omega) hf₁
  rw [hdata, show 0 + min (2 ^ 31) (2 ^ 31 + 1 - 0) = 2 ^ 31 by omega] at hlay₂
  have hf₂ : rtx₂.slist.free ≠ 0 := by rw [hs₂, hs₁]; simp [free]
  obtain ⟨rtx₃, pkt₂, hm₂, hlay₃, hs₃, -, -⟩ := hlay₂.newPacket (n := 1) (by omega)
    (by omega) (by omega) hf₂
  rw [hdata, show 2 ^ 31 + min 1 (2 ^ 31 + 1 - 2 ^ 31) = 2 ^ 31 + 1 by omega] at hlay₃
  have hf₃ : rtx₃.slist.free ≠ 0 := by rw [hs₃, hs₂, hs₁]; simp [free]
  have hold : ¬ (rtx₃.sentEndSeq.any fun endSeq => Value.lessThan start endSeq) := by
    rw [hlay₃.sentEndSeq_any, Bool.and_eq_true, lessThan_iff, ahead_advance _ _ (by omega)]
    omega
  have hm₃ : rtx₃.makePacket 1 start = .ok (rtx₃, [], none) := by
    rw [RingTx.makePacket, if_neg hf₃, if_neg hold]
    exact hlay₃.newPacket_none 1 start (by omega)
  have hmake₁ := hlay₁.makePacket_new (2 ^ 31) hf₁
  have hmake₂ := hlay₂.makePacket_new 1 hf₂
  rw [hm₁, advance_zero] at hmake₁
  rw [hm₂] at hmake₂
  -- the same run of the queue
  have hq₁ : step (2 ^ 31 + 2) 3 { start := start } (.write (front ++ [last])) =
      (⟨start, [], [], front ++ [last]⟩, .accepted (front ++ [last]).length) := by
    rw [step, write, if_neg (by simp [hfront])]
    rfl
  have hnxt₁ : start = (mk start [] [] (front ++ [last])).nxt := by simp [nxt]
  have hq₂ : step (2 ^ 31 + 2) 3 ⟨start, [], [], front ++ [last]⟩
      (.makePacket (2 ^ 31) start) = (⟨start, [], [front], [last]⟩, .emitted front none) := by
    rw [step, makePacket, if_neg (by simp), if_pos hnxt₁, if_neg hne]
    simp only [htake, hdrop, nil_append]
  have hnxt₂ : advance start (2 ^ 31) = (mk start [] [front] [last]).nxt := by
    simp only [nxt, flatten_singleton, hfront, length_nil, Nat.zero_add]
  have hq₃ : step (2 ^ 31 + 2) 3 ⟨start, [], [front], [last]⟩
      (.makePacket 1 (advance start (2 ^ 31))) =
        (⟨start, [], [front, [last]], []⟩, .emitted [last] none) := by
    rw [step, makePacket, if_neg (by simp), if_pos hnxt₂, if_neg (cons_ne_nil _ _)]
    rfl
  have hq₄ : (step (2 ^ 31 + 2) 3 ⟨start, [], [front, [last]], []⟩
      (.makePacket 1 start)).2 = .emitted (front.take 1) none := by
    have hold' : start ≠ (mk start [] [front, [last]] []).nxt := by
      simp only [nxt, flatten_cons, flatten_nil, append_nil, hdata, length_nil, Nat.zero_add]
      have := seq_ne_of_lt start (by omega : 0 < 2 ^ 31 + 1) (by omega)
      rwa [advance_zero] at this
    rw [step, makePacket, if_neg (by simp), if_neg hold']
    simp [packets, tag, una]
  unfold pastHalf
  refine ⟨⟨trivial, ?_⟩, rtx₃, _,
    by simp only [ringRun, ringStep, hw, hmake₁, hmake₂, hm₃]; rfl, ?_⟩
  · rw [hq₁]
    refine ⟨⟨by omega, .inl hnxt₁⟩, ?_⟩
    rw [hq₂]
    refine ⟨⟨by omega, .inl hnxt₂⟩, ?_⟩
    rw [hq₃]
    exact ⟨⟨by omega, .inr (by simp [packets, tag, una])⟩, trivial⟩
  simp only [run, hq₁, hq₂, hq₃, hq₄]
  intro heq
  simp only [cons.injEq, TxOut.emitted.injEq] at heq
  have hlen := congrArg length heq.2.2.2.1.1
  rw [length_take, hfront] at hlen
  simp at hlen

/-- The queue is not refined by packets into an empty buffer, nor in a buffer larger
than half the number space. -/
theorem ring_differs_from_queue : ((ringRun (({} : RingTx).reset [0, 0, 0] 2 7).1
        [.write [1, 2, 3], .makePacket 1 8, .recvACK 9, .makePacket 0 9]).map
          (fun r => r.1.bufferedSent) = .ok 3 ∧
      (TxQueue.run 3 2 { start := 8 }
        [.write [1, 2, 3], .makePacket 1 8, .recvACK 9, .makePacket 0 9]).1.sent.flatten = []) ∧
    TxQueue.AllowsAll (2 ^ 31 + 2) 3 { start := 8 }
      [.write (List.replicate (2 ^ 31 + 1) 1), .makePacket (2 ^ 31) 8,
        .makePacket 1 (advance 8 (2 ^ 31)), .makePacket 1 8] ∧
    ∃ rtx outs, ringRun (({} : RingTx).reset (List.replicate (2 ^ 31 + 2) 0) 3 8).1
        [.write (List.replicate (2 ^ 31 + 1) 1), .makePacket (2 ^ 31) 8,
          .makePacket 1 (advance 8 (2 ^ 31)), .makePacket 1 8] = .ok (rtx, outs) ∧
      outs ≠ (TxQueue.run (2 ^ 31 + 2) 3 { start := 8 }
        [.write (List.replicate (2 ^ 31 + 1) 1), .makePacket (2 ^ 31) 8,
          .makePacket 1 (advance 8 (2 ^ 31)), .makePacket 1 8]).2 := by
  refine ⟨⟨by decide, by decide⟩, ?_⟩
  have h := resend_past_half (replicate (2 ^ 31 + 2) 0) (replicate (2 ^ 31) 1) 1 8
    length_replicate length_replicate
  rw [← replicate_succ'] at h
  exact h

end Lneto.TransmitQueue
