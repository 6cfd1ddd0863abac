import Lneto.TransmitRing

/-!
Where the written stream lies in the transmit ring. The stream is cut at two
offsets: what lies before the first is acknowledged, what lies between them is
sent and covered by the packet list, the rest is unsent. Each operation moves
one of the cuts or appends to the stream.
-/
namespace Lneto.TransmitRing

open Segments SerialNumbers CircularBuffers InternalRing List Value RingTx
open SentList (markRcvd removeRecvd trimOldest oldest recvAck)
open ByteRing (buffered_of_mod readable writeLimited writePos_le write_nil read_ok)

variable {e k o t : ℕ} {back front pkts : List RingIdx} {pkt : RingIdx}

structure RingIdx.PlacedAt (L phase : ℕ) (start : Value) (o : ℕ) (pkt : RingIdx) : Prop where
  nonempty : 0 < pkt.size.toNat
  seq_eq : pkt.seq = advance start o
  off_le : pkt.off ≤ L
  off_mod : pkt.off % L = (phase + o) % L
  end_pos : 0 < pkt.endOff
  end_le : pkt.endOff ≤ L
  end_mod : pkt.endOff % L = (phase + (o + pkt.size.toNat)) % L

/-- The packets cover the stream from one offset to another without gaps. -/
def PacketsAt (L phase : ℕ) (start : Value) : ℕ → List RingIdx → ℕ → Prop
  | o, [], e => o = e
  | o, pkt :: rest, e =>
    pkt.PlacedAt L phase start o ∧ PacketsAt L phase start (o + pkt.size.toNat) rest e

section Packets
variable {L phase : ℕ} {start : Value}

theorem RingIdx.PlacedAt.endSeq_eq (h : pkt.PlacedAt L phase start o) :
    pkt.endSeq = advance start (o + pkt.size.toNat) := by
  rw [RingIdx.endSeq, h.seq_eq, ← advance_advance]
  simp [add, advance]

theorem PacketsAt.le (h : PacketsAt L phase start o pkts e) : o ≤ e := by
  induction pkts generalizing o with
  | nil => exact le_of_eq h
  | cons pkt rest ih =>
    have := ih h.2
    omega

theorem packetsAt_append : PacketsAt L phase start o (front ++ back) e ↔
      ∃ m, PacketsAt L phase start o front m ∧ PacketsAt L phase start m back e := by
  induction front generalizing o with
  | nil => simp [PacketsAt]
  | cons pkt rest ih =>
  simp only [cons_append, PacketsAt, ih]
  constructor
  · rintro ⟨hp, m, hr, hb⟩
    exact ⟨m, ⟨hp, hr⟩, hb⟩
  · rintro ⟨m, ⟨hp, hr⟩, hb⟩
    exact ⟨hp, m, hr, hb⟩

section
variable (h : PacketsAt L phase start o pkts e)
include h

theorem PacketsAt.mem (hp : pkt ∈ pkts) :
    ∃ k, o ≤ k ∧ k + pkt.size.toNat ≤ e ∧ pkt.PlacedAt L phase start k := by
  obtain ⟨front, back, rfl⟩ := append_of_mem hp
  obtain ⟨k, hf, hk, hb⟩ := packetsAt_append.mp h
  exact ⟨k, hf.le, hb.le, hk⟩

theorem PacketsAt.eq_nil_iff : pkts = [] ↔ o = e := by
  cases pkts with
  | nil => simpa [PacketsAt] using h
  | cons pkt rest =>
  have := h.2.le
  have := h.1.nonempty
  simp only [reduceCtorEq, false_iff]
  omega

theorem PacketsAt.cover (hot : o ≤ t) (hte : t < e) :
    ∃ front pkt back k, pkts = front ++ pkt :: back ∧
      PacketsAt L phase start o front k ∧ PacketsAt L phase start k (pkt :: back) e ∧
      k ≤ t ∧ t < k + pkt.size.toNat := by
  induction pkts generalizing o with
  | nil =>
    have : o = e := h
    omega
  | cons pkt rest ih =>
  by_cases hin : t < o + pkt.size.toNat
  · exact ⟨[], pkt, rest, o, rfl, rfl, h, hot, hin⟩
  · obtain ⟨front, p, back, k, rfl, hf, hb, hk, ht⟩ := ih h.2 (by omega)
    exact ⟨pkt :: front, p, back, k, rfl, ⟨h.1, hf⟩, hb, hk, ht⟩

theorem PacketsAt.newest (hp : pkts.getLast? = some pkt) :
    pkt.endSeq = advance start e ∧ 0 < pkt.endOff ∧ pkt.endOff ≤ L ∧
      pkt.endOff % L = (phase + e) % L := by
  obtain ⟨front, rfl⟩ := getLast?_eq_some_iff.mp hp
  obtain ⟨k, -, hk, rfl⟩ := packetsAt_append.mp h
  exact ⟨hk.endSeq_eq, hk.end_pos, hk.end_le, hk.end_mod⟩

end

end Packets

/-- The stream in the ring: acknowledged before a, sent from a to b, unsent from b on. -/
structure Layout (rtx : RingTx) (phase : ℕ) (start : Value) (stream : List UInt8)
    (a b : ℕ) : Prop where
  two_le : minBufferSize ≤ rtx.rawbuf.length
  a_le : a ≤ b
  b_le : b ≤ stream.length
  fits : stream.length ≤ a + rtx.rawbuf.length
  holds : Holds rtx.rawbuf phase stream a stream.length
  packets : PacketsAt rtx.rawbuf.length phase start a rtx.slist.pkts b
  sentoff_eq : ∀ pkt ∈ rtx.slist.pkts.head?, rtx.sentoff = pkt.off
  sentend_le : rtx.sentend ≤ rtx.rawbuf.length
  sentend_zero : rtx.sentend = 0 ↔ a = b
  sentend_mod : a < b → rtx.sentend % rtx.rawbuf.length = (phase + b) % rtx.rawbuf.length
  unsentoff_le : rtx.unsentoff ≤ rtx.rawbuf.length
  unsentoff_mod : rtx.unsentoff % rtx.rawbuf.length = (phase + b) % rtx.rawbuf.length
  unsentoff_pos : a < b → b = stream.length → 0 < rtx.unsentoff
  unsentend_le : rtx.unsentend ≤ rtx.rawbuf.length
  unsentend_zero : rtx.unsentend = 0 ↔ b = stream.length
  unsentend_mod : b < stream.length →
    rtx.unsentend % rtx.rawbuf.length = (phase + stream.length) % rtx.rawbuf.length

/-- The stream is laid out in the ring at some phase. -/
def Laid (rtx : RingTx) (start : Value) (stream : List UInt8) (a b : ℕ) : Prop :=
  ∃ phase, Layout rtx phase start stream a b

section Facts
variable {rtx : RingTx} {phase : ℕ} {start : Value} {stream : List UInt8} {a b : ℕ}

section
variable (h : Layout rtx phase start stream a b)
include h

theorem Layout.pos : 0 < rtx.rawbuf.length := by
  have := h.two_le
  unfold minBufferSize at this
  omega

theorem Layout.split (hpkts : rtx.slist.pkts = front ++ back) :
    ∃ k, PacketsAt rtx.rawbuf.length phase start a front k ∧
      PacketsAt rtx.rawbuf.length phase start k back b :=
  packetsAt_append.mp (hpkts ▸ h.packets)

theorem Layout.unsent_wf : rtx.unsentRing.WF :=
  ⟨h.pos, h.unsentoff_le, h.unsentend_le⟩

theorem Layout.bufferedUnsent_eq : rtx.bufferedUnsent = stream.length - b := by
  have hb := h.b_le
  have ha := h.a_le
  have hfits := h.fits
  by_cases hz : rtx.unsentend = 0
  · have := h.unsentend_zero.mp hz
    rw [bufferedUnsent, (ByteRing.buffered_eq_zero_iff _ h.unsent_wf).mpr hz]
    omega
  have hlt : b < stream.length := by
    have := h.unsentend_zero
    omega
  have hend : rtx.unsentend % rtx.rawbuf.length =
      (rtx.unsentoff + (stream.length - b)) % rtx.rawbuf.length := by
    rw [add_mod_congr h.unsentoff_mod, h.unsentend_mod hlt]
    congr 1
    omega
  have hle : stream.length - b ≤ rtx.unsentRing.buf.length := by
    show stream.length - b ≤ rtx.rawbuf.length
    omega
  exact buffered_of_mod _ h.unsent_wf hz (by omega) hle hend

theorem Layout.unsent_readable : rtx.unsentRing.readable = stream.drop b := by
  have hcount : rtx.unsentRing.buffered = stream.length - b := h.bufferedUnsent_eq
  have hholds := (h.holds.mono h.a_le le_rfl).span_eq le_rfl
  rw [readable, hcount]
  show span rtx.rawbuf rtx.unsentoff (stream.length - b) = _
  rw [span_congr_mod _ _ h.unsentoff_mod, hholds, take_of_length_le (by simp)]

theorem Layout.packet_wf
    (hk : pkt.PlacedAt rtx.rawbuf.length phase start k) : (rtx.ring pkt.off pkt.endOff).WF :=
  ⟨h.pos, hk.off_le, hk.end_le⟩

theorem Layout.packet_readable
    (hk : pkt.PlacedAt rtx.rawbuf.length phase start k) (hak : a ≤ k) (hkb : k + pkt.size.toNat ≤ b)
    : (rtx.ring pkt.off pkt.endOff).readable = (stream.drop k).take pkt.size.toNat := by
  have hpos := hk.nonempty
  have hend := hk.end_pos
  have hfits := h.fits
  have hb := h.b_le
  have hmod : pkt.endOff % rtx.rawbuf.length =
      (pkt.off + pkt.size.toNat) % rtx.rawbuf.length := by
    rw [add_mod_congr hk.off_mod, hk.end_mod, Nat.add_assoc]
  have hcount : (rtx.ring pkt.off pkt.endOff).buffered = pkt.size.toNat :=
    buffered_of_mod _ (h.packet_wf hk) (by simp only [ring]; omega) hpos
      (by simp only [ring]; omega) hmod
  have hholds := (h.holds.mono hak (by omega : k + pkt.size.toNat ≤ stream.length)).span_eq
    (by omega)
  rw [Nat.add_sub_cancel_left] at hholds
  rw [readable, hcount]
  show span rtx.rawbuf pkt.off _ = _
  rw [span_congr_mod _ _ hk.off_mod, hholds]

theorem Layout.sentoff_le (hab : a < b) : rtx.sentoff ≤ rtx.rawbuf.length ∧
      rtx.sentoff % rtx.rawbuf.length = (phase + a) % rtx.rawbuf.length := by
  have hpkts := h.packets
  have hhead := h.sentoff_eq
  revert hpkts hhead
  cases rtx.slist.pkts with
  | nil =>
    intro hpkts _
    have : a = b := hpkts
    omega
  | cons pkt rest =>
  intro hpkts hhead
  rw [hhead pkt rfl]
  exact ⟨hpkts.1.off_le, hpkts.1.off_mod⟩

theorem Layout.bufferedSent_eq : rtx.bufferedSent = b - a := by
  have hb := h.b_le
  have hfits := h.fits
  by_cases hz : rtx.sentend = 0
  · have hab := h.sentend_zero.mp hz
    have hzero : rtx.sentRing.buffered = 0 := by
      simp only [ByteRing.buffered, ByteRing.free, ByteRing.size, sentRing, ring, hz, true_or,
        if_true]
      omega
    rw [bufferedSent, hzero]
    omega
  have hab : a < b := by
    have := h.sentend_zero
    have := h.a_le
    omega
  obtain ⟨hle, hmod⟩ := h.sentoff_le hab
  have hend : rtx.sentend % rtx.rawbuf.length =
      (rtx.sentoff + (b - a)) % rtx.rawbuf.length := by
    rw [add_mod_congr hmod, h.sentend_mod hab]
    congr 1
    omega
  have hlen : b - a ≤ rtx.sentRing.buf.length := by
    show b - a ≤ rtx.rawbuf.length
    omega
  exact buffered_of_mod rtx.sentRing ⟨h.pos, hle, h.sentend_le⟩ hz (by omega) hlen hend

theorem Layout.freeLimited_eq (hab : a < b) :
    rtx.unsentRing.freeLimited rtx.sentoff = a + rtx.rawbuf.length - stream.length := by
  have hb := h.b_le
  have hfits := h.fits
  have hcount : rtx.unsentRing.buffered = stream.length - b := h.bufferedUnsent_eq
  obtain ⟨hle, hmod⟩ := h.sentoff_le hab
  have hlim := ByteRing.freeLimited_of_mod rtx.unsentRing h.unsent_wf hle
    (m := b - a) (by omega) ?_ ?_ ?_
  · rw [hlim, hcount]
    show rtx.rawbuf.length - _ = _
    omega
  · show b - a + rtx.unsentRing.buffered ≤ rtx.rawbuf.length
    omega
  · show rtx.unsentoff % rtx.rawbuf.length = (rtx.sentoff + (b - a)) % rtx.rawbuf.length
    rw [add_mod_congr hmod, h.unsentoff_mod]
    congr 1
    omega
  intro hend
  have := h.unsentoff_pos hab (h.unsentend_zero.mp hend)
  show rtx.unsentoff ≠ 0
  omega

end

section
variable (h : Layout rtx phase start stream a b) (data : List UInt8) (hne : data ≠ [])
  (hfits : stream.length + data.length ≤ a + rtx.rawbuf.length)
include h data hne hfits

theorem Layout.write_eq : rtx.write data = .ok ({ rtx with
      rawbuf := wrapBlit rtx.rawbuf rtx.unsentRing.writePos data,
      unsentend := rtx.unsentRing.addOff rtx.unsentRing.writePos data.length },
        data.length, none) := by
  have ha := h.a_le
  have hb := h.b_le
  have hcount : rtx.unsentRing.buffered = stream.length - b := h.bufferedUnsent_eq
  have hsum := ByteRing.free_add_buffered _ h.unsent_wf
  have hsize : rtx.unsentRing.size = rtx.rawbuf.length := rfl
  have hok := ByteRing.write_ok rtx.unsentRing data h.unsent_wf hne (by omega)
  simp only [write]
  by_cases hz : rtx.sentend = 0
  · rw [if_pos hz, hok]
    rfl
  have hab : a < b := by
    have := h.sentend_zero
    omega
  have hle := (h.sentoff_le hab).1
  have hlim := h.freeLimited_eq hab
  have hbuf : rtx.unsentRing.buf.length = rtx.rawbuf.length := rfl
  rw [if_neg hz, writeLimited, if_neg (by omega), if_neg (by omega), if_neg (by omega), hok]
  rfl

theorem Layout.write : ∃ rtx', rtx.write data = .ok (rtx', data.length, none) ∧
      Layout rtx' phase start (stream ++ data) a b ∧ rtx'.slist = rtx.slist ∧
      rtx'.rawbuf.length = rtx.rawbuf.length := by
  refine ⟨_, h.write_eq data hne hfits, ?_, rfl, ?_⟩
  · have hlen : 0 < data.length := length_pos_of_ne_nil hne
    have ha := h.a_le
    have hb := h.b_le
    have hcount : rtx.unsentRing.buffered = stream.length - b := h.bufferedUnsent_eq
    have hbuf : rtx.unsentRing.buf.length = rtx.rawbuf.length := rfl
    have hwl : rtx.unsentRing.writePos ≤ rtx.rawbuf.length := writePos_le _ h.unsent_wf
    have hwm : rtx.unsentRing.writePos % rtx.rawbuf.length =
        (phase + stream.length) % rtx.rawbuf.length := by
      have hmod := ByteRing.writePos_mod _ h.unsent_wf
      rw [hbuf, hcount] at hmod
      rw [hmod]
      show (rtx.unsentoff + _) % _ = _
      rw [add_mod_congr h.unsentoff_mod]
      congr 1
      omega
    have hkeep := length_wrapBlit rtx.rawbuf _ data hwl
    have hend : 0 < rtx.unsentRing.addOff rtx.unsentRing.writePos data.length ∧
        rtx.unsentRing.addOff rtx.unsentRing.writePos data.length ≤ rtx.rawbuf.length := by
      unfold ByteRing.addOff
      split_ifs <;> omega
    have hendm : rtx.unsentRing.addOff rtx.unsentRing.writePos data.length % rtx.rawbuf.length =
        (phase + (stream.length + data.length)) % rtx.rawbuf.length := by
      rw [← Nat.add_assoc, ← add_mod_congr hwm]
      unfold ByteRing.addOff
      rw [hbuf]
      split_ifs with hgt
      · rw [← Nat.mod_eq_sub_mod (by omega)]
      · rfl
    refine
      { two_le := by rw [hkeep]; exact h.two_le
        a_le := h.a_le
        b_le := by rw [length_append]; omega
        fits := by rw [length_append, hkeep]; omega
        holds := ?_
        packets := by rw [hkeep]; exact h.packets
        sentoff_eq := h.sentoff_eq
        sentend_le := by rw [hkeep]; exact h.sentend_le
        sentend_zero := h.sentend_zero
        sentend_mod := by rw [hkeep]; exact h.sentend_mod
        unsentoff_le := by rw [hkeep]; exact h.unsentoff_le
        unsentoff_mod := by rw [hkeep]; exact h.unsentoff_mod
        unsentoff_pos := fun _ hall => by rw [length_append] at hall; omega
        unsentend_le := by rw [hkeep]; exact hend.2
        unsentend_zero := by rw [length_append]; simp only []; omega
        unsentend_mod := fun _ => by rw [hkeep, length_append]; exact hendm }
    refine Holds.wrapBlit hwl (by omega) hwm ?_ ?_ (by omega) (by rw [length_append]; omega)
    · intro k hk
      rw [getElem?_append_right (by omega), Nat.add_sub_cancel_left]
    intro k hak hk hout
    rw [length_append] at hk
    have hlt : k < stream.length := by omega
    rw [getElem?_append_left hlt]
    exact h.holds k hak hlt
  · exact length_wrapBlit _ _ _ (writePos_le _ h.unsent_wf)

end

theorem Layout.write_refused (h : Layout rtx phase start stream a b) (data : List UInt8)
    (hover : data = [] ∨ a + rtx.rawbuf.length < stream.length + data.length) :
    ∃ err, rtx.write data = .ok (rtx, 0, some err) := by
  have ha := h.a_le
  have hb := h.b_le
  have hcount : rtx.unsentRing.buffered = stream.length - b := h.bufferedUnsent_eq
  have hsum := ByteRing.free_add_buffered _ h.unsent_wf
  have hsize : rtx.unsentRing.size = rtx.rawbuf.length := rfl
  have hbuf : rtx.unsentRing.buf.length = rtx.rawbuf.length := rfl
  simp only [RingTx.write]
  rcases hover with rfl | hover
  · by_cases hz : rtx.sentend = 0
    · rw [if_pos hz, write_nil]
      exact ⟨_, rfl⟩
    have hab : a < b := by
      have := h.sentend_zero
      omega
    have hle := (h.sentoff_le hab).1
    rw [if_neg hz, writeLimited, if_neg (by omega), if_neg (by simp), if_neg (by simp), write_nil]
    exact ⟨_, rfl⟩
  by_cases hz : rtx.sentend = 0
  · have hab := h.sentend_zero.mp hz
    have hne : data ≠ [] := by
      rintro rfl
      simp only [length_nil] at hover
      have := h.fits
      omega
    rw [if_pos hz, ByteRing.write_full _ _ hne (by omega)]
    exact ⟨_, rfl⟩
  have hab : a < b := by
    have := h.sentend_zero
    omega
  have hle := (h.sentoff_le hab).1
  have hlim := h.freeLimited_eq hab
  have hfits := h.fits
  rw [if_neg hz, writeLimited, if_neg (by omega)]
  by_cases hlong : rtx.unsentRing.buf.length < data.length
  · rw [if_pos hlong]
    exact ⟨_, rfl⟩
  · rw [if_neg hlong, if_pos (by omega)]
    exact ⟨_, rfl⟩

section
variable (h : Layout rtx phase start stream a b)
include h

/-- The packet list after the next k unsent bytes were sent. -/
theorem Layout.addPacket (hk : 0 < k)
    (hkl : b + k ≤ stream.length) (hword : k < 2 ^ 32) (hfree : rtx.slist.free ≠ 0) :
    ∃ pkt : RingIdx, rtx.slist.addPacket k rtx.unsentoff rtx.rawbuf.length (advance start b) =
        .ok ({ rtx.slist with pkts := rtx.slist.pkts ++ [pkt] }, pkt) ∧
      pkt.off = rtx.unsentoff ∧ pkt.endOff = addEnd rtx.unsentoff k rtx.rawbuf.length ∧
      pkt.size.toNat = k ∧ pkt.PlacedAt rtx.rawbuf.length phase start b := by
  have ha := h.a_le
  have hfits := h.fits
  have hol := h.unsentoff_le
  have hmatch : ¬ (rtx.slist.newest.any fun lastPkt =>
      (rtx.unsentoff != 0 && rtx.unsentoff != lastPkt.endOff) ||
        (rtx.unsentoff == 0 && lastPkt.endOff != rtx.rawbuf.length)) := by
    intro hany
    obtain ⟨lastPkt, hlast, hbad⟩ := (Option.any_eq_true _ _).mp hany
    simp only [Bool.or_eq_true, Bool.and_eq_true, bne_iff_ne, beq_iff_eq] at hbad
    obtain ⟨-, hpos, hle, hmod⟩ := h.packets.newest hlast
    have hsame := h.unsentoff_mod.trans hmod.symm
    rcases hbad with ⟨hz, hne⟩ | ⟨hz, hne⟩
    · exact hne (eq_of_mod_eq (by omega) hol hpos hle hsame)
    refine hne (eq_of_mod_eq hpos hle h.pos le_rfl ?_)
    rw [← hsame, hz]
    simp
  refine ⟨RingIdx.mk rtx.unsentoff (addEnd rtx.unsentoff k rtx.rawbuf.length) (advance start b)
    (BitVec.ofNat 32 k), ?_, rfl, rfl, ?_, ?_⟩
  · rw [SentList.addPacket, if_neg hfree, if_neg hmatch]
  · rw [BitVec.toNat_ofNat, Nat.mod_eq_of_lt (by omega)]
  have hsize : (BitVec.ofNat 32 k).toNat = k := by
    rw [BitVec.toNat_ofNat, Nat.mod_eq_of_lt (by omega)]
  have hend : 0 < addEnd rtx.unsentoff k rtx.rawbuf.length ∧
      addEnd rtx.unsentoff k rtx.rawbuf.length ≤ rtx.rawbuf.length := by
    unfold addEnd
    split_ifs <;> omega
  refine ⟨by simp only [hsize]; exact hk, rfl, hol, h.unsentoff_mod, hend.1, hend.2, ?_⟩
  · simp only [hsize]
    rw [← Nat.add_assoc, ← add_mod_congr h.unsentoff_mod]
    unfold addEnd
    split_ifs with hgt
    · rw [← Nat.mod_eq_sub_mod (by omega)]
    · rfl

theorem Layout.newPacket {n : ℕ} (hn : 0 < n)
    (hne : b < stream.length) (hword : min n (stream.length - b) < 2 ^ 32)
    (hfree : rtx.slist.free ≠ 0) :
    ∃ rtx' pkt, rtx.newPacket n (advance start b) = .ok (rtx', (stream.drop b).take n, none) ∧
      Layout rtx' phase start stream a (b + min n (stream.length - b)) ∧
      rtx'.slist = { rtx.slist with pkts := rtx.slist.pkts ++ [pkt] } ∧
      pkt.size.toNat = min n (stream.length - b) ∧ rtx'.rawbuf = rtx.rawbuf := by
  obtain ⟨k, hk⟩ : ∃ k, min n (stream.length - b) = k := ⟨_, rfl⟩
  rw [hk] at hword ⊢
  have ha := h.a_le
  have hfits := h.fits
  have hend : rtx.unsentend ≠ 0 := by
    have := h.unsentend_zero
    omega
  have hcount : rtx.unsentRing.buffered = stream.length - b := h.bufferedUnsent_eq
  have hempty : rtx.unsentRing.isEmpty = false := by
    simpa [ByteRing.isEmpty, RingTx.unsentRing, RingTx.ring] using hend
  have hread := read_ok rtx.unsentRing n h.unsent_wf hn hend
  rw [hcount, hk, h.unsent_readable] at hread
  have hlen : ((stream.drop b).take n).length = k := by simpa using hk
  obtain ⟨pkt, hadd, hoff, hpe, hps, hplaced⟩ := h.addPacket (k := k) (by omega) (by omega)
    hword hfree
  obtain ⟨hwf, hsb, hol, hsc, hsm⟩ := ByteRing.shrink_spec rtx.unsentRing k h.unsent_wf (by omega)
    (by omega)
  have hshrunk := ByteRing.buffered_eq_zero_iff _ hwf
  -- a partial read leaves the end of the unsent region where it was
  have hkeep : k ≠ stream.length - b →
      (rtx.unsentRing.shrink k).endOff = rtx.unsentend := by
    intro hpart
    rw [ByteRing.shrink, if_neg (by omega)]
    rfl
  have hnew : rtx.newPacket n (advance start b) = .ok ({ rtx with
      slist := { rtx.slist with pkts := rtx.slist.pkts ++ [pkt] }
      sentoff := if rtx.sentend = 0 then pkt.off else rtx.sentoff
      unsentoff := if (rtx.unsentRing.shrink k).endOff = 0 then pkt.endOff
        else (rtx.unsentRing.shrink k).off
      sentend := pkt.endOff
      unsentend := (rtx.unsentRing.shrink k).endOff }, (stream.drop b).take n, none) := by
    rw [RingTx.newPacket, hempty, if_neg (by simp), hread]
    simp only [hlen]
    rw [RingTx.size, hadd]
    simp only []
    rw [if_neg (by rw [hoff, hpe]; simp)]
  refine ⟨_, pkt, hnew, ?_, rfl, hps, rfl⟩
  · have hpep := hplaced.end_pos
    refine
      { two_le := h.two_le
        a_le := by omega
        b_le := by omega
        fits := hfits
        holds := h.holds
        packets := ?_
        sentoff_eq := ?_
        sentend_le := hplaced.end_le
        sentend_zero := by simp only []; omega
        sentend_mod := fun _ => by rw [← hps]; exact hplaced.end_mod
        unsentoff_le := ?_
        unsentoff_mod := ?_
        unsentoff_pos := ?_
        unsentend_le := by have hle := hwf.end_le; rw [hsb] at hle; exact hle
        unsentend_zero := ?_
        unsentend_mod := ?_ }
    · refine packetsAt_append.mpr ⟨b, h.packets, hplaced, ?_⟩
      rw [hps]
      rfl
    · intro p hp
      by_cases hz : rtx.sentend = 0
      · have hnil := h.packets.eq_nil_iff.mpr (h.sentend_zero.mp hz)
        simp only [hnil, nil_append, head?_cons, Option.mem_some_iff] at hp
        simp only [hz, if_true, hp]
      have hcons : rtx.slist.pkts ≠ [] := by
        intro hnil
        exact hz (h.sentend_zero.mpr (h.packets.eq_nil_iff.mp hnil))
      simp only [head?_append_of_ne_nil _ hcons] at hp
      simp only [hz, if_false]
      exact h.sentoff_eq p hp
    · simp only []
      split_ifs
      · exact hplaced.end_le
      · exact le_of_lt hol
    · simp only []
      split_ifs
      · rw [← hps]
        exact hplaced.end_mod
      · rw [← Nat.add_assoc, ← add_mod_congr h.unsentoff_mod]
        exact hsm
    · intro _ hall
      have hz : (rtx.unsentRing.shrink k).endOff = 0 := hshrunk.mp (by omega)
      simp only [hz, if_true]
      exact hpep
    · simp only []
      rw [← hshrunk, hsc, hcount]
      omega
    intro hlt
    simp only []
    rw [hkeep (by omega)]
    exact h.unsentend_mod hne

theorem Layout.sentEndSeq_any (seq : Value) :
    (rtx.sentEndSeq.any fun endSeq => lessThan seq endSeq) =
      (decide (a < b) && lessThan seq (advance start b)) := by
  rw [sentEndSeq]
  cases hnew : rtx.slist.newest with
  | none =>
    have hab := h.packets.eq_nil_iff.mp (getLast?_eq_none_iff.mp hnew)
    simp [hab]
  | some newest =>
  have hne : rtx.slist.pkts ≠ [] := by
    intro hnil
    rw [SentList.newest, hnil] at hnew
    cases hnew
  have hab : a < b := lt_of_le_of_ne h.a_le fun heq => hne (h.packets.eq_nil_iff.mpr heq)
  simp [hab, (h.packets.newest hnew).1]

/-- MakePacket at the next sequence number sends the next unsent bytes. -/
theorem Layout.makePacket_new (n : ℕ) (hfree : rtx.slist.free ≠ 0) :
    rtx.makePacket n (advance start b) = rtx.newPacket n (advance start b) := by
  have hend : ¬ (rtx.sentEndSeq.any fun endSeq =>
      lessThan (advance start b) endSeq) := by
    rw [h.sentEndSeq_any, lessThan_self, Bool.and_false]
    simp
  rw [makePacket, if_neg hfree, if_neg hend]

theorem Layout.newPacket_none (n : ℕ) (seq : Value)
    (hall : b = stream.length) : rtx.newPacket n seq = .ok (rtx, [], none) := by
  have hempty : rtx.unsentRing.isEmpty := by
    simpa [ByteRing.isEmpty, RingTx.unsentRing, RingTx.ring] using h.unsentend_zero.mpr hall
  rw [RingTx.newPacket, if_pos hempty]

end

theorem seq_ne_of_lt (start : Value) {m : ℕ} (hkm : k < m) (hm : m < k + 2 ^ 32) :
    advance start k ≠ advance start m := by
  intro heq
  have hd := ahead_advance_advance start (le_of_lt hkm) (by omega)
  rw [heq, ahead_self] at hd
  omega

/-- MakePacket at the start of a queued packet repeats its bytes. -/
theorem Layout.makePacket_resend (h : Layout rtx phase start stream a b) (hout : b ≤ a + 2 ^ 31)
    {n : ℕ} (hn : 0 < n) (hfree : rtx.slist.free ≠ 0)
    (hpkts : rtx.slist.pkts = front ++ pkt :: back)
    (hfront : PacketsAt rtx.rawbuf.length phase start a front k)
    (hrest : PacketsAt rtx.rawbuf.length phase start k (pkt :: back) b) : rtx.makePacket n pkt.seq =
      .ok (rtx, ((stream.drop k).take pkt.size.toNat).take n, none) := by
  obtain ⟨hplaced, hback⟩ := hrest
  have hfl := hfront.le
  have hbl := hback.le
  have hnonempty := hplaced.nonempty
  have hold : (rtx.sentEndSeq.any fun endSeq => lessThan pkt.seq endSeq) := by
    rw [h.sentEndSeq_any, hplaced.seq_eq, Bool.and_eq_true, decide_eq_true_eq,
      lessThan_advance_iff start (by omega) (by omega)]
    omega
  have hfind : rtx.slist.pkts.find? (fun p => p.seq == pkt.seq) = some pkt := by
    refine find?_eq_some_iff_append.mpr ⟨by simp, front, back, hpkts, ?_⟩
    intro p hp
    obtain ⟨j, hj, hjk, hpj⟩ := hfront.mem hp
    have hpos := hpj.nonempty
    have hne := seq_ne_of_lt start (by omega : j < k) (by omega)
    simp only [Bool.not_eq_true', beq_eq_false_iff_ne, hpj.seq_eq, hplaced.seq_eq]
    exact hne
  have hend := hplaced.end_pos
  have hread := read_ok (rtx.ring pkt.off pkt.endOff) n (h.packet_wf hplaced) hn
    (by simp only [ring]; omega)
  rw [makePacket, if_neg hfree, if_pos hold, resendPacket, hfind]
  simp only [hread]
  rw [h.packet_readable hplaced hfl hbl]

def cutSizes : ℕ → List ℕ → List ℕ
  | _, [] => []
  | d, n :: ns => if n ≤ d then cutSizes (d - n) ns else (n - d) :: ns

/-- The packets an acknowledgment leaves, before the oldest is trimmed. -/
def live (ack : Value) (pkts : List RingIdx) : List RingIdx :=
  pkts.dropWhile fun pkt => Value.lessThanEq pkt.endSeq ack

theorem live_cons_of_acked {ack : Value} (rest : List RingIdx)
    (h : lessThanEq pkt.endSeq ack) : live ack (pkt :: rest) = live ack rest := by
  simp [live, h]

theorem live_cons_of_not_acked {ack : Value} (rest : List RingIdx)
    (h : ¬ lessThanEq pkt.endSeq ack) : live ack (pkt :: rest) = pkt :: rest := by
  simp [live, h]

theorem markRcvd_eq (ack ssn : Value) (pkts : List RingIdx) :
    ∃ n, (markRcvd ack ssn pkts).2 = replicate n (RingIdx.mk 0 0 0 0) ++ live ack pkts ∧
      (n = 0 → live ack pkts = pkts) := by
  induction pkts generalizing ssn with
  | nil => exact ⟨0, rfl, fun _ => rfl⟩
  | cons pkt rest ih =>
  by_cases hack : lessThanEq pkt.endSeq ack
  · obtain ⟨n, hn, -⟩ := ih pkt.endSeq
    refine ⟨n + 1, ?_, by simp⟩
    rw [markRcvd, if_pos hack, hn, live_cons_of_acked rest hack]
    rfl
  · have hlive := live_cons_of_not_acked rest hack
    exact ⟨0, by rw [markRcvd, if_neg hack, hlive]; rfl, fun _ => hlive⟩

theorem removeRecvd_eq (ack ssn : Value) {L phase : ℕ} {start : Value}
    (h : PacketsAt L phase start o pkts e) (hne : pkts ≠ []) :
    removeRecvd (markRcvd ack ssn pkts).2 = .ok (live ack pkts) := by
  have hreal : ∀ pkt ∈ pkts, pkt.isRecvd = false := by
    intro pkt hp
    obtain ⟨k, -, -, hk⟩ := h.mem hp
    have hpos := hk.nonempty
    simp only [RingIdx.isRecvd, beq_eq_false_iff_ne]
    rintro hz
    rw [hz] at hpos
    simp at hpos
  obtain ⟨n, hn, hlive⟩ := markRcvd_eq ack ssn pkts
  rw [hn]
  cases n with
  | zero =>
    rw [hlive rfl]
    cases pkts with
    | nil => exact absurd rfl hne
    | cons pkt rest =>
      have := hreal pkt (by simp)
      simp [removeRecvd, this]
  | succ n =>
  have hkeep : (live ack pkts).filter (fun pkt => !pkt.isRecvd) = live ack pkts := by
    apply filter_eq_self.mpr
    intro pkt hp
    simp [hreal pkt ((dropWhile_sublist _).mem hp)]
  have hgone : (replicate (n + 1) (RingIdx.mk 0 0 0 0)).filter
      (fun pkt => !pkt.isRecvd) = [] := by
    simp [RingIdx.isRecvd]
  have hfirst : (RingIdx.mk 0 0 0 0).isRecvd := rfl
  rw [replicate_succ, cons_append, removeRecvd, if_pos hfirst,
    ← cons_append, ← replicate_succ, filter_append, hkeep, hgone]
  rfl

theorem trimOldest_live {L phase : ℕ} {start : Value} (h : PacketsAt L phase start o pkts e)
    (hot : o ≤ t) (hte : t ≤ e) (hoe : e ≤ o + 2 ^ 31) (hte' : e < t + 2 ^ 31) (hL : e ≤ o + L) :
    PacketsAt L phase start t
        (trimOldest (advance start t) L (live (advance start t) pkts)) e ∧
      (trimOldest (advance start t) L (live (advance start t) pkts)).map
        (fun pkt => pkt.size.toNat) = cutSizes (t - o) (pkts.map fun pkt => pkt.size.toNat) := by
  induction pkts generalizing o with
  | nil =>
    have hoe : o = e := h
    exact ⟨by show t = e; omega, rfl⟩
  | cons pkt rest ih =>
  obtain ⟨hp, hrest⟩ := h
  have hle := hrest.le
  have hpos := hp.nonempty
  by_cases hcov : o + pkt.size.toNat ≤ t
  · have hack : lessThanEq pkt.endSeq (advance start t) := by
      rw [lessThanEq_iff, hp.endSeq_eq, ahead_advance_advance start hcov (by omega)]
      omega
    rw [live_cons_of_acked rest hack]
    obtain ⟨h1, h2⟩ := ih hrest hcov (by omega) (by omega)
    refine ⟨h1, ?_⟩
    rw [h2, map_cons, cutSizes, if_pos (by omega), Nat.sub_sub]
  have hack : ¬ lessThanEq pkt.endSeq (advance start t) := by
    rw [lessThanEq_iff, hp.endSeq_eq]
    have hback := ahead_advance_advance start (by omega : t ≤ o + pkt.size.toNat) (by omega)
    have hsum := ahead_add_ahead (advance start t) (advance start (o + pkt.size.toNat))
      (seq_ne_of_lt start (by omega) (by omega))
    omega
  have hacked : (advance start t - pkt.seq).toNat = t - o := by
    rw [hp.seq_eq]
    exact ahead_advance_advance start hot (by omega)
  have hint : (advance start t - pkt.seq).toInt = (t - o : ℕ) := by
    rw [BitVec.toInt_eq_toNat_of_lt (by rw [hacked]; omega), hacked]
  have hcut : cutSizes (t - o) ((pkt :: rest).map fun pkt => pkt.size.toNat) =
      (pkt.size.toNat - (t - o)) :: rest.map fun pkt => pkt.size.toNat := by
    rw [map_cons, cutSizes, if_neg (by omega)]
  rw [live_cons_of_not_acked rest hack, trimOldest, hint]
  simp only [hacked, hcut]
  split_ifs with hpart
  · have hsize : (pkt.size - (advance start t - pkt.seq)).toNat =
        pkt.size.toNat - (t - o) := by
      rw [BitVec.toNat_sub_of_le (by rw [BitVec.le_def]; omega), hacked]
    have hseq : pkt.seq + (advance start t - pkt.seq) = advance start t := by
      rw [BitVec.add_comm, BitVec.sub_add_cancel]
    have hoff := hp.off_le
    have hnew : o + pkt.size.toNat = t + (pkt.size.toNat - (t - o)) := by omega
    refine ⟨⟨⟨?_, hseq, ?_, ?_, hp.end_pos, hp.end_le, ?_⟩, ?_⟩, ?_⟩
    · simp only [hsize]
      omega
    · show addOff pkt.off (t - o) L ≤ L
      unfold addOff
      split_ifs <;> omega
    · show addOff pkt.off (t - o) L % L = (phase + t) % L
      have hmod := add_mod_congr hp.off_mod (t - o)
      rw [show phase + o + (t - o) = phase + t by omega] at hmod
      rw [← hmod]
      unfold addOff
      split_ifs with hge
      · rw [← Nat.mod_eq_sub_mod hge]
      · rfl
    · simp only [hsize]
      rw [← hnew]
      exact hp.end_mod
    · simp only [hsize]
      rw [← hnew]
      exact hrest
    · simp only [map_cons, hsize]
  · have hto : t = o := by omega
    subst hto
    exact ⟨⟨hp, hrest⟩, by simp⟩

section
variable (h : Layout rtx phase start stream a b)
include h

theorem Layout.cutAt (hat : a ≤ t) (htb : t ≤ b) (hab : a < b) (slist : SentList)
    (hpkts : PacketsAt rtx.rawbuf.length phase start t slist.pkts b) {rtx' : RingTx}
    (hrtx' : rtx' = match slist.oldest, slist.newest with | some oldest, some newest => { rtx with
      slist := slist, sentoff := oldest.off, sentend := newest.endOff }.consolidateBufs | _, _ => {
      rtx with slist := slist, sentend := 0 }.consolidateBufs)
    : Laid rtx' start stream t b ∧ rtx'.slist = slist ∧ rtx'.rawbuf = rtx.rawbuf := by
  have hpos := h.pos
  have hb := h.b_le
  have hfits := h.fits
  by_cases hnil : slist.pkts = []
  · have htb' : t = b := hpkts.eq_nil_iff.mp hnil
    have hcut : rtx' = { rtx with slist := slist, sentend := 0 }.consolidateBufs := by
      rw [hrtx', oldest, hnil]
      rfl
    by_cases hall : rtx.unsentend = 0
    · -- nothing is left in the ring, so the next byte written fixes the phase
      have hbs := h.unsentend_zero.mp hall
      have heq : rtx' =
          { rtx with slist := slist, sentend := 0, sentoff := 0, unsentoff := 0 } := by
        rw [hcut, consolidateBufs, if_pos ⟨hall, rfl⟩]
      rw [heq]
      refine ⟨⟨rtx.rawbuf.length * (b + 1) - b, ?_⟩, rfl, rfl⟩
      have hmul : b ≤ rtx.rawbuf.length * (b + 1) := by
        have := Nat.le_mul_of_pos_left (b + 1) hpos
        omega
      exact
        { two_le := h.two_le
          a_le := htb
          b_le := hb
          fits := by simp only []; omega
          holds := fun k hk hk' => by omega
          packets := by simp only [hnil]; exact htb'
          sentoff_eq := fun pkt hp => by simp [hnil] at hp
          sentend_le := Nat.zero_le _
          sentend_zero := ⟨fun _ => htb', fun _ => rfl⟩
          sentend_mod := fun hlt => by omega
          unsentoff_le := Nat.zero_le _
          unsentoff_mod := by
            rw [Nat.sub_add_cancel hmul, Nat.mul_mod_right, Nat.zero_mod]
          unsentoff_pos := fun hlt _ => by omega
          unsentend_le := h.unsentend_le
          unsentend_zero := h.unsentend_zero
          unsentend_mod := fun hlt => by omega }
    · have heq : rtx' = { rtx with slist := slist, sentend := 0 } := by
        rw [hcut, consolidateBufs, if_neg (fun hboth => hall hboth.1)]
      rw [heq]
      refine ⟨⟨phase, ?_⟩, rfl, rfl⟩
      exact
        { two_le := h.two_le
          a_le := htb
          b_le := hb
          fits := by simp only []; omega
          holds := h.holds.mono hat le_rfl
          packets := hpkts
          sentoff_eq := fun pkt hp => by simp [hnil] at hp
          sentend_le := Nat.zero_le _
          sentend_zero := ⟨fun _ => htb', fun _ => rfl⟩
          sentend_mod := fun hlt => by omega
          unsentoff_le := h.unsentoff_le
          unsentoff_mod := h.unsentoff_mod
          unsentoff_pos := fun hlt _ => by omega
          unsentend_le := h.unsentend_le
          unsentend_zero := h.unsentend_zero
          unsentend_mod := h.unsentend_mod }
  · obtain ⟨oldest, hold⟩ : ∃ p, slist.oldest = some p := by
      rw [oldest, head?_eq_some_head hnil]
      exact ⟨_, rfl⟩
    obtain ⟨newest, hnew⟩ : ∃ p, slist.newest = some p := by
      rw [SentList.newest, getLast?_eq_some_getLast hnil]
      exact ⟨_, rfl⟩
    have htlt : t < b := lt_of_le_of_ne htb fun heq => hnil (hpkts.eq_nil_iff.mpr heq)
    obtain ⟨-, hnp, hnl, hnm⟩ := hpkts.newest hnew
    have heq : rtx' =
        { rtx with slist := slist, sentoff := oldest.off, sentend := newest.endOff } := by
      rw [hrtx', hold, hnew]
      simp only [consolidateBufs]
      rw [if_neg (by omega)]
    rw [heq]
    refine ⟨⟨phase, ?_⟩, rfl, rfl⟩
    exact
      { two_le := h.two_le
        a_le := htb
        b_le := hb
        fits := by simp only []; omega
        holds := h.holds.mono hat le_rfl
        packets := hpkts
        sentoff_eq := fun pkt hp => by
          have : some oldest = some pkt := hold.symm.trans hp
          simp only [Option.some.inj this]
        sentend_le := hnl
        sentend_zero := by simp only []; omega
        sentend_mod := fun _ => hnm
        unsentoff_le := h.unsentoff_le
        unsentoff_mod := h.unsentoff_mod
        unsentoff_pos := fun _ hall => h.unsentoff_pos hab hall
        unsentend_le := h.unsentend_le
        unsentend_zero := h.unsentend_zero
        unsentend_mod := h.unsentend_mod }

/-- An acknowledgment of sent bytes frees exactly the bytes before it. -/
theorem Layout.recvACK (hout : b ≤ a + 2 ^ 31) (hat : a ≤ t) (htb : t ≤ b) :
    ∃ rtx' err, rtx.recvACK (advance start t) = .ok (rtx', err) ∧ Laid rtx' start stream t b ∧
      rtx'.rawbuf = rtx.rawbuf ∧ rtx'.slist.cap = rtx.slist.cap ∧
      rtx'.slist.pkts.map (fun pkt => pkt.size.toNat) =
        cutSizes (t - a) (rtx.slist.pkts.map fun pkt => pkt.size.toNat) := by
  have hb := h.b_le
  have hfits := h.fits
  have hsame : a = t → cutSizes (t - a) (rtx.slist.pkts.map fun pkt => pkt.size.toNat) =
      rtx.slist.pkts.map fun pkt => pkt.size.toNat := by
    rintro rfl
    have hpkts := h.packets
    revert hpkts
    cases rtx.slist.pkts with
    | nil => exact fun _ => rfl
    | cons pkt rest =>
    intro hpkts
    have := hpkts.1.nonempty
    rw [map_cons, cutSizes, if_neg (by omega), Nat.sub_self, Nat.sub_zero]
  cases hnew : rtx.slist.newest with
  | none =>
    have hnil : rtx.slist.pkts = [] := getLast?_eq_none_iff.mp hnew
    have hab := h.packets.eq_nil_iff.mp hnil
    have hta : a = t := by omega
    refine ⟨rtx, some .drop, ?_, ⟨phase, hta ▸ h⟩, rfl, rfl, (hsame hta).symm⟩
    rw [RingTx.recvACK, recvAck, hnew]
  | some newest =>
  have hne : rtx.slist.pkts ≠ [] := by
    intro hnil
    rw [SentList.newest, hnil] at hnew
    cases hnew
  have hab : a < b := lt_of_le_of_ne h.a_le fun heq => hne (h.packets.eq_nil_iff.mpr heq)
  have hend := (h.packets.newest hnew).1
  by_cases hfar : b = t + 2 ^ 31
  · -- the whole number space ahead of the ack: it reads as an ack of unsent data
    have hta : a = t := by omega
    refine ⟨rtx, some .drop, ?_, ⟨phase, hta ▸ h⟩, rfl, rfl, (hsame hta).symm⟩
    have hlt : lessThan newest.endSeq (advance start t) := by
      have hback := ahead_advance_advance start htb (by omega)
      have hsum := ahead_add_ahead (advance start t) (advance start b)
        (seq_ne_of_lt start (by omega) (by omega))
      rw [lessThan_iff, hend]
      omega
    rw [RingTx.recvACK, recvAck, hnew]
    simp only [hlt, if_true]
  have hlt : ¬ lessThan newest.endSeq (advance start t) := by
    rw [hend, lessThan_advance_iff start (by omega) (by omega)]
    omega
  obtain ⟨hcut, hsizes⟩ := trimOldest_live h.packets hat htb hout (by omega) (by omega)
  have hrm := removeRecvd_eq (advance start t) rtx.slist.ssn h.packets hne
  obtain ⟨hlaid, hs, hraw⟩ := h.cutAt hat htb hab
    { rtx.slist with
      ssn := (markRcvd (advance start t) rtx.slist.ssn rtx.slist.pkts).1
      pkts := trimOldest (advance start t) rtx.rawbuf.length
        (live (advance start t) rtx.slist.pkts) } hcut rfl
  refine ⟨_, none, ?_, hlaid, hraw, by rw [hs], by rw [hs]; exact hsizes⟩
  rw [RingTx.recvACK, recvAck, hnew]
  simp only [if_neg hlt, hrm, RingTx.size]
  split <;> simp_all

theorem Layout.recvACK_outside (hout : b ≤ a + 2 ^ 31) (hbt : b < t) (hta : t < a + 2 ^ 32) :
    ∃ err, rtx.recvACK (advance start t) = .ok (rtx, err) := by
  have hpkts := h.packets
  have hoff := h.sentoff_eq
  cases hlist : rtx.slist.pkts with
  | nil =>
    refine ⟨some .drop, ?_⟩
    rw [RingTx.recvACK, recvAck, SentList.newest, hlist]
    rfl
  | cons pkt rest =>
  rw [hlist] at hpkts hoff
  obtain ⟨newest, hnew⟩ : ∃ p, rtx.slist.newest = some p := by
    rw [SentList.newest, hlist, getLast?_cons]
    exact ⟨_, rfl⟩
  obtain ⟨hend, hep, hel, hem⟩ := h.packets.newest hnew
  have hle := hpkts.2.le
  have hpos := hpkts.1.nonempty
  have hahead := ahead_advance_advance start (le_of_lt hbt) (by omega)
  by_cases hnear : t ≤ b + 2 ^ 31
  · refine ⟨some .drop, ?_⟩
    have hlt : lessThan newest.endSeq (advance start t) := by
      rw [lessThan_iff, hend]
      omega
    rw [RingTx.recvACK, recvAck, hnew]
    simp only [hlt, if_true]
  refine ⟨none, ?_⟩
  have hlt : ¬ lessThan newest.endSeq (advance start t) := by
    rw [lessThan_iff, hend]
    omega
  have hack : ¬ lessThanEq pkt.endSeq (advance start t) := by
    rw [lessThanEq_iff, hpkts.1.endSeq_eq, ahead_advance_advance start (by omega) (by omega)]
    omega
  have hmark : markRcvd (advance start t) rtx.slist.ssn rtx.slist.pkts =
      (rtx.slist.ssn, rtx.slist.pkts) := by
    rw [hlist, markRcvd, if_neg hack]
  have hrm := removeRecvd_eq (advance start t) rtx.slist.ssn h.packets (by rw [hlist]; simp)
  rw [hmark, hlist, live_cons_of_not_acked rest hack, ← hlist] at hrm
  have hint : ¬ 0 < (advance start t - pkt.seq).toInt := by
    have hd : (advance start t - pkt.seq).toNat = t - a := by
      rw [hpkts.1.seq_eq]
      exact ahead_advance_advance start (by omega) (by omega)
    rw [BitVec.toInt_eq_toNat_cond, hd, if_neg (by omega)]
    omega
  have htrim : trimOldest (advance start t) rtx.size rtx.slist.pkts =
      rtx.slist.pkts := by
    rw [hlist, trimOldest]
    simp only [if_neg hint]
  have hrecv : rtx.slist.recvAck (advance start t) rtx.size = .ok (rtx.slist, none) := by
    rw [recvAck, hnew]
    simp only [if_neg hlt, hmark, hrm, htrim]
  have hold : rtx.slist.oldest = some pkt := by rw [oldest, hlist]; rfl
  have hsentoff : pkt.off = rtx.sentoff := (hoff pkt rfl).symm
  have hsentend : newest.endOff = rtx.sentend := by
    have hz : rtx.sentend ≠ 0 := by
      have := h.sentend_zero
      omega
    exact eq_of_mod_eq hep hel (by omega) h.sentend_le (hem.trans (h.sentend_mod (by omega)).symm)
  rw [RingTx.recvACK, hrecv]
  simp only [hold, hnew, hsentoff, hsentend, RingTx.consolidateBufs]
  rw [if_neg (by omega)]

end

section
variable (hout : b ≤ a + 2 ^ 31) (hpkts : rtx.slist.pkts = front ++ pkt :: back)
  (hfront : PacketsAt rtx.rawbuf.length phase start a front k)
  (hrest : PacketsAt rtx.rawbuf.length phase start k (pkt :: back) b)
include hout hpkts hfront hrest

/-- The packet found for a sequence number is the one whose octets cover it. -/
theorem packetContaining_eq (hkt : k ≤ t)
    (htk : t < k + pkt.size.toNat) : rtx.slist.packetContaining (advance start t) = some pkt := by
  have hfl := hfront.le
  have hbl := hrest.2.le
  refine find?_eq_some_iff_append.mpr ⟨?_, front, back, hpkts, ?_⟩
  · rw [Bool.and_eq_true, lessThanEq_iff, hrest.1.endSeq_eq, hrest.1.seq_eq,
      ahead_advance_advance start hkt (by omega),
      lessThan_advance_iff start (by omega) (by omega)]
    omega
  intro p hp
  obtain ⟨j, haj, hjk, hpj⟩ := hfront.mem hp
  have hpos := hpj.nonempty
  have hlt : ¬ lessThan (advance start t) p.endSeq := by
    rw [hpj.endSeq_eq, lessThan_advance_iff start (by omega) (by omega)]
    omega
  simp [hlt]

theorem truncateFrom_pkts : (rtx.slist.truncateFrom pkt.seq).pkts = front := by
  have hbl := hrest.2.le
  have hearlier : ∀ p ∈ front, (p.seq != pkt.seq) := by
    intro p hp
    obtain ⟨j, haj, hjk, hpj⟩ := hfront.mem hp
    have hpos := hpj.nonempty
    rw [bne_iff_ne, hpj.seq_eq, hrest.1.seq_eq]
    exact seq_ne_of_lt start (by omega) (by omega)
  simp only [SentList.truncateFrom, hpkts]
  rw [takeWhile_append_of_pos hearlier, takeWhile_cons_of_neg (by simp), append_nil]

/-- A rewind to a packet makes it and everything after it unsent. It must be the oldest,
or not lie at the start of the buffer: an end offset of zero reads as an empty sent
region. -/
theorem Layout.retransmitFrom (h : Layout rtx phase start stream a b) {seq : Value}
    (hseq : rtx.slist.packetContaining seq = some pkt) (hoff : front = [] ∨ pkt.off ≠ 0) :
    Layout (rtx.retransmitFrom seq) phase start stream a k ∧
      (rtx.retransmitFrom seq).slist.pkts = front ∧
      (rtx.retransmitFrom seq).slist.cap = rtx.slist.cap ∧
      (rtx.retransmitFrom seq).rawbuf = rtx.rawbuf := by
  have hb := h.b_le
  have hfits := h.fits
  have hfl := hfront.le
  have hbl := hrest.2.le
  have hpos := hrest.1.nonempty
  have htrunc := truncateFrom_pkts hout hpkts hfront hrest
  obtain ⟨hsl, hsm⟩ := h.sentoff_le (by omega)
  have hsame : pkt.off = rtx.sentoff ↔ a = k := by
    constructor
    · intro heq
      have hmod := hrest.1.off_mod
      rw [heq, hsm, show phase + k = phase + a + (k - a) by omega] at hmod
      have hz := mod_add_left_cancel (c := phase + a) (a := 0) hmod
      rw [Nat.zero_mod, Nat.mod_eq_of_lt (by omega)] at hz
      omega
    intro hak
    have hnil := hfront.eq_nil_iff.mpr hak
    refine (h.sentoff_eq pkt ?_).symm
    rw [hpkts, hnil]
    rfl
  have hst : rtx.retransmitFrom seq = { rtx with
      sentoff := if pkt.off = rtx.sentoff then 0 else rtx.sentoff
      sentend := if pkt.off = rtx.sentoff then 0 else pkt.off
      unsentoff := pkt.off
      unsentend := if rtx.unsentend = 0 then rtx.sentend else rtx.unsentend
      slist := rtx.slist.truncateFrom pkt.seq } := by
    rw [RingTx.retransmitFrom, hseq]
  rw [hst]
  refine ⟨?_, htrunc, rfl, rfl⟩
  have hse := h.sentend_zero
  have hue := h.unsentend_zero
  have hsel := h.sentend_le
  have huel := h.unsentend_le
  exact
    { two_le := h.two_le
      a_le := hfl
      b_le := by omega
      fits := hfits
      holds := h.holds
      packets := by simp only [htrunc]; exact hfront
      sentoff_eq := by
        intro p hp
        simp only [htrunc] at hp
        by_cases hnil : front = []
        · simp [hnil] at hp
        have hne : ¬ pkt.off = rtx.sentoff := fun heq => hnil (hfront.eq_nil_iff.mpr (hsame.mp heq))
        simp only [if_neg hne]
        refine h.sentoff_eq p ?_
        rw [hpkts, head?_append_of_ne_nil _ hnil]
        exact hp
      sentend_le := by
        simp only []
        split_ifs
        · exact Nat.zero_le _
        · exact hrest.1.off_le
      sentend_zero := by
        simp only []
        split_ifs with heq
        · exact ⟨fun _ => hsame.mp heq, fun _ => rfl⟩
        have hne : a ≠ k := fun hak => heq (hsame.mpr hak)
        have hz : pkt.off ≠ 0 := hoff.resolve_left fun hnil => hne (hfront.eq_nil_iff.mp hnil)
        omega
      sentend_mod := fun hlt => by
        have hne : ¬ pkt.off = rtx.sentoff := fun heq => by
          have := hsame.mp heq
          omega
        simp only [if_neg hne]
        exact hrest.1.off_mod
      unsentoff_le := hrest.1.off_le
      unsentoff_mod := hrest.1.off_mod
      unsentoff_pos := fun _ hall => by omega
      unsentend_le := by
        simp only []
        split_ifs
        · exact hsel
        · exact huel
      unsentend_zero := by
        simp only []
        split_ifs <;> omega
      unsentend_mod := fun _ => by
        simp only []
        split_ifs with hz
        · rw [← hue.mp hz]
          exact h.sentend_mod (by omega)
        · exact h.unsentend_mod (by omega) }

end

theorem reset_laid (rtx : RingTx) (buf : List UInt8) (maxqueuedPackets : ℤ) (iss start : Value)
    (hok : (rtx.reset buf maxqueuedPackets iss).2 = none) :
    Laid (rtx.reset buf maxqueuedPackets iss).1 start [] 0 0 ∧
      (rtx.reset buf maxqueuedPackets iss).1.rawbuf = buf ∧
      (rtx.reset buf maxqueuedPackets iss).1.slist.pkts = [] := by
  by_cases hq : maxqueuedPackets ≤ 0
  · simp [reset, hq] at hok
  by_cases hlen : buf.length < minBufferSize ∨ (buf.length : ℤ) < maxqueuedPackets
  · simp [reset, hq, hlen] at hok
  have hst : (rtx.reset buf maxqueuedPackets iss).1 =
      { rawbuf := buf, slist := rtx.slist.reset maxqueuedPackets.toNat iss, iss := iss } := by
    rw [reset, if_neg hq, if_neg hlen]
  rw [hst]
  rw [not_or, not_lt] at hlen
  refine ⟨⟨0, ?_⟩, rfl, rfl⟩
  constructor <;> simp [SentList.reset, PacketsAt, Holds, hlen.1]

end Facts

end Lneto.TransmitRing
