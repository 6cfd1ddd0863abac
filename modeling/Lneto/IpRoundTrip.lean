import Lneto.IpChecksums
import Lneto.IpEgress

/-!
From the sending stack to the receiving one. A packet is sealed when its lengths
agree and the sums over its header and over its pseudo header and payload are
multiples of 65535. What is sent is sealed, and what is sealed is received.
-/
namespace Lneto.IpRoundTrip

open StackNodes hiding Fault
open Views View EthernetIngress IpIngress OnesComplement IpChecksums IpEgress
open GuardedRuns (ok_bind)
open UInt32 (ofNat toNat_ofNat' ofNat_add zero_add)

variable {mem mem' : ℕ → UInt8}

section Sums
variable {mem mem' : ℕ → UInt8} {start start' n : ℕ}

theorem bytesAt_congr (h : ∀ k < n, mem' (start' + k) = mem (start + k)) :
    bytesAt mem' start' n = bytesAt mem start n := by
  apply List.map_congr_left
  intro k hk
  exact h k (List.mem_range.1 hk)

theorem eq_of_bytesAt (h : bytesAt mem' start' n = bytesAt mem start n) {k : ℕ} (hk : k < n) :
    mem' (start' + k) = mem (start + k) :=
  List.map_inj_left.1 h k (List.mem_range.2 hk)

theorem bytesAt_part (h : bytesAt mem' start' n = bytesAt mem start n) {a m : ℕ}
    (hm : a + m ≤ n) : bytesAt mem' (start' + a) m = bytesAt mem (start + a) m := by
  apply bytesAt_congr
  intro k hk
  rw [Nat.add_assoc, Nat.add_assoc]
  exact eq_of_bytesAt h (by omega)

theorem bytesAt_store_apart {a : ℕ} {data : List UInt8}
    (h : start + n ≤ a ∨ a + data.length ≤ start) :
    bytesAt (store mem a data) start n = bytesAt mem start n := by
  apply bytesAt_congr
  intro k hk
  exact store_outside mem (by omega)

theorem total_split16 (value : ℕ) : total (split16 value) = value % 65536 := by
  rw [← word_split16]
  simp [total, split16, words, word]

theorem bytesAt_store (a value : ℕ) :
    bytesAt (store mem a (split16 value)) a 2 = split16 value := by
  simp [bytesAt, List.range_succ, store, split16]

theorem total_store {k : ℕ} (heven : k % 2 = 0) (hk : k + 2 ≤ n) (value : ℕ) :
    total (bytesAt (store mem (start + k) (split16 value)) start n) =
      total (bytesAt (store mem (start + k) (split16 0)) start n) + value % 65536 := by
  have hparts : ∀ value, total (bytesAt (store mem (start + k) (split16 value)) start n) =
      total (bytesAt mem start k) + (value % 65536 +
        total (bytesAt mem (start + k + 2) (n - (k + 2)))) := by
    intro value
    have hn : n = k + (2 + (n - (k + 2))) := by omega
    conv_lhs => rw [hn]
    rw [bytesAt_add, bytesAt_add, total_append (by rw [length_bytesAt]; exact heven),
      total_append (by rw [length_bytesAt]), bytesAt_store, total_split16,
      bytesAt_store_apart (.inl le_rfl),
      @bytesAt_store_apart mem (start + k + 2) _ (start + k) (split16 value) (.inr le_rfl)]
  rw [hparts, hparts]
  omega

theorem dvd_filled {k base value : ℕ} (heven : k % 2 = 0) (hk : k + 2 ≤ n)
    (hbase : base + 65535 * ((n + 1) / 2) < 4294967296) (hvalue : value < 65536)
    (hcrc : value % 65535 =
      complement (base + total (bytesAt (store mem (start + k) (split16 0)) start n)) % 65535) :
    65535 ∣ base + total (bytesAt (store mem (start + k) (split16 value)) start n) := by
  have hle := total_le (bytesAt (store mem (start + k) (split16 0)) start n)
  rw [length_bytesAt] at hle
  have hdvd := @dvd_add_complement
    (base + total (bytesAt (store mem (start + k) (split16 0)) start n)) (by omega)
  rw [total_store heven hk, Nat.mod_eq_of_lt hvalue]
  omega

end Sums

theorem payloadSum16_eq (sum : UInt32) (buff : List UInt8) :
    payloadSum16 sum buff = .ok (sum16 (sum + ofNat (total buff))) := by
  rcases Nat.mod_two_eq_zero_or_one buff.length with heven | hodd
  · simp only [payloadSum16, heven, Nat.sub_zero, List.take_length, sumWriteEven_eq buff heven]
    rfl
  obtain ⟨front, last, rfl⟩ : ∃ front last, buff = front ++ [last] := by
    have hne : buff ≠ [] := by
      rintro rfl
      cases hodd
    exact ⟨_, _, (List.dropLast_append_getLast hne).symm⟩
  have hfront : front.length % 2 = 0 := by
    rw [List.length_append, List.length_singleton] at hodd
    omega
  have hlast : last.toUInt32 <<< (8 : UInt32) = ofNat (last.toNat * 256) := by
    rw [← UInt32.toNat_inj, UInt32.toNat_shiftLeft, toNat_ofNat', Nat.shiftLeft_eq]
    rfl
  have htake : (front ++ [last]).take ((front ++ [last]).length - 1) = front := by simp
  simp only [payloadSum16, hodd, htake, sumWriteEven_eq front hfront]
  rw [total_append hfront, ofNat_add, ← UInt32.add_assoc]
  simp [total, words, hlast]

theorem payloadSum16_zero {base : ℕ} {buff : List UInt8} (hpos : 0 < base)
    (hbase : base + 65535 * ((buff.length + 1) / 2) < 4294967296)
    (hdvd : 65535 ∣ base + total buff) : payloadSum16 (ofNat base) buff = .ok 0 := by
  have hle := total_le buff
  have hnat : (ofNat (base + total buff)).toNat = base + total buff := by
    exact Nat.mod_eq_of_lt (by omega)
  rw [payloadSum16_eq, ← ofNat_add, Except.ok.injEq, ← UInt16.toNat_inj, sum16_toNat, hnat,
    UInt16.toNat_zero, complement_eq_zero_iff (by omega)]
  exact ⟨by omega, hdvd⟩

/-- The places behind the IP header that the sender fills in. -/
def Filled (proto k : ℕ) : Prop :=
  proto = protoTCP ∧ (k = 16 ∨ k = 17) ∨ proto = protoUDP ∧ 4 ≤ k ∧ k < 8

/-- The protocols with a checksum, and the room that their headers take. -/
def Transport (proto n : ℕ) : Prop := proto = protoTCP ∧ 20 ≤ n ∨ proto = protoUDP ∧ 8 ≤ n

/-- What becomes of a payload of n bytes whose pseudo header sums up to a base. -/
structure Fills (mem mem' : ℕ → UInt8) (a n proto base : ℕ) : Prop where
  others : ∀ i, i < a ∨ ¬ Filled proto (i - a) → mem' i = mem i
  sum : 65535 ∣ base + total (bytesAt mem' a n)
  length : proto = protoUDP → word (mem' (a + 4)) (mem' (a + 5)) = n
  nonzero : proto = protoUDP → word (mem' (a + 6)) (mem' (a + 7)) ≠ 0

theorem uint16Of_natCast {n : ℕ} (h : n < 65536) : uint16Of n = n := by
  unfold uint16Of
  omega

section Fill
variable {mem : ℕ → UInt8} {data : View} {base : ℕ}

theorem fillCRC_ok {field : ℕ} {finish : UInt16 → UInt16} (heven : field % 2 = 0)
    (hfield : field + 2 ≤ data.len) (hbase : base + 65535 * ((data.len + 1) / 2) < 4294967296)
    (hfinish : ∀ sum, (finish sum).toNat % 65535 = sum.toNat % 65535) :
    ∃ sum, fillCRC mem data data field (ofNat base) finish =
        .ok (store mem (data.start + field) (split16 (finish sum).toNat)) ∧
      65535 ∣ base + total (bytesAt (store mem (data.start + field) (split16 (finish sum).toNat))
        data.start data.len) := by
  have hfits := data.fits
  have hcap : field + 2 ≤ data.cap := by omega
  have hle := total_le (bytesAt (store mem (data.start + field) (split16 0)) data.start data.len)
  rw [length_bytesAt] at hle
  refine ⟨sum16 (ofNat (base +
    total (bytesAt (store mem (data.start + field) (split16 0)) data.start data.len))), ?_, ?_⟩
  · unfold fillCRC
    rw [put16_ok hcap]
    simp only [ok_then, payloadSum16_eq, put16_ok hcap, ← ofNat_add]
    rw [store_split16]
    rfl
  have hnat : (ofNat (base + total (bytesAt (store mem (data.start + field) (split16 0))
      data.start data.len))).toNat = base + total (bytesAt (store mem (data.start + field)
        (split16 0)) data.start data.len) := by
    rw [toNat_ofNat']
    exact Nat.mod_eq_of_lt (by omega)
  refine dvd_filled heven hfield hbase (UInt16.toNat_lt _) ?_
  rw [hfinish, sum16_toNat, hnat]

theorem neverZeroSum_mod (sum : UInt16) : (neverZeroSum sum).toNat % 65535 = sum.toNat % 65535 := by
  unfold neverZeroSum
  split_ifs with hzero
  · rw [hzero]
    rfl
  · rfl

theorem fills_tcp (hlen : 20 ≤ data.len)
    (hbase : base + 65535 * ((data.len + 1) / 2) < 4294967296) :
    ∃ mem', fillCRC mem (tcpFrame data) data 16 (ofNat base) id = .ok mem' ∧
      Fills mem mem' data.start data.len protoTCP base := by
  obtain ⟨sum, hfill, hdvd⟩ := @fillCRC_ok mem data base 16 id rfl (by omega) hbase fun _ => rfl
  have hfrm : tcpFrame data = data := if_neg (by omega)
  refine ⟨_, by rw [hfrm]; exact hfill, ?_, hdvd, nofun, nofun⟩
  intro i hi
  simp [Filled, protoTCP, protoUDP] at hi
  apply store_outside
  rw [length_split16]
  omega

theorem fills_udp (hlen : 8 ≤ data.len) (hsmall : data.len < 65536)
    (hbase : base + 65535 * ((data.len + 1) / 2) < 4294967296) :
    ∃ mem', fillCRC (store mem (data.start + 4) (split16 data.len)) data data 6
        (ofNat base) neverZeroSum = .ok mem' ∧
      Fills mem mem' data.start data.len protoUDP base := by
  obtain ⟨sum, hfill, hdvd⟩ := @fillCRC_ok (store mem (data.start + 4) (split16 data.len)) data
    base 6 neverZeroSum rfl (by omega) hbase neverZeroSum_mod
  refine ⟨_, hfill, ?_, hdvd, ?_, ?_⟩
  · intro i hi
    simp [Filled, protoTCP, protoUDP] at hi
    rw [store_outside _ (by rw [length_split16]; omega),
      store_outside _ (by rw [length_split16]; omega)]
  · intro _
    have hword : word (UInt8.ofNat (data.len / 256)) (UInt8.ofNat data.len) = data.len := by
      rw [word_split16, Nat.mod_eq_of_lt hsmall]
    simpa [store, split16] using hword
  intro _
  have hword : word (UInt8.ofNat ((neverZeroSum sum).toNat / 256))
      (UInt8.ofNat (neverZeroSum sum).toNat) ≠ 0 := by
    rw [word_split16, Nat.mod_eq_of_lt (UInt16.toNat_lt _), neverZeroSum]
    split_ifs with hzero
    · decide
    · rw [← UInt16.toNat_zero, ne_eq, UInt16.toNat_inj]
      exact hzero
  simpa [store, split16] using hword

end Fill

/-- A node of the table writes n bytes; no node that writes returns an error. -/
def Sends (t : Table) (replies : List Reply) (node : Node) (n : ℕ) : Prop :=
  (∀ reply ∈ replies, 0 < reply.n → reply.err = none) ∧
  ∃ t' turns i, t.encapsulateAny replies = .ok (t', turns, ⟨some i, n, none⟩) ∧
    t.h.nodes[i]? = some node

theorem Sends.proto {t : Table} {replies : List Reply} {node : Node} {n : ℕ}
    (h : Sends t replies node n) : ∃ t' turns report, t.encapsulateAny replies =
        .ok (t', turns, report) ∧ report.n = n ∧ report.err = none ∧
      sentProto t' report = .ok (node.proto.toNat % 256) := by
  obtain ⟨hnil, t', turns, i, hsweep, hnode⟩ := h
  obtain ⟨sender, -, hbefore, hafter⟩ := Table.encapsulateLoop_wrote _ hnil hsweep
  obtain rfl := Option.some.inj (hnode.symm.trans hbefore)
  refine ⟨t', turns, _, hsweep, rfl, rfl, ?_⟩
  simp only [sentProto, Option.bind_some, hafter]

theorem Udp.length_eq {ufrm : View} {n : ℕ} (h : 8 ≤ ufrm.len)
    (hlength : word (mem (ufrm.start + 4)) (mem (ufrm.start + 5)) = n) :
    Udp.length mem ufrm = .ok n := by
  unfold Udp.length
  rw [uint16_ok (by omega), Nat.add_assoc _ 4 1, hlength]

theorem Udp.validateSize_clean {ufrm : View} {n : ℕ} (h : 8 ≤ ufrm.len) (hheader : 8 ≤ n)
    (hlength : word (mem (ufrm.start + 4)) (mem (ufrm.start + 5)) = n) (hfits : n ≤ ufrm.len)
    (v : Validator) : Udp.validateSize mem ufrm v = .ok v := by
  unfold Udp.validateSize
  rw [Udp.length_eq h hlength]
  simp only [ok_then, decide_eq_false (Nat.not_lt.2 hheader), decide_eq_false (Nat.not_lt.2 hfits)]
  rfl

/-- A header of the given size and the n bytes of the sending node, but for the places
filled in. -/
structure Delivered (mem : ℕ → UInt8) (packet : View) (start header n proto : ℕ)
    (child : ℕ → UInt8) : Prop where
  start : packet.start = start
  len : packet.len = n + header
  bytes : ∀ k < n, ¬ Filled proto k → mem (packet.start + header + k) = child k
  length : proto = protoUDP →
    word (mem (packet.start + header + 4)) (mem (packet.start + header + 5)) = n
  nonzero : proto = protoUDP →
    word (mem (packet.start + header + 6)) (mem (packet.start + header + 7)) ≠ 0

def pseudo4 (mem : ℕ → UInt8) (start length : ℕ) : ℕ :=
  total (bytesAt mem (start + 12) 8) + length + (mem (start + 9)).toNat

structure Sealed4 (mem : ℕ → UInt8) (start n proto : ℕ) : Prop where
  first : mem start = 0x45
  flags : (word (mem (start + 6)) (mem (start + 7))).testBit 13 = false
  total : V4.totalAt mem start = n + 20
  protocol : (mem (start + 9)).toNat = proto
  header : 65535 ∣ fixedTotal mem start
  datagram : proto = protoUDP → word (mem (start + 20 + 4)) (mem (start + 20 + 5)) = n
  payload : 65535 ∣ pseudo4 mem start n + OnesComplement.total (bytesAt mem (start + 20) n)

section Receive4
variable {mem : ℕ → UInt8} {frame : View} {n proto : ℕ}

theorem pseudo4_le (mem : ℕ → UInt8) (start length : ℕ) :
    pseudo4 mem start length ≤ 262395 + length := by
  have hle := total_le (bytesAt mem (start + 12) 8)
  have hlt := (mem (start + 9)).toNat_lt
  rw [length_bytesAt] at hle
  unfold pseudo4
  omega

theorem protocol_eq (h : 20 ≤ frame.len) :
    V4.protocol mem frame = .ok (mem (frame.start + 9)).toNat := by
  unfold V4.protocol
  rw [index_ok (by omega)]
  rfl

theorem crcWritePseudo4_eq (h : 20 ≤ frame.len) {length : ℕ} (hlength : length < 65536) :
    V4.crcWritePseudo mem frame length = .ok (ofNat (pseudo4 mem frame.start length)) := by
  have hfits := frame.fits
  have hproto := (mem (frame.start + 9)).toNat_lt
  obtain ⟨addrs, haddrs, hbytes⟩ := @bytes_slice mem frame 12 20 (by omega) (by omega)
  have hslice : frame.slice 12 20 = .ok addrs := haddrs
  have hsum : sumWriteEven 0 (addrs.bytes mem) =
      .ok (ofNat (total (bytesAt mem (frame.start + 12) 8))) := by
    rw [hbytes, sumWriteEven_eq _ (by simp), zero_add]
    rfl
  unfold V4.crcWritePseudo
  simp only [hslice, hsum, protocol_eq h, ok_then, addUint16, pseudo4,
    Nat.mod_eq_of_lt hlength, ofNat_add]
  rw [Nat.mod_eq_of_lt (by omega)]
  rfl

section
variable (hlen : n + 20 ≤ frame.len) (hfirst : mem frame.start = 0x45)
  (htotal : V4.totalAt mem frame.start = n + 20)
include hlen hfirst htotal

theorem payload4_eq :
    ∃ data, V4.payload mem frame = .ok data ∧ data.start = frame.start + 20 ∧ data.len = n := by
  have hfits := frame.fits
  have hhead : V4.headerAt mem frame.start = 20 := by
    rw [V4.headerAt, hfirst]
    rfl
  obtain ⟨data, hdata, hstart, hsize, -⟩ := @slice_view frame 20 (n + 20) (by omega) (by omega)
  have hslice : frame.slice (20 : ℕ) (n + 20 : ℕ) = .ok data := hdata
  refine ⟨data, ?_, hstart, by omega⟩
  unfold V4.payload
  rw [V4.headerLength_ok (by omega), V4.totalLength_ok (by omega), hhead, htotal]
  exact hslice

theorem crcWriteTCPPseudo_eq (hn : n + 20 < 65536) :
    V4.crcWriteTCPPseudo mem frame = .ok (ofNat (pseudo4 mem frame.start n)) := by
  have h : 20 ≤ frame.len := by omega
  have hhead : V4.headerAt mem frame.start = 20 := by
    rw [V4.headerAt, hfirst]
    rfl
  have hlength : (n + 20 + 65536 - 20) % 65536 = n := by omega
  unfold V4.crcWriteTCPPseudo
  rw [V4.totalLength_ok h, V4.headerLength_ok h, htotal, hhead]
  simp only [ok_then, hlength]
  exact crcWritePseudo4_eq h (by omega)

end

section
variable (hs : Sealed4 mem frame.start n proto)
include hs

theorem Sealed4.validated (hlen : n + 20 ≤ frame.len)
    (v : Validator) : ∃ vld, V4.validateExceptCRC mem frame v.resetErr = .ok vld ∧
      vld.hasError = false := by
  have h : 20 ≤ frame.len := by omega
  have htotal := hs.total
  unfold V4.validateExceptCRC V4.validateSize V4.isEvil V4.version
  rw [V4.ihl_ok h, V4.totalLength_ok h, uint16_ok (show 6 + 2 ≤ frame.len by omega),
    index_ok (show 0 < frame.len by omega)]
  refine ⟨_, rfl, ?_⟩
  have hflags := hs.flags
  simp only [Validator.hasError_ite, Bool.or_eq_false_iff, decide_eq_false_iff_not, Nat.add_zero,
    hs.first, htotal, Nat.add_assoc, hflags, Bool.and_false]
  refine ⟨trivial, by decide, ?_, by omega, by omega, rfl⟩
  have hfirst : (0x45 : UInt8).toNat = 69 := rfl
  omega

theorem Sealed4.summed (hproto : 0 < proto)
    (hn : n < 65536) {data : View} (hstart : data.start = frame.start + 20) (hlen : data.len = n) :
    payloadSum16 (ofNat (pseudo4 mem frame.start n)) (data.bytes mem) = .ok 0 := by
  have hle := pseudo4_le mem frame.start n
  apply payloadSum16_zero
  · rw [pseudo4, hs.protocol]
    omega
  · rw [length_bytes, hlen]
    omega
  · rw [bytes, hstart, hlen]
    exact hs.payload

section
variable (hlen : n + 20 ≤ frame.len) (hn : n + 20 < 65536) (hkind : Transport proto n)
include hlen hn hkind

theorem Sealed4.checked {vld : Validator}
    (hvld : vld.hasError = false) : checkPayload4 mem frame proto vld = .ok none := by
  have h : 20 ≤ frame.len := by omega
  obtain ⟨data, hdata, hstart, hsize⟩ := payload4_eq hlen hs.first hs.total
  unfold checkPayload4
  rcases hkind with ⟨rfl, -⟩ | ⟨rfl, hheader⟩
  · have hsum := hs.summed (by decide) (by omega) hstart hsize
    have hcrc := crcWriteTCPPseudo_eq hlen hs.first hs.total hn
    simp only [hcrc, hdata, hsum, ok_then]
    rfl
  have hsum := @Sealed4.summed mem frame n protoUDP hs (by decide) (by omega)
  have hfield : word (mem (data.start + 4)) (mem (data.start + 5)) = n := by
    rw [hstart]
    exact hs.datagram rfl
  have hlength := Udp.length_eq (by omega) hfield
  have hvalid := @Udp.validateSize_clean mem data n (by omega) hheader hfield hsize.ge vld
  have hpop : ¬ vld.errPop.1.isSome := by
    rw [Validator.isSome_errPop, hvld]
    decide
  have hfits := data.fits
  obtain ⟨datagram, hslice, hfirst, hrest, -⟩ := @slice_view data 0 n (by omega) (by omega)
  have hcut : data.slice 0 n = .ok datagram := hslice
  have hcrc : V4.crcWriteUDPPseudo mem frame n =
      .ok (ofNat (pseudo4 mem frame.start n)) := crcWritePseudo4_eq h (by omega)
  simp only [hdata, ok_then, Udp.newFrame, if_neg (show ¬ data.len < 8 by omega),
    hvalid, if_neg hpop, hlength, hcrc, hcut, hsum (show datagram.start = frame.start + 20 by
      omega) (show datagram.len = n by omega)]
  rfl

theorem Sealed4.accepted {si4 : StackIp4}
    {carrierData : View} {offset : ℤ} (hframe : carrierData.tail offset = .ok frame)
    (haddr : si4.ip4 = V4.destinationAt mem frame.start) {j : ℕ}
    (hnode : si4.handlers.h.nodeByProto si4.handlers.ids (BitVec.ofNat 16 proto) = some j)
    (reply : Reply) : ∃ packet, demux4 mem si4 carrierData offset reply =
        .ok (demuxTo si4.handlers j packet 20 reply) ∧
      packet.start = frame.start ∧ packet.len = n + 20 := by
  have h : 20 ≤ frame.len := by omega
  have hfits := frame.fits
  have hhead : V4.headerAt mem frame.start = 20 := by
    rw [V4.headerAt, hs.first]
    rfl
  have hus : forUs4 si4 (V4.destinationAt mem frame.start) := by simp [forUs4, haddr]
  obtain ⟨vld, hvld, hok⟩ := hs.validated hlen si4.vld
  have hacc : AcceptsHeader mem frame :=
    (acceptsHeader_iff h (by rw [hs.first]; decide)).2 hs.header
  have hclean : vld.errPop.2.hasError = false := by
    unfold Validator.errPop
    split
    · exact hok
    · rfl
    · rfl
  obtain ⟨packet, hpacket, hstart, hsize, -⟩ :=
    @slice_view frame 0 (n + 20) (Nat.zero_le _) (by omega)
  have hslice : frame.slice 0 (n + 20 : ℕ) = .ok packet := hpacket
  refine ⟨packet, ?_, hstart, hsize⟩
  rw [demux4_header hframe h hus hvld hok, if_pos hacc]
  simp only [deliver4, V4.headerLength_ok h, protocol_eq h, V4.totalLength_ok h, hs.protocol,
    hhead, hs.total, hnode, hs.checked hlen hn hkind hclean, hslice, ok_then]
  rfl

end

end

end Receive4

section Send4
variable {mem : ℕ → UInt8} {frame : View} {n proto : ℕ}

theorem writeHeader4_ok (h : 20 ≤ frame.len) (id : UInt16) {ip4 : List UInt8}
    (hsize : ip4.length = 4) : ∃ written, writeHeader4 mem frame id ip4 = .ok written ∧
      written frame.start = 0x45 ∧ written (frame.start + 6) = 0x40 := by
  have hfits := frame.fits
  unfold writeHeader4
  simp only [put_ok (show 0 < frame.len by omega), put_ok (show 1 < frame.len by omega),
    put16_ok (show 4 + 2 ≤ frame.cap by omega), put16_ok (show 6 + 2 ≤ frame.cap by omega),
    put_ok (show 8 < frame.len by omega), ok_then,
    copyTo_ok (show 12 + ip4.length ≤ frame.cap by omega)]
  refine ⟨_, rfl, ?_, ?_⟩
  · iterate 5 rw [store_outside _ (by omega)]
    simp [store]
  · iterate 2 rw [store_outside _ (by omega)]
    simp [store, split16]

theorem sealHeader4_ok (h : 20 ≤ frame.len) (proto : ℕ) (totalLen : ℤ) :
    ∃ mem', sealHeader4 mem frame proto totalLen = .ok mem' ∧
      V4.totalAt mem' frame.start = uint16Of totalLen % 65536 ∧
      mem' (frame.start + 9) = UInt8.ofNat proto ∧ 65535 ∣ fixedTotal mem' frame.start ∧
      ∀ i, i < frame.start + 2 ∨ frame.start + 4 ≤ i ∧ i < frame.start + 9 ∨
        frame.start + 12 ≤ i → mem' i = mem i := by
  have hfits := frame.fits
  unfold sealHeader4
  simp only [put16_ok (show 2 + 2 ≤ frame.cap by omega), put_ok (show 9 < frame.len by omega),
    put16_ok (show 10 + 2 ≤ frame.cap by omega), ok_then, calculateHeaderCRC_eq h]
  refine ⟨_, rfl, ?_, ?_, ?_, ?_⟩
  · rw [← word_split16]
    simp [V4.totalAt, store, split16]
  · simp [store, split16]
  · rw [store_split16, fixedTotal, ← Nat.zero_add (total _)]
    refine dvd_filled rfl (by omega) (by omega) (UInt16.toNat_lt _) ?_
    have hle := fixedTotal_le (store (store (store mem (frame.start + 2)
      (split16 (uint16Of totalLen))) (frame.start + 9) [UInt8.ofNat proto]) (frame.start + 10)
        (split16 0)) frame.start
    rw [sum16_toNat, toNat_ofNat', Nat.zero_add]
    exact congrArg (complement · % 65535) (Nat.mod_eq_of_lt (by omega))
  · intro i hi
    iterate 4 rw [store_outside _ (by simp; omega)]

theorem fillPayload4_ok (hlen : n + 20 ≤ frame.len) (hn : n + 20 < 65536)
    (hkind : Transport proto n) (hfirst : mem frame.start = 0x45)
    (htotal : V4.totalAt mem frame.start = n + 20) :
    ∃ mem', fillPayload4 mem frame proto n = .ok mem' ∧
      Fills mem mem' (frame.start + 20) n proto (pseudo4 mem frame.start n) := by
  have hle := pseudo4_le mem frame.start n
  obtain ⟨data, hpayload, hstart, hsize⟩ := payload4_eq hlen hfirst htotal
  have hfits := data.fits
  unfold fillPayload4
  simp only [hpayload, bind, Except.bind]
  rcases hkind with ⟨rfl, hheader⟩ | ⟨rfl, hheader⟩
  · rw [if_pos rfl, crcWriteTCPPseudo_eq hlen hfirst htotal hn, ← hstart]
    rw [← hsize] at hheader hle ⊢
    exact fills_tcp hheader (by omega)
  have hcrc : V4.crcWriteUDPPseudo mem frame n =
      .ok (ofNat (pseudo4 mem frame.start n)) :=
    crcWritePseudo4_eq (by omega) (by omega)
  rw [if_neg (by decide), if_pos rfl, uint16Of_natCast (by omega), hcrc, ← hstart]
  simp only [put16_ok (show 4 + 2 ≤ data.cap by omega)]
  rw [← hsize] at hheader hle ⊢
  exact fills_udp hheader (by omega) (by omega)

theorem Sealed4.of_fills {start : ℕ} (hfirst : mem start = 0x45) (hflags : mem (start + 6) = 0x40)
    (htotal : V4.totalAt mem start = n + 20) (hproto : (mem (start + 9)).toNat = proto)
    (hheader : 65535 ∣ fixedTotal mem start)
    (hfills : Fills mem mem' (start + 20) n proto (pseudo4 mem start n)) :
    Sealed4 mem' start n proto := by
  have hsame : ∀ k < 20, mem' (start + k) = mem (start + k) := by
    intro k hk
    exact hfills.others _ (.inl (by omega))
  have haddrs : bytesAt mem' (start + 12) 8 = bytesAt mem (start + 12) 8 := by
    apply bytesAt_congr
    intro k hk
    exact hfills.others _ (.inl (by omega))
  refine ⟨(hsame 0 (by omega)).trans hfirst, ?_, ?_, ?_, ?_, hfills.length, ?_⟩
  · rw [hsame 6 (by omega), hflags, Nat.testBit_eq_decide_div_mod_eq]
    have hlow := (mem' (start + 7)).toNat_lt
    have hhigh : (0x40 : UInt8).toNat = 64 := rfl
    apply decide_eq_false
    rw [word, hhigh]
    omega
  · rw [V4.totalAt, hsame 2 (by omega), hsame 3 (by omega)]
    exact htotal
  · rw [hsame 9 (by omega)]
    exact hproto
  · rw [fixedTotal, bytesAt_congr hsame]
    exact hheader
  · rw [pseudo4, haddrs, hsame 9 (by omega)]
    exact hfills.sum

/-- The callbacks leave the version, the header length and the flags as they are. -/
def KeepsShape (sweep : Effect) (start : ℕ) : Prop :=
  ∀ mem, sweep mem start = mem start ∧ sweep mem (start + 6) = mem (start + 6)

theorem encapsulate4_sealed {si4 : Egress4} {carrierData : View} {offset : ℤ}
    {replies : List Reply} {sweep : Effect} {node : Node}
    (hframe : carrierData.tail offset = .ok frame) (hmtu : minimumMTU ≤ frame.len)
    (hlen : n + 20 ≤ frame.len) (hn : n + 20 < 65536) (hsends : Sends si4.handlers replies node n)
    (hkind : Transport (node.proto.toNat % 256) n) (hkeeps : KeepsShape sweep frame.start) :
    ∃ written sent, writeHeader4 mem frame (nextID si4) si4.ip4 = .ok written ∧
      encapsulate4 mem si4 carrierData offset replies sweep = .ok sent ∧
      sent.n = n + 20 ∧ sent.err = none ∧ Sealed4 sent.mem frame.start n (node.proto.toNat % 256) ∧
      (∀ i, frame.start + 12 ≤ i → i < frame.start + 20 ∨
        ¬ Filled (node.proto.toNat % 256) (i - (frame.start + 20)) → sent.mem i = sweep written i) ∧
      (node.proto.toNat % 256 = protoUDP →
        word (sent.mem (frame.start + 20 + 6)) (sent.mem (frame.start + 20 + 7)) ≠ 0) := by
  have hroom : 20 ≤ frame.len := by omega
  obtain ⟨t', turns, report, hsweep, hcount, herr, hproto⟩ := hsends.proto
  obtain ⟨written, hwritten, hfirst, hflags⟩ :=
    @writeHeader4_ok mem frame hroom (nextID si4) _ si4.size
  obtain ⟨headed, hheaded, htotal, hbyte, hheader, hrest⟩ :=
    @sealHeader4_ok (sweep written) frame hroom (node.proto.toNat % 256) (n + 20)
  have hlength : V4.totalAt headed frame.start = n + 20 := by
    rw [htotal, uint16Of]
    omega
  have hstart : headed frame.start = 0x45 := by
    rw [hrest _ (.inl (by omega)), (hkeeps written).1, hfirst]
  have hfrag : headed (frame.start + 6) = 0x40 := by
    rw [hrest _ (.inr (.inl ⟨by omega, by omega⟩)), (hkeeps written).2, hflags]
  have hnumber : (headed (frame.start + 9)).toNat = node.proto.toNat % 256 := by
    rw [hbyte, UInt8.toNat_ofNat', Nat.mod_mod]
  obtain ⟨filled, hfilled, hfills⟩ := fillPayload4_ok hlen hn hkind hstart hlength
  refine ⟨written, ⟨{ si4 with handlers := t', ipID := nextID si4 }, filled, n + 20, none⟩,
    hwritten, ?_, rfl, rfl, .of_fills hstart hfrag hlength hnumber hheader hfills, ?_,
    hfills.nonzero⟩
  · have hpos : ¬ (n : ℤ) = 0 := by rcases hkind with ⟨-, h⟩ | ⟨-, h⟩ <;> omega
    simp only [encapsulate4, hframe, ok_then, if_neg (Nat.not_lt.2 hmtu), hwritten,
      hsweep, hcount, if_neg hpos, hproto, hheaded, hfilled, herr]
    rfl
  · intro i hi hplain
    exact (hfills.others i hplain).trans (hrest i (.inr (.inr hi)))

end Send4

theorem Sealed4.copy {start start' n proto : ℕ} (hs : Sealed4 mem start n proto)
    (hkind : Transport proto n) (hcopy : bytesAt mem' start' (n + 20) = bytesAt mem start (n + 20))
    : Sealed4 mem' start' n proto := by
  have hget : ∀ k < n + 20, mem' (start' + k) = mem (start + k) := fun k => eq_of_bytesAt hcopy
  refine ⟨(hget 0 (by omega)).trans hs.first, ?_, ?_, ?_, ?_, ?_, ?_⟩
  · rw [hget 6 (by omega), hget 7 (by omega)]
    exact hs.flags
  · rw [V4.totalAt, hget 2 (by omega), hget 3 (by omega)]
    exact hs.total
  · rw [hget 9 (by omega)]
    exact hs.protocol
  · rw [fixedTotal, bytesAt_congr fun k hk => hget k (by omega)]
    exact hs.header
  · intro hudp
    have hlen : 8 ≤ n := by rcases hkind with ⟨-, h⟩ | ⟨-, h⟩ <;> omega
    rw [Nat.add_assoc, Nat.add_assoc, hget _ (by omega), hget _ (by omega)]
    exact hs.datagram hudp
  rw [pseudo4, bytesAt_part hcopy (by omega), hget 9 (by omega), bytesAt_part hcopy (by omega)]
  exact hs.payload

def pseudo6 (mem : ℕ → UInt8) (start length : ℕ) : ℕ :=
  total (bytesAt mem (start + 8) 32) + length + (mem (start + 6)).toNat

structure Sealed6 (mem : ℕ → UInt8) (start n proto : ℕ) : Prop where
  length : V6.lengthAt mem start = n
  protocol : (mem (start + 6)).toNat = proto
  datagram : proto = protoUDP → word (mem (start + 40 + 4)) (mem (start + 40 + 5)) = n
  payload : 65535 ∣ pseudo6 mem start n + total (bytesAt mem (start + 40) n)

section Receive6
variable {mem : ℕ → UInt8} {frame : View} {n proto : ℕ}

theorem pseudo6_le (mem : ℕ → UInt8) (start length : ℕ) :
    pseudo6 mem start length ≤ 1048815 + length := by
  have hle := total_le (bytesAt mem (start + 8) 32)
  have hlt := (mem (start + 6)).toNat_lt
  rw [length_bytesAt] at hle
  unfold pseudo6
  omega

theorem addUint32_small (sum : UInt32) {value : ℕ} (h : value < 65536) :
    addUint32 sum value = sum + ofNat value := by
  have hhigh : value / 65536 = 0 := by omega
  simp only [addUint32, addUint16, hhigh, Nat.mod_eq_of_lt h]
  exact congrArg (· + ofNat value) (UInt32.add_zero sum)

theorem crcWritePseudo6_eq (h : 40 ≤ frame.len) : V6.crcWritePseudo mem frame =
      .ok (ofNat (pseudo6 mem frame.start (V6.lengthAt mem frame.start))) := by
  have hfits := frame.fits
  have hproto := (mem (frame.start + 6)).toNat_lt
  obtain ⟨addrs, haddrs, hbytes⟩ := @bytes_slice mem frame 8 40 (by omega) (by omega)
  have hslice : frame.slice 8 40 = .ok addrs := haddrs
  have hsum : sumWriteEven 0 (addrs.bytes mem) =
      .ok (ofNat (total (bytesAt mem (frame.start + 8) 32))) := by
    rw [hbytes, sumWriteEven_eq _ (by simp), zero_add]
    rfl
  have hword : V6.lengthAt mem frame.start < 65536 := word_lt _ _
  unfold V6.crcWritePseudo
  simp only [hslice, hsum, V6.payloadLength_ok h, V6.nextHeader_ok h, ok_then, pseudo6]
  rw [addUint32_small _ hword, addUint32_small _ (by omega), ofNat_add, ofNat_add]
  rfl

theorem payload6_eq (hlen : n + 40 ≤ frame.len) (hn : n + 40 < 65536)
    (hlength : V6.lengthAt mem frame.start = n) :
    ∃ data, V6.payload mem frame = .ok data ∧ data.start = frame.start + 40 ∧ data.len = n := by
  have hfits := frame.fits
  obtain ⟨data, hdata, hstart, hsize, -⟩ := @slice_view frame 40 (40 + n) (by omega) (by omega)
  have hslice : frame.slice 40 (40 + n : ℕ) = .ok data := hdata
  refine ⟨data, ?_, hstart, by omega⟩
  unfold V6.payload
  rw [V6.payloadLength_ok (by omega), hlength]
  simp only [ok_then, Nat.mod_eq_of_lt (show 40 + n < 65536 by omega)]
  exact hslice

section
variable (hs : Sealed6 mem frame.start n proto) (hlen : n + 40 ≤ frame.len) (hn : n + 40 < 65536)
  (hkind : Transport proto n)
include hs hlen hn hkind

theorem Sealed6.checked {data : View}
    (hstart : data.start = frame.start + 40) (hsize : data.len = n) {vld : Validator}
    (hvld : vld.hasError = false) : checkPayload6 mem frame data proto vld = .ok none := by
  have hle := pseudo6_le mem frame.start n
  have hcrc := @crcWritePseudo6_eq mem frame (by omega)
  rw [hs.length] at hcrc
  have hpos : 0 < proto := by rcases hkind with ⟨rfl, -⟩ | ⟨rfl, -⟩ <;> decide
  have hsum : payloadSum16 (ofNat (pseudo6 mem frame.start n)) (data.bytes mem) =
      .ok 0 := by
    apply payloadSum16_zero
    · rw [pseudo6, hs.protocol]
      omega
    · rw [length_bytes, hsize]
      omega
    · rw [bytes, hstart, hsize]
      exact hs.payload
  unfold checkPayload6
  rcases hkind with ⟨rfl, -⟩ | ⟨rfl, hheader⟩
  · simp only [hcrc, hsum, ok_then]
    rfl
  have hvalid := @Udp.validateSize_clean mem data n (by omega) hheader
    (by rw [hstart, hs.datagram rfl]) hsize.ge vld
  have hpop : ¬ vld.errPop.1.isSome := by
    rw [Validator.isSome_errPop, hvld]
    decide
  simp only [ok_then, Udp.newFrame, if_neg (show ¬ data.len < 8 by omega),
    hvalid, if_neg hpop, hcrc, hsum]
  rfl

theorem Sealed6.accepted {si6 : StackIp6} {carrierData : View}
    {offset : ℤ} (hframe : carrierData.tail offset = .ok frame)
    (haddr : si6.ip6 = V6.destinationAt mem frame.start) {j : ℕ}
    (hnode : si6.handlers.h.nodeByProto si6.handlers.ids (BitVec.ofNat 16 proto) = some j)
    (reply : Reply) : ∃ packet, demux6 mem si6 carrierData offset reply =
        .ok (demuxTo si6.handlers j packet 40 reply) ∧
      packet.start = frame.start ∧ packet.len = n + 40 := by
  have h : 40 ≤ frame.len := by omega
  have hfits := carrierData.fits
  have hus : forUs6 si6 (V6.destinationAt mem frame.start) := by simp [forUs6, haddr]
  obtain ⟨data, hdata, hstart, hsize⟩ := payload6_eq hlen hn hs.length
  have hvalid : V6.validateSize mem frame si6.vld.resetErr = .ok si6.vld.resetErr := by
    unfold V6.validateSize
    rw [V6.payloadLength_ok h, hs.length]
    simp only [ok_then, decide_eq_false (Nat.not_lt.2 hlen)]
    rfl
  have hcheck := hs.checked hlen hn hkind hstart hsize (show si6.vld.resetErr.hasError = false from
    rfl)
  obtain ⟨m, rfl, hm, hfirst, hrest⟩ := tail_inv hframe
  obtain ⟨packet, hpacket, hbegin, hcut, -⟩ :=
    @slice_view carrierData m (m + 40 + n) (by omega) (by omega)
  push_cast at hpacket
  refine ⟨packet, ?_, by omega, by omega⟩
  unfold demux6
  simp only [hframe, ok_then, V6.newFrame, if_neg (Nat.not_lt.2 h),
    V6.destinationAddr_ok h, hus, Bool.not_true, Bool.false_eq_true, if_false, hvalid,
    V6.nextHeader_ok h, hs.protocol, hnode, hdata, V6.payloadLength_ok h, hs.length]
  have hpop : si6.vld.resetErr.errPop = (none, si6.vld.resetErr) := rfl
  simp only [hpop, hcheck, Option.isSome_none, Bool.false_eq_true, if_false, hpacket]
  rfl

end

end Receive6

section Send6
variable {mem : ℕ → UInt8} {frame : View} {n proto : ℕ}

theorem writeHeader6_ok (h : 40 ≤ frame.len) {ip6 : List UInt8} (hsize : ip6.length = 16) :
    ∃ written, writeHeader6 mem frame ip6 = .ok written := by
  have hfits := frame.fits
  unfold writeHeader6
  simp only [copyTo_ok (show 0 + ([0x60, 0, 0, 0] : List UInt8).length ≤ frame.cap by simp; omega),
    put_ok (show 7 < frame.len by omega), ok_then,
    copyTo_ok (show 8 + ip6.length ≤ frame.cap by omega)]
  exact ⟨_, rfl⟩

theorem sealHeader6_ok (h : 40 ≤ frame.len) (proto : ℕ) (hn : n < 65536) :
    ∃ mem', sealHeader6 mem frame proto n = .ok mem' ∧ V6.lengthAt mem' frame.start = n ∧
      mem' (frame.start + 6) = UInt8.ofNat proto ∧ ∀ i, frame.start + 7 ≤ i → mem' i = mem i := by
  have hfits := frame.fits
  unfold sealHeader6
  simp only [put16_ok (show 4 + 2 ≤ frame.cap by omega), put_ok (show 6 < frame.len by omega),
    ok_then, uint16Of_natCast hn]
  refine ⟨_, rfl, ?_, ?_, ?_⟩
  · have hsplit : word (UInt8.ofNat (n / 256)) (UInt8.ofNat n) = n := by
      rw [word_split16, Nat.mod_eq_of_lt hn]
    simpa [V6.lengthAt, store, split16] using hsplit
  · simp [store, split16]
  · intro i hi
    iterate 2 rw [store_outside _ (by simp; omega)]

theorem fillPayload6_ok (hlen : n + 40 ≤ frame.len) (hn : n + 40 < 65536)
    (hkind : Transport proto n) (hlength : V6.lengthAt mem frame.start = n) :
    ∃ mem', fillPayload6 mem frame proto n = .ok mem' ∧
      Fills mem mem' (frame.start + 40) n proto (pseudo6 mem frame.start n) := by
  have h : 40 ≤ frame.len := by omega
  have hle := pseudo6_le mem frame.start n
  obtain ⟨data, hpayload, hstart, hcount⟩ := payload6_eq hlen hn hlength
  have hfits := data.fits
  unfold fillPayload6
  simp only [hpayload, bind, Except.bind]
  rcases hkind with ⟨rfl, hheader⟩ | ⟨rfl, hheader⟩
  · rw [if_pos rfl, crcWritePseudo6_eq h, hlength, ← hstart]
    rw [← hcount] at hheader hle ⊢
    exact fills_tcp hheader (by omega)
  -- the length is written before the pseudo header is read, which it is no part of
  have hsame : ∀ k < 40, store mem (data.start + 4) (split16 n) (frame.start + k) =
      mem (frame.start + k) := by
    intro k hk
    exact store_outside mem (.inl (by omega))
  have hlengthAt : V6.lengthAt (store mem (data.start + 4) (split16 n)) frame.start = n := by
    rw [V6.lengthAt, hsame 4 (by omega), hsame 5 (by omega)]
    exact hlength
  have hpseudo : pseudo6 (store mem (data.start + 4) (split16 n)) frame.start n =
      pseudo6 mem frame.start n := by
    rw [pseudo6, bytesAt_store_apart (.inl (by omega)), hsame 6 (by omega)]
    rfl
  rw [if_neg (by decide), if_pos rfl, uint16Of_natCast (by omega),
    put16_ok (show 4 + 2 ≤ data.cap by omega)]
  simp only
  rw [crcWritePseudo6_eq h, hlengthAt, hpseudo, ← hstart]
  rw [← hcount] at hheader hle ⊢
  exact fills_udp hheader (by omega) (by omega)

theorem Sealed6.of_fills {start : ℕ} (hlength : V6.lengthAt mem start = n)
    (hproto : (mem (start + 6)).toNat = proto)
    (hfills : Fills mem mem' (start + 40) n proto (pseudo6 mem start n)) :
    Sealed6 mem' start n proto := by
  have hsame : ∀ k < 40, mem' (start + k) = mem (start + k) := by
    intro k hk
    exact hfills.others _ (.inl (by omega))
  have haddrs : bytesAt mem' (start + 8) 32 = bytesAt mem (start + 8) 32 := by
    apply bytesAt_congr
    intro k hk
    exact hfills.others _ (.inl (by omega))
  refine ⟨?_, ?_, hfills.length, ?_⟩
  · rw [V6.lengthAt, hsame 4 (by omega), hsame 5 (by omega)]
    exact hlength
  · rw [hsame 6 (by omega)]
    exact hproto
  · rw [pseudo6, haddrs, hsame 6 (by omega)]
    exact hfills.sum

theorem encapsulate6_sealed {si6 : Egress6} {carrierData : View} {offset : ℤ} {replies : List Reply}
    {sweep : Effect} {node : Node} (hframe : carrierData.tail offset = .ok frame)
    (hlen : n + 40 ≤ frame.len) (hn : n + 40 < 65536) (hsends : Sends si6.handlers replies node n)
    (hkind : Transport (node.proto.toNat % 256) n) :
    ∃ written sent, writeHeader6 mem frame si6.ip6 = .ok written ∧
      encapsulate6 mem si6 carrierData offset replies sweep = .ok sent ∧
      sent.n = n + 40 ∧ sent.err = none ∧ Sealed6 sent.mem frame.start n (node.proto.toNat % 256) ∧
      (∀ i, frame.start + 7 ≤ i → i < frame.start + 40 ∨
        ¬ Filled (node.proto.toNat % 256) (i - (frame.start + 40)) → sent.mem i = sweep written i) ∧
      (node.proto.toNat % 256 = protoUDP →
        word (sent.mem (frame.start + 40 + 6)) (sent.mem (frame.start + 40 + 7)) ≠ 0) := by
  have hroom : 40 ≤ frame.len := by omega
  obtain ⟨t', turns, report, hsweep, hcount, herr, hproto⟩ := hsends.proto
  obtain ⟨written, hwritten⟩ := @writeHeader6_ok mem frame hroom _ si6.size
  obtain ⟨headed, hheaded, hlength, hbyte, hrest⟩ :=
    @sealHeader6_ok (sweep written) frame n hroom (node.proto.toNat % 256) (by omega)
  have hnumber : (headed (frame.start + 6)).toNat = node.proto.toNat % 256 := by
    rw [hbyte, UInt8.toNat_ofNat', Nat.mod_mod]
  obtain ⟨filled, hfilled, hfills⟩ := fillPayload6_ok hlen hn hkind hlength
  refine ⟨written, ⟨{ si6 with handlers := t' }, filled, n + 40, none⟩, hwritten, ?_, rfl, rfl,
    .of_fills hlength hnumber hfills, ?_, hfills.nonzero⟩
  · have hpos : ¬ (n : ℤ) = 0 := by rcases hkind with ⟨-, h⟩ | ⟨-, h⟩ <;> omega
    simp only [encapsulate6, hframe, ok_then, V6.newFrame, if_neg (Nat.not_lt.2 hroom),
      hwritten, hsweep, hcount, if_neg hpos, hproto, hheaded, hfilled, herr, Int.add_comm 40]
    rfl
  · intro i hi hplain
    exact (hfills.others i hplain).trans (hrest i hi)

end Send6

theorem Sealed6.copy {start start' n proto : ℕ} (hs : Sealed6 mem start n proto)
    (hkind : Transport proto n) (hcopy : bytesAt mem' start' (n + 40) = bytesAt mem start (n + 40))
    : Sealed6 mem' start' n proto := by
  have hget : ∀ k < n + 40, mem' (start' + k) = mem (start + k) := fun k => eq_of_bytesAt hcopy
  refine ⟨?_, ?_, ?_, ?_⟩
  · rw [V6.lengthAt, hget 4 (by omega), hget 5 (by omega)]
    exact hs.length
  · rw [hget 6 (by omega)]
    exact hs.protocol
  · intro hudp
    have hlen : 8 ≤ n := by rcases hkind with ⟨-, h⟩ | ⟨-, h⟩ <;> omega
    rw [Nat.add_assoc, Nat.add_assoc, hget _ (by omega), hget _ (by omega)]
    exact hs.datagram hudp
  rw [pseudo6, bytesAt_part hcopy (by omega), hget 6 (by omega), bytesAt_part hcopy (by omega)]
  exact hs.payload

/-- Every stack with the address and a node for the protocol takes in the packet, out of any
memory that holds it, and passes the child's bytes to that node. -/
def Received4 (mem : ℕ → UInt8) (start n proto : ℕ) (dst : List UInt8) (child : ℕ → UInt8) :
    Prop :=
  ∀ (mem' : ℕ → UInt8) (carrierData frame : View) (offset : ℤ) (si4 : StackIp4) (j : ℕ)
    (reply : Reply), carrierData.tail offset = .ok frame → n + 20 ≤ frame.len →
    bytesAt mem' frame.start (n + 20) = bytesAt mem start (n + 20) → si4.ip4 = dst →
    si4.handlers.h.nodeByProto si4.handlers.ids (BitVec.ofNat 16 proto) = some j →
    ∃ packet, demux4 mem' si4 carrierData offset reply =
        .ok (demuxTo si4.handlers j packet 20 reply) ∧
      Delivered mem' packet frame.start 20 n proto child

def Received6 (mem : ℕ → UInt8) (start n proto : ℕ) (dst : List UInt8) (child : ℕ → UInt8) :
    Prop :=
  ∀ (mem' : ℕ → UInt8) (carrierData frame : View) (offset : ℤ) (si6 : StackIp6) (j : ℕ)
    (reply : Reply), carrierData.tail offset = .ok frame → n + 40 ≤ frame.len →
    bytesAt mem' frame.start (n + 40) = bytesAt mem start (n + 40) → si6.ip6 = dst →
    si6.handlers.h.nodeByProto si6.handlers.ids (BitVec.ofNat 16 proto) = some j →
    ∃ packet, demux6 mem' si6 carrierData offset reply =
        .ok (demuxTo si6.handlers j packet 40 reply) ∧
      Delivered mem' packet frame.start 40 n proto child

theorem Delivered.of_copy {child : ℕ → UInt8} {packet : View} {start start' header n proto : ℕ}
    (hkind : Transport proto n)
    (hcopy : bytesAt mem' start' (n + header) = bytesAt mem start (n + header))
    (hstart : packet.start = start') (hlen : packet.len = n + header)
    (hbytes : ∀ k < n, ¬ Filled proto k → mem (start + header + k) = child k)
    (hlength : proto = protoUDP → word (mem (start + header + 4)) (mem (start + header + 5)) = n)
    (hnonzero : proto = protoUDP → word (mem (start + header + 6)) (mem (start + header + 7)) ≠ 0) :
    Delivered mem' packet start' header n proto child := by
  have hsize : 8 ≤ n := by rcases hkind with ⟨-, h⟩ | ⟨-, h⟩ <;> omega
  have hget : ∀ k < n, mem' (start' + header + k) = mem (start + header + k) := by
    intro k hk
    rw [Nat.add_assoc, Nat.add_assoc]
    exact eq_of_bytesAt hcopy (by omega)
  refine ⟨hstart, hlen, ?_, ?_, ?_⟩
  · intro k hk hplain
    rw [hstart, hget k hk]
    exact hbytes k hk hplain
  · intro hudp
    rw [hstart, hget 4 (by omega), hget 5 (by omega)]
    exact hlength hudp
  intro hudp
  rw [hstart, hget 6 (by omega), hget 7 (by omega)]
  exact hnonzero hudp

theorem Sealed4.received {start n proto : ℕ} {child : ℕ → UInt8} (hs : Sealed4 mem start n proto)
    (hn : n + 20 < 65536) (hkind : Transport proto n)
    (hbytes : ∀ k < n, ¬ Filled proto k → mem (start + 20 + k) = child k)
    (hnonzero : proto = protoUDP → word (mem (start + 20 + 6)) (mem (start + 20 + 7)) ≠ 0) :
    Received4 mem start n proto (V4.destinationAt mem start) child := by
  intro mem' carrierData frame offset si4 j reply hframe hlen hcopy haddr hnode
  have hdst : V4.destinationAt mem' frame.start = V4.destinationAt mem start :=
    bytesAt_part hcopy (show 16 + 4 ≤ n + 20 by omega)
  obtain ⟨packet, hdemux, hstart, hsize⟩ := (hs.copy hkind hcopy).accepted hlen hn hkind hframe
    (haddr.trans hdst.symm) hnode reply
  exact ⟨packet, hdemux, .of_copy hkind hcopy hstart hsize hbytes hs.datagram hnonzero⟩

theorem Sealed6.received {start n proto : ℕ} {child : ℕ → UInt8} (hs : Sealed6 mem start n proto)
    (hn : n + 40 < 65536) (hkind : Transport proto n)
    (hbytes : ∀ k < n, ¬ Filled proto k → mem (start + 40 + k) = child k)
    (hnonzero : proto = protoUDP → word (mem (start + 40 + 6)) (mem (start + 40 + 7)) ≠ 0) :
    Received6 mem start n proto (V6.destinationAt mem start) child := by
  intro mem' carrierData frame offset si6 j reply hframe hlen hcopy haddr hnode
  have hdst : V6.destinationAt mem' frame.start = V6.destinationAt mem start :=
    bytesAt_part hcopy (show 24 + 16 ≤ n + 40 by omega)
  obtain ⟨packet, hdemux, hstart, hsize⟩ := (hs.copy hkind hcopy).accepted hlen hn hkind hframe
    (haddr.trans hdst.symm) hnode reply
  exact ⟨packet, hdemux, .of_copy hkind hcopy hstart hsize hbytes hs.datagram hnonzero⟩

/-- A node for TCP or UDP writes n bytes behind the header of either version, into a buffer of at
most 65535 bytes. The IPv4 stack refuses a buffer below its minimum; all other packets are sent
and received with the bytes of the node. -/
theorem packets_arrive (mem : ℕ → UInt8) {carrierData frame : View} {offset : ℤ} {node : Node}
    {n : ℕ} (replies : List Reply) (sweep : Effect) (hframe : carrierData.tail offset = .ok frame)
    (hsize : frame.len ≤ 65535) (hkind : Transport node.proto.toNat n) :
    (∀ si4 : Egress4, Sends si4.handlers replies node n → n + 20 ≤ frame.len →
      KeepsShape sweep frame.start →
      ∃ sent, encapsulate4 mem si4 carrierData offset replies sweep = .ok sent ∧
        (frame.len < minimumMTU ∧ sent.n = 0 ∧ sent.err = some .shortBuffer ∨
          sent.n = n + 20 ∧ sent.err = none ∧
          ∃ written, writeHeader4 mem frame (nextID si4) si4.ip4 = .ok written ∧
            Received4 sent.mem frame.start n node.proto.toNat
              (V4.destinationAt (sweep written) frame.start)
              (fun k => sweep written (frame.start + 20 + k)))) ∧
    ∀ si6 : Egress6, Sends si6.handlers replies node n → n + 40 ≤ frame.len →
      ∃ sent, encapsulate6 mem si6 carrierData offset replies sweep = .ok sent ∧
        sent.n = n + 40 ∧ sent.err = none ∧
        ∃ written, writeHeader6 mem frame si6.ip6 = .ok written ∧
          Received6 sent.mem frame.start n node.proto.toNat
            (V6.destinationAt (sweep written) frame.start)
            (fun k => sweep written (frame.start + 40 + k)) := by
  have hbyte : node.proto.toNat % 256 = node.proto.toNat := by
    rcases hkind with ⟨h, -⟩ | ⟨h, -⟩ <;> rw [h] <;> rfl
  constructor
  · intro si4 hsends hlen hkeeps
    by_cases hmtu : frame.len < minimumMTU
    · refine ⟨⟨si4, mem, 0, some .shortBuffer⟩, ?_, .inl ⟨hmtu, rfl, rfl⟩⟩
      simp only [encapsulate4, hframe, ok_then, if_pos hmtu]
      rfl
    obtain ⟨written, sent, hwritten, hsent, hn, herr, hsealed, hothers, hnonzero⟩ :=
      @encapsulate4_sealed mem frame n si4 carrierData offset replies sweep node hframe
        (not_lt.1 hmtu) hlen (by omega) hsends (by rw [hbyte]; exact hkind) hkeeps
    rw [hbyte] at hsealed hothers hnonzero
    refine ⟨sent, hsent, .inr ⟨hn, herr, written, hwritten, ?_⟩⟩
    have hdst : V4.destinationAt sent.mem frame.start =
        V4.destinationAt (sweep written) frame.start := by
      apply bytesAt_congr
      intro k hk
      exact hothers _ (by omega) (.inl (by omega))
    rw [← hdst]
    refine hsealed.received (by omega) hkind ?_ hnonzero
    intro k _ hplain
    exact hothers _ (by omega) (.inr (by rw [Nat.add_sub_cancel_left]; exact hplain))
  intro si6 hsends hlen
  obtain ⟨written, sent, hwritten, hsent, hn, herr, hsealed, hothers, hnonzero⟩ :=
    @encapsulate6_sealed mem frame n si6 carrierData offset replies sweep node hframe hlen
      (by omega) hsends (by rw [hbyte]; exact hkind)
  rw [hbyte] at hsealed hothers hnonzero
  refine ⟨sent, hsent, hn, herr, written, hwritten, ?_⟩
  have hdst : V6.destinationAt sent.mem frame.start =
      V6.destinationAt (sweep written) frame.start := by
    apply bytesAt_congr
    intro k hk
    exact hothers _ (by omega) (.inl (by omega))
  rw [← hdst]
  refine hsealed.received (by omega) hkind ?_ hnonzero
  intro k _ hplain
  exact hothers _ (by omega) (.inr (by rw [Nat.add_sub_cancel_left]; exact hplain))

def udpNodes : Table where
  h := { nodes := [{ callbacks := some 0, proto := 17 }], cap := 1 }

def sender4 : Egress4 := ⟨⟨udpNodes, {}, [10, 0, 0, 1], false, false⟩, 7, rfl⟩

def sender6 : Egress6 := ⟨⟨udpNodes, {}, List.replicate 16 1, false⟩, rfl⟩

def datagram : Effect := fun mem => store mem 30 [10, 0, 0, 2, 31, 144, 0, 53, 0, 0, 0, 0, 7]

theorem packets_arrive_datagram :
    (∃ sent, encapsulate4 (fun _ => 0xaa) sender4 ⟨0, 100, 100, le_rfl⟩ 14 [{ n := 9 }] datagram =
      .ok sent ∧ sent.n = 29 ∧ ∃ packet, demux4 sent.mem ⟨udpNodes, {}, [10, 0, 0, 2], false, false⟩
        ⟨0, 100, 100, le_rfl⟩ 14 {} = .ok (demuxTo udpNodes 0 packet 20 {})) ∧
    ∃ sent, encapsulate6 (fun _ => 0xaa) sender6 ⟨0, 100, 100, le_rfl⟩ 14 [{ n := 9 }] datagram =
      .ok sent ∧ sent.n = 49 ∧ ∃ ip6 packet, demux6 sent.mem ⟨udpNodes, {}, ip6, false⟩
        ⟨0, 100, 100, le_rfl⟩ 14 {} = .ok (demuxTo udpNodes 0 packet 40 {}) := by
  have hsends : Sends udpNodes [{ n := 9 }] { callbacks := some 0, proto := 17 } 9 :=
    ⟨by decide, _, _, 0, rfl, rfl⟩
  have hkeeps : KeepsShape datagram 14 := fun mem =>
    ⟨store_outside mem (.inl (by omega)), store_outside mem (.inl (by omega))⟩
  obtain ⟨h4, h6⟩ := @packets_arrive (fun _ => 0xaa) ⟨0, 100, 100, le_rfl⟩ ⟨14, 86, 86, le_rfl⟩ 14
    { callbacks := some 0, proto := 17 } 9 [{ n := 9 }] datagram rfl (by decide)
    (.inr ⟨rfl, by decide⟩)
  obtain ⟨sent4, hsent4, ⟨hlow, -⟩ | ⟨hn4, -, _, -, hrec4⟩⟩ := h4 sender4 hsends (by decide) hkeeps
  · exact absurd hlow (by decide)
  obtain ⟨sent6, hsent6, hn6, -, _, -, hrec6⟩ := h6 sender6 hsends (by decide)
  obtain ⟨packet4, hd4, -⟩ := hrec4 sent4.mem ⟨0, 100, 100, le_rfl⟩ ⟨14, 86, 86, le_rfl⟩ 14
    ⟨udpNodes, {}, [10, 0, 0, 2], false, false⟩ 0 {} rfl (by decide) rfl rfl (by decide)
  obtain ⟨packet6, hd6, -⟩ := hrec6 sent6.mem ⟨0, 100, 100, le_rfl⟩ ⟨14, 86, 86, le_rfl⟩ 14
    ⟨udpNodes, {}, _, false⟩ 0 {} rfl (by decide) rfl rfl rfl
  exact ⟨⟨sent4, hsent4, hn4, packet4, hd4⟩, sent6, hsent6, hn6, _, packet6, hd6⟩

end Lneto.IpRoundTrip
