import Lneto.EthernetIngress

/-!
Received IP packets. Buffer, total or payload length, header length and UDP
length are chosen by the sender or the link. A packet that passes all checks
reaches the node of its protocol, cut to its own length.
-/
namespace Lneto.IpIngress

open StackNodes hiding Fault
open Views View EthernetIngress
open Validator

def sum16 (sum : UInt32) : UInt16 :=
  let sum := (sum &&& (0xffff : UInt32)) + (sum >>> (16 : UInt32))
  ~~~ (sum + (sum >>> (16 : UInt32))).toUInt16

/-- Panics on an odd number of bytes. -/
def sumWriteEven (sum : UInt32) : List UInt8 → Except Fault UInt32
  | [] => .ok sum
  | [_] => .error .indexOutOfRange
  | high :: low :: rest => sumWriteEven (sum + UInt32.ofNat (word high low)) rest

def addUint16 (sum : UInt32) (value : ℕ) : UInt32 := sum + UInt32.ofNat (value % 65536)

def addUint32 (sum : UInt32) (value : ℕ) : UInt32 :=
  addUint16 (addUint16 sum (value / 65536)) value

def payloadSum16 (sum : UInt32) (buff : List UInt8) : Except Fault UInt16 := do
  let odd := buff.length % 2
  let sum ← sumWriteEven sum (buff.take (buff.length - odd))
  return sum16 (if 0 < odd then sum + ((buff.getLastD 0).toUInt32 <<< (8 : UInt32)) else sum)

theorem sumWriteEven_ok (n : ℕ) : ∀ (sum : UInt32) (buff : List UInt8), buff.length = 2 * n →
    ∃ sum', sumWriteEven sum buff = .ok sum' := by
  induction n with
  | zero =>
    intro sum buff h
    obtain rfl := List.length_eq_zero_iff.1 h
    exact ⟨sum, rfl⟩
  | succ n ih =>
  intro sum buff h
  match buff, h with
  | high :: low :: rest, h =>
    exact ih _ rest (by simp only [List.length_cons] at h; omega)

theorem payloadSum16_ok (sum : UInt32) (buff : List UInt8) :
    ∃ crc, payloadSum16 sum buff = .ok crc := by
  obtain ⟨sum', hsum⟩ := sumWriteEven_ok (buff.length / 2) sum
    (buff.take (buff.length - buff.length % 2)) (by rw [List.length_take]; omega)
  have hcrc : payloadSum16 sum buff = (sumWriteEven sum
      (buff.take (buff.length - buff.length % 2))) >>= fun sum => pure (sum16 (if
        0 < buff.length % 2 then sum + ((buff.getLastD 0).toUInt32 <<< (8 : UInt32)) else sum)) :=
    rfl
  rw [hcrc, hsum]
  exact ⟨_, rfl⟩

theorem sliceSum_ok (mem : ℕ → UInt8) {v : View} {lo hi : ℕ} (n : ℕ) (hn : hi = lo + 2 * n)
    (hhi : hi ≤ v.len) (sum : UInt32) :
    ∃ w sum', v.slice lo hi = .ok w ∧ sumWriteEven sum (w.bytes mem) = .ok sum' := by
  have hfits := v.fits
  obtain ⟨w, hw, -, hlen, -⟩ := slice_view (show lo ≤ hi by omega) (show hi ≤ v.cap by omega)
  obtain ⟨sum', hsum⟩ := sumWriteEven_ok n sum (w.bytes mem) (by rw [length_bytes, hlen]; omega)
  exact ⟨w, sum', hw, hsum⟩

def protoTCP : ℕ := 6

def protoUDP : ℕ := 17

namespace Udp
variable (mem : ℕ → UInt8)

def newFrame (buf : View) : Except Err View :=
  if buf.len < 8 then .error .truncatedFrame else .ok buf

def length (ufrm : View) : Except Fault ℕ := ufrm.uint16 mem 4

def validateSize (ufrm : View) (v : Validator) : Except Fault Validator := do
  let ul ← length mem ufrm
  let v := if decide (ul < 8) then v.addError .invalidLengthField else v
  return if decide (ufrm.len < ul) then v.addError .truncatedFrame else v

variable {mem} {ufrm : View}

theorem validateSize_ok (h : 8 ≤ ufrm.len) (v : Validator) :
    ∃ ul vld, length mem ufrm = .ok ul ∧ validateSize mem ufrm v = .ok vld ∧
      (vld.hasError = false → ul ≤ ufrm.len) := by
  unfold validateSize length
  rw [uint16_ok (by omega)]
  refine ⟨_, _, rfl, rfl, ?_⟩
  simp only [hasError_ite, Bool.or_eq_false_iff, decide_eq_false_iff_not]
  omega

end Udp

namespace V4
variable (mem : ℕ → UInt8)

def newFrame (buf : View) : Except Err View :=
  if buf.len < 20 then .error .truncatedFrame else .ok buf

def ihl (ifrm : View) : Except Fault ℕ := do
  let b ← ifrm.index mem 0
  return b.toNat % 16

def version (ifrm : View) : Except Fault ℕ := do
  let b ← ifrm.index mem 0
  return b.toNat / 16

def headerLength (ifrm : View) : Except Fault ℕ := do
  let n ← ihl mem ifrm
  return n * 4

def totalLength (ifrm : View) : Except Fault ℕ := ifrm.uint16 mem 2

def isEvil (ifrm : View) : Except Fault Bool := do
  let flags ← ifrm.uint16 mem 6
  return flags.testBit 13

def protocol (ifrm : View) : Except Fault ℕ := do
  let b ← ifrm.index mem 9
  return b.toNat

def calculateHeaderCRC (ifrm : View) : Except Fault UInt16 := do
  let head ← ifrm.slice 0 20
  let sum ← sumWriteEven 0 (head.bytes mem)
  return sum16 sum

def crcWritePseudo (ifrm : View) (length : ℕ) : Except Fault UInt32 := do
  let addrs ← ifrm.slice 12 20
  let sum ← sumWriteEven 0 (addrs.bytes mem)
  let proto ← protocol mem ifrm
  return addUint16 (addUint16 sum length) proto

def crcWriteTCPPseudo (ifrm : View) : Except Fault UInt32 := do
  let tl ← totalLength mem ifrm
  let hl ← headerLength mem ifrm
  crcWritePseudo mem ifrm ((tl + 65536 - hl) % 65536)

def crcWriteUDPPseudo (ifrm : View) (udpLength : ℕ) : Except Fault UInt32 :=
  crcWritePseudo mem ifrm udpLength

def destinationAddr (ifrm : View) : Except Fault (List UInt8) := do
  let dst ← ifrm.slice 16 20
  return dst.bytes mem

def payload (ifrm : View) : Except Fault View := do
  let off ← headerLength mem ifrm
  let l ← totalLength mem ifrm
  ifrm.slice off l

def validateSize (ifrm : View) (v : Validator) : Except Fault Validator := do
  let ihl ← ihl mem ifrm
  let tl ← totalLength mem ifrm
  let v := if decide (tl < 20) then v.addError .invalidLengthField else v
  let v := if decide (ifrm.len < tl) then v.addError .truncatedFrame else v
  return if decide (ihl < 5 ∨ tl < ihl * 4) then v.addError .invalidLengthField else v

def validateExceptCRC (ifrm : View) (v : Validator) : Except Fault Validator := do
  let v ← validateSize mem ifrm v
  let evil ← isEvil mem ifrm
  let version ← version mem ifrm
  let v := if version != 4 then v.addError .invalidField else v
  return if v.evilBit && evil then v.addError .packetDrop else v

def isMulticast (addr : List UInt8) : Bool := addr.headD 0 &&& 0xf0 == 0xe0

def isBroadcast (addr : List UInt8) : Bool := addr == [255, 255, 255, 255]

def headerAt (start : ℕ) : ℕ := (mem start).toNat % 16 * 4

def totalAt (start : ℕ) : ℕ := word (mem (start + 2)) (mem (start + 3))

def destinationAt (start : ℕ) : List UInt8 := (List.range 4).map fun i => mem (start + 16 + i)

variable {mem} {ifrm : View}

section
variable (h : 20 ≤ ifrm.len)
include h

theorem ihl_ok : ihl mem ifrm = .ok ((mem ifrm.start).toNat % 16) := by
  unfold ihl
  rw [index_ok (by omega)]
  rfl

theorem headerLength_ok : headerLength mem ifrm = .ok (headerAt mem ifrm.start) := by
  unfold headerLength
  rw [ihl_ok h]
  rfl

theorem totalLength_ok : totalLength mem ifrm = .ok (totalAt mem ifrm.start) := uint16_ok (by omega)

theorem protocol_ok : ∃ proto, protocol mem ifrm = .ok proto := by
  unfold protocol
  rw [index_ok (by omega)]
  exact ⟨_, rfl⟩

theorem destinationAddr_ok : destinationAddr mem ifrm = .ok (destinationAt mem ifrm.start) := by
  have hfits := ifrm.fits
  obtain ⟨dst, hdst, hbytes⟩ := @bytes_slice mem ifrm 16 20 (by omega) (by omega)
  have hslice : ifrm.slice 16 20 = .ok dst := hdst
  unfold destinationAddr
  rw [hslice]
  exact congrArg Except.ok hbytes

theorem calculateHeaderCRC_ok : ∃ crc, calculateHeaderCRC mem ifrm = .ok crc := by
  obtain ⟨head, sum, hhead, hsum⟩ := @sliceSum_ok mem ifrm 0 20 10 rfl h 0
  have hslice : ifrm.slice 0 20 = .ok head := hhead
  unfold calculateHeaderCRC
  rw [hslice]
  simp only [ok_then, hsum]
  exact ⟨_, rfl⟩

theorem crcWritePseudo_ok (length : ℕ) : ∃ crc, crcWritePseudo mem ifrm length = .ok crc := by
  obtain ⟨addrs, sum, haddrs, hsum⟩ := @sliceSum_ok mem ifrm 12 20 4 rfl h 0
  have hslice : ifrm.slice 12 20 = .ok addrs := haddrs
  obtain ⟨proto, hproto⟩ := @protocol_ok mem ifrm h
  unfold crcWritePseudo
  rw [hslice]
  simp only [ok_then, hsum, hproto]
  exact ⟨_, rfl⟩

theorem crcWriteTCPPseudo_ok : ∃ crc, crcWriteTCPPseudo mem ifrm = .ok crc := by
  unfold crcWriteTCPPseudo
  rw [totalLength_ok h, headerLength_ok h]
  exact crcWritePseudo_ok h _

theorem validateExceptCRC_ok (v : Validator) : ∃ vld, validateExceptCRC mem ifrm v = .ok vld ∧
      (vld.hasError = false → totalAt mem ifrm.start ≤ ifrm.len ∧
        20 ≤ headerAt mem ifrm.start ∧ headerAt mem ifrm.start ≤ totalAt mem ifrm.start) := by
  unfold validateExceptCRC validateSize isEvil version
  rw [ihl_ok h, totalLength_ok h, uint16_ok (show 6 + 2 ≤ ifrm.len by omega),
    index_ok (show 0 < ifrm.len by omega)]
  refine ⟨_, rfl, ?_⟩
  simp only [hasError_ite, Bool.or_eq_false_iff, decide_eq_false_iff_not, headerAt]
  omega

theorem payload_ok (htotal : totalAt mem ifrm.start ≤ ifrm.len)
    (hhead : headerAt mem ifrm.start ≤ totalAt mem ifrm.start) :
    ∃ data, payload mem ifrm = .ok data := by
  have hfits := ifrm.fits
  unfold payload
  rw [headerLength_ok h, totalLength_ok h]
  exact ⟨_, slice_ok hhead (by omega)⟩

end

end V4

structure StackIp4 where
  handlers : Table
  vld : Validator
  ip4 : List UInt8
  acceptMulticast : Bool
  acceptBroadcast : Bool

/-- Own address, no address yet, or an enabled group. -/
def forUs4 (si4 : StackIp4) (dst : List UInt8) : Bool :=
  si4.ip4 == [0, 0, 0, 0] || dst == si4.ip4 ||
    si4.acceptMulticast && V4.isMulticast dst || si4.acceptBroadcast && V4.isBroadcast dst

/-- The checksum of the payload, for the protocols that have one. -/
def checkPayload4 (mem : ℕ → UInt8) (ifrm : View) (proto : ℕ) (vld : Validator) :
    Except Fault (Option Err) := do
  if proto = protoTCP then
    let crc ← V4.crcWriteTCPPseudo mem ifrm
    let data ← V4.payload mem ifrm
    let sum ← payloadSum16 crc (data.bytes mem)
    return if sum != 0 then some .badCRC else none
  else if proto = protoUDP then
    let data ← V4.payload mem ifrm
    match Udp.newFrame data with
    | .error err => return some err
    | .ok ufrm =>
      let vld ← Udp.validateSize mem ufrm vld
      if vld.errPop.1.isSome then return vld.errPop.1
      let frameLen ← Udp.length mem ufrm
      let crc ← V4.crcWriteUDPPseudo mem ifrm frameLen
      let datagram ← ufrm.slice 0 frameLen
      let sum ← payloadSum16 crc (datagram.bytes mem)
      return if sum != 0 then some .badCRC else none
  else return none

theorem checkPayload4_ok {mem : ℕ → UInt8} {ifrm : View} (h : 20 ≤ ifrm.len)
    (htotal : V4.totalAt mem ifrm.start ≤ ifrm.len)
    (hhead : V4.headerAt mem ifrm.start ≤ V4.totalAt mem ifrm.start) (proto : ℕ)
    (vld : Validator) : ∃ bad, checkPayload4 mem ifrm proto vld = .ok bad := by
  obtain ⟨data, hdata⟩ := V4.payload_ok h htotal hhead
  unfold checkPayload4
  by_cases htcp : proto = protoTCP
  · obtain ⟨crc, hcrc⟩ := @V4.crcWriteTCPPseudo_ok mem ifrm h
    obtain ⟨sum, hsum⟩ := payloadSum16_ok crc (data.bytes mem)
    simp only [if_pos htcp, hcrc, hdata, hsum, bind, Except.bind]
    exact ⟨_, rfl⟩
  by_cases hudp : proto = protoUDP
  · simp only [if_neg htcp, if_pos hudp, hdata, bind, Except.bind, Udp.newFrame]
    by_cases hshort : data.len < 8
    · simp only [if_pos hshort]
      exact ⟨_, rfl⟩
    obtain ⟨ul, vld', hul, hvld, hfits⟩ := @Udp.validateSize_ok mem data (not_lt.1 hshort) vld
    simp only [if_neg hshort, hvld]
    cases herr : vld'.hasError with
    | true =>
      rw [if_pos (by rw [isSome_errPop, herr])]
      exact ⟨_, rfl⟩
    | false =>
    have hle := hfits herr
    have hcap := data.fits
    obtain ⟨crc, hcrc⟩ := @V4.crcWritePseudo_ok mem ifrm h ul
    obtain ⟨datagram, hslice, -⟩ := @slice_view data 0 ul (Nat.zero_le _) (by omega)
    obtain ⟨sum, hsum⟩ := payloadSum16_ok crc (datagram.bytes mem)
    have hslice' : data.slice 0 ul = .ok datagram := hslice
    rw [if_neg (by rw [isSome_errPop, herr]; decide)]
    simp only [hul, V4.crcWriteUDPPseudo, hcrc, hslice', hsum]
    exact ⟨_, rfl⟩
  · simp only [if_neg htcp, if_neg hudp]
    exact ⟨_, rfl⟩

def demux4 (mem : ℕ → UInt8) (si4 : StackIp4) (carrierData : View) (offset : ℤ) (reply : Reply) :
    Except Fault Delivery := do
  let drop (err : Option Err) : Delivery := { table := si4.handlers, err := err }
  let frame ← carrierData.tail offset
  match V4.newFrame frame with
  | .error err => return drop (some err)
  | .ok ifrm =>
    let dst ← V4.destinationAddr mem ifrm
    if !forUs4 si4 dst then return drop (some .packetDrop)
    let vld ← V4.validateExceptCRC mem ifrm si4.vld.resetErr
    if vld.errPop.1.isSome then return drop vld.errPop.1
    let crc ← V4.calculateHeaderCRC mem ifrm
    if crc != 0 then return drop (some .badCRC)
    let off ← V4.headerLength mem ifrm
    let proto ← V4.protocol mem ifrm
    match si4.handlers.h.nodeByProto si4.handlers.ids (BitVec.ofNat 16 proto) with
    | none => return drop (some .packetDrop)
    | some i =>
      let bad ← checkPayload4 mem ifrm proto vld.errPop.2
      if bad.isSome then return drop bad
      let totalLen ← V4.totalLength mem ifrm
      let packet ← frame.slice 0 totalLen
      return demuxTo si4.handlers i packet off reply

/-- At most one node is called, and only with a packet for the stack, cut to its own
size, and the offset behind the header. -/
def Exact (addressed : Bool) (start size header : ℕ) (calls : List Call) : Prop :=
  calls = [] ∨ ∃ i packet, calls = [{ node := i, data := packet, offset := header }] ∧
    addressed = true ∧ packet.start = start ∧ packet.len = size

theorem demux4_exact {mem : ℕ → UInt8} {si4 : StackIp4} {carrierData frame : View} {offset : ℤ}
    {reply : Reply} (hframe : carrierData.tail offset = .ok frame) :
    ∃ d, demux4 mem si4 carrierData offset reply = .ok d ∧
      Exact (forUs4 si4 (V4.destinationAt mem frame.start)) frame.start
        (V4.totalAt mem frame.start) (V4.headerAt mem frame.start) d.calls := by
  unfold demux4
  simp only [hframe, bind, Except.bind]
  by_cases hshort : frame.len < 20
  · simp only [V4.newFrame, if_pos hshort]
    exact ⟨_, rfl, .inl rfl⟩
  have h : 20 ≤ frame.len := not_lt.1 hshort
  simp only [V4.newFrame, if_neg hshort, V4.destinationAddr_ok h]
  cases hus : forUs4 si4 (V4.destinationAt mem frame.start) with
  | false => exact ⟨_, rfl, .inl rfl⟩
  | true =>
  obtain ⟨vld, hvld, hchecked⟩ := @V4.validateExceptCRC_ok mem frame h si4.vld.resetErr
  simp only [Bool.not_true, Bool.false_eq_true, if_false, hvld]
  cases herr : vld.hasError with
  | true =>
    rw [if_pos (by rw [isSome_errPop, herr])]
    exact ⟨_, rfl, .inl rfl⟩
  | false =>
  obtain ⟨htotal, -, hhead⟩ := hchecked herr
  obtain ⟨crc, hcrc⟩ := @V4.calculateHeaderCRC_ok mem frame h
  obtain ⟨proto, hproto⟩ := @V4.protocol_ok mem frame h
  rw [if_neg (by rw [isSome_errPop, herr]; decide)]
  simp only [hcrc, V4.headerLength_ok h, hproto, V4.totalLength_ok h]
  split_ifs
  · exact ⟨_, rfl, .inl rfl⟩
  cases si4.handlers.h.nodeByProto si4.handlers.ids (BitVec.ofNat 16 proto) with
  | none => exact ⟨_, rfl, .inl rfl⟩
  | some i =>
  obtain ⟨bad, hbad⟩ := checkPayload4_ok h htotal hhead proto vld.errPop.2
  obtain ⟨packet, hpacket, hstart, hlen, -⟩ :=
    @slice_view frame 0 (V4.totalAt mem frame.start) (Nat.zero_le _) (htotal.trans frame.fits)
  have hslice : frame.slice 0 (V4.totalAt mem frame.start) = .ok packet := hpacket
  simp only [hbad, hslice]
  split_ifs
  · exact ⟨_, rfl, .inl rfl⟩
  · exact ⟨_, rfl, .inr ⟨i, packet, rfl, rfl, hstart, hlen⟩⟩

namespace V6
variable (mem : ℕ → UInt8)

def newFrame (buf : View) : Except Err View :=
  if buf.len < 40 then .error .truncatedFrame else .ok buf

def payloadLength (ifrm : View) : Except Fault ℕ := ifrm.uint16 mem 4

def nextHeader (ifrm : View) : Except Fault ℕ := do
  let b ← ifrm.index mem 6
  return b.toNat

/-- The end of the payload is a 16-bit sum. -/
def payload (ifrm : View) : Except Fault View := do
  let pl ← payloadLength mem ifrm
  ifrm.slice 40 (((40 + pl) % 65536 : ℕ) : ℤ)

def destinationAddr (ifrm : View) : Except Fault (List UInt8) := do
  let dst ← ifrm.slice 24 40
  return dst.bytes mem

def crcWritePseudo (ifrm : View) : Except Fault UInt32 := do
  let addrs ← ifrm.slice 8 40
  let sum ← sumWriteEven 0 (addrs.bytes mem)
  let pl ← payloadLength mem ifrm
  let proto ← nextHeader mem ifrm
  return addUint32 (addUint32 sum pl) proto

def validateSize (ifrm : View) (v : Validator) : Except Fault Validator := do
  let tl ← payloadLength mem ifrm
  return if decide (ifrm.len < tl + 40) then v.addError .invalidLengthField else v

def lengthAt (start : ℕ) : ℕ := word (mem (start + 4)) (mem (start + 5))

def destinationAt (start : ℕ) : List UInt8 := (List.range 16).map fun i => mem (start + 24 + i)

variable {mem} {ifrm : View}

section
variable (h : 40 ≤ ifrm.len)
include h

theorem payloadLength_ok :
    payloadLength mem ifrm = .ok (lengthAt mem ifrm.start) := uint16_ok (by omega)

theorem nextHeader_ok : nextHeader mem ifrm = .ok (mem (ifrm.start + 6)).toNat := by
  unfold nextHeader
  rw [index_ok (by omega)]
  rfl

theorem destinationAddr_ok : destinationAddr mem ifrm = .ok (destinationAt mem ifrm.start) := by
  have hfits := ifrm.fits
  obtain ⟨dst, hdst, hbytes⟩ := @bytes_slice mem ifrm 24 40 (by omega) (by omega)
  have hslice : ifrm.slice 24 40 = .ok dst := hdst
  unfold destinationAddr
  rw [hslice]
  exact congrArg Except.ok hbytes

theorem crcWritePseudo_ok : ∃ crc, crcWritePseudo mem ifrm = .ok crc := by
  obtain ⟨addrs, sum, haddrs, hsum⟩ := @sliceSum_ok mem ifrm 8 40 16 rfl h 0
  have hslice : ifrm.slice 8 40 = .ok addrs := haddrs
  unfold crcWritePseudo
  rw [hslice]
  simp only [ok_then, hsum, payloadLength_ok h, nextHeader_ok h]
  exact ⟨_, rfl⟩

theorem validateSize_ok (v : Validator) (hv : v.hasError = false) :
    ∃ vld, validateSize mem ifrm v = .ok vld ∧
      (vld.hasError = false ↔ lengthAt mem ifrm.start + 40 ≤ ifrm.len) := by
  unfold validateSize
  rw [payloadLength_ok h]
  refine ⟨_, rfl, ?_⟩
  simp only [hasError_ite, hv, Bool.or_false, decide_eq_false_iff_not, not_lt]

theorem payload_ok_iff (hlen : lengthAt mem ifrm.start + 40 ≤ ifrm.len) :
    (∃ data, payload mem ifrm = .ok data) ↔ 40 + lengthAt mem ifrm.start < 65536 := by
  have hfits := ifrm.fits
  have hword : lengthAt mem ifrm.start < 65536 := word_lt _ _
  unfold payload
  rw [payloadLength_ok h]
  constructor
  · rintro ⟨data, hdata⟩
    by_contra hwrap
    have hfault : ifrm.slice 40 ((40 + lengthAt mem ifrm.start) % 65536 : ℕ) =
        .error .sliceBounds := slice_fault (by omega)
    cases hfault.symm.trans hdata
  intro hsmall
  have hok := @slice_ok ifrm 40 ((40 + lengthAt mem ifrm.start) % 65536) (by omega) (by omega)
  exact ⟨_, hok⟩

end

end V6

structure StackIp6 where
  handlers : Table
  vld : Validator
  ip6 : List UInt8
  acceptMulticast : Bool

def forUs6 (si6 : StackIp6) (dst : List UInt8) : Bool :=
  si6.ip6 == List.replicate 16 0 || dst == si6.ip6 || si6.acceptMulticast && dst.headD 0 == 0xff

def checkPayload6 (mem : ℕ → UInt8) (ifrm data : View) (proto : ℕ) (vld : Validator) :
    Except Fault (Option Err) := do
  if proto = protoTCP then
    let crc ← V6.crcWritePseudo mem ifrm
    let sum ← payloadSum16 crc (data.bytes mem)
    return if sum != 0 then some .badCRC else none
  else if proto = protoUDP then
    match Udp.newFrame data with
    | .error err => return some err
    | .ok ufrm =>
      let vld ← Udp.validateSize mem ufrm vld
      if vld.errPop.1.isSome then return vld.errPop.1
      let crc ← V6.crcWritePseudo mem ifrm
      let sum ← payloadSum16 crc (data.bytes mem)
      return if sum != 0 then some .badCRC else none
  else return none

def demux6 (mem : ℕ → UInt8) (si6 : StackIp6) (carrierData : View) (offset : ℤ) (reply : Reply) :
    Except Fault Delivery := do
  let drop (err : Option Err) : Delivery := { table := si6.handlers, err := err }
  let frame ← carrierData.tail offset
  match V6.newFrame frame with
  | .error err => return drop (some err)
  | .ok ifrm =>
    let dst ← V6.destinationAddr mem ifrm
    if !forUs6 si6 dst then return drop (some .packetDrop)
    let vld ← V6.validateSize mem ifrm si6.vld.resetErr
    if vld.errPop.1.isSome then return drop vld.errPop.1
    let proto ← V6.nextHeader mem ifrm
    match si6.handlers.h.nodeByProto si6.handlers.ids (BitVec.ofNat 16 proto) with
    | none => return drop (some .packetDrop)
    | some i =>
      let data ← V6.payload mem ifrm
      let bad ← checkPayload6 mem ifrm data proto vld.errPop.2
      if bad.isSome then return drop bad
      let plen ← V6.payloadLength mem ifrm
      let packet ← carrierData.slice offset (offset + 40 + plen)
      return demuxTo si6.handlers i packet 40 reply

theorem checkPayload6_ok {mem : ℕ → UInt8} {ifrm : View} (h : 40 ≤ ifrm.len) (data : View)
    (proto : ℕ) (vld : Validator) : ∃ bad, checkPayload6 mem ifrm data proto vld = .ok bad := by
  obtain ⟨crc, hcrc⟩ := @V6.crcWritePseudo_ok mem ifrm h
  obtain ⟨sum, hsum⟩ := payloadSum16_ok crc (data.bytes mem)
  unfold checkPayload6
  by_cases htcp : proto = protoTCP
  · simp only [if_pos htcp, hcrc, hsum, bind, Except.bind]
    exact ⟨_, rfl⟩
  by_cases hudp : proto = protoUDP
  · simp only [if_neg htcp, if_pos hudp, bind, Except.bind, Udp.newFrame]
    by_cases hshort : data.len < 8
    · simp only [if_pos hshort]
      exact ⟨_, rfl⟩
    obtain ⟨ul, vld', -, hvld, -⟩ := @Udp.validateSize_ok mem data (not_lt.1 hshort) vld
    simp only [if_neg hshort, hvld, hcrc, hsum]
    by_cases hbad : vld'.errPop.1.isSome
    · rw [if_pos hbad]
      exact ⟨_, rfl⟩
    · rw [if_neg hbad]
      exact ⟨_, rfl⟩
  · simp only [if_neg htcp, if_neg hudp]
    exact ⟨_, rfl⟩

/-- A packet for a node whose header and payload together take 64 KiB or more. -/
def Wraps (mem : ℕ → UInt8) (si6 : StackIp6) (start len : ℕ) : Prop :=
  40 ≤ len ∧ forUs6 si6 (V6.destinationAt mem start) = true ∧ V6.lengthAt mem start + 40 ≤ len ∧
  (si6.handlers.h.nodeByProto si6.handlers.ids
    (BitVec.ofNat 16 (mem (start + 6)).toNat)).isSome = true ∧
  65536 ≤ 40 + V6.lengthAt mem start

theorem demux6_exact_iff {mem : ℕ → UInt8} {si6 : StackIp6} {carrierData : View} {offset : ℕ}
    {reply : Reply} (hoff : offset ≤ carrierData.len) :
    (∃ d, demux6 mem si6 carrierData offset reply = .ok d ∧
      Exact (forUs6 si6 (V6.destinationAt mem (carrierData.start + offset)))
        (carrierData.start + offset) (40 + V6.lengthAt mem (carrierData.start + offset)) 40
        d.calls) ↔ ¬ Wraps mem si6 (carrierData.start + offset) (carrierData.len - offset) := by
  obtain ⟨frame, hframe, hstart, hlen, hcap⟩ := tail_view hoff
  rw [← hstart, ← hlen]
  unfold demux6 Wraps
  simp only [hframe, bind, Except.bind]
  by_cases hshort : frame.len < 40
  · simp only [V6.newFrame, if_pos hshort]
    exact ⟨fun _ hw => by omega, fun _ => ⟨_, rfl, .inl rfl⟩⟩
  have h : 40 ≤ frame.len := not_lt.1 hshort
  simp only [V6.newFrame, if_neg hshort, V6.destinationAddr_ok h]
  cases hus : forUs6 si6 (V6.destinationAt mem frame.start) with
  | false => exact ⟨fun _ hw => absurd hw.2.1 (by decide), fun _ => ⟨_, rfl, .inl rfl⟩⟩
  | true =>
  obtain ⟨vld, hvld, hchecked⟩ := @V6.validateSize_ok mem frame h si6.vld.resetErr rfl
  simp only [Bool.not_true, Bool.false_eq_true, if_false, hvld, isSome_errPop]
  cases herr : vld.hasError with
  | true =>
    rw [herr, Bool.true_eq_false, false_iff] at hchecked
    exact ⟨fun _ hw => hchecked hw.2.2.1, fun _ => ⟨_, rfl, .inl rfl⟩⟩
  | false =>
  have hfit := hchecked.1 herr
  simp only [Bool.false_eq_true, if_false, V6.nextHeader_ok h, V6.payloadLength_ok h]
  cases si6.handlers.h.nodeByProto si6.handlers.ids
      (BitVec.ofNat 16 (mem (frame.start + 6)).toNat) with
  | none => exact ⟨fun _ hw => absurd hw.2.2.2.1 (by decide), fun _ => ⟨_, rfl, .inl rfl⟩⟩
  | some i =>
    have hroom := V6.payload_ok_iff h hfit
    cases hdata : V6.payload mem frame with
    | error fault =>
      have hwrap : ¬ 40 + V6.lengthAt mem frame.start < 65536 := by
        intro hsmall
        obtain ⟨data, hok⟩ := hroom.2 hsmall
        cases hdata.symm.trans hok
      refine ⟨?_, fun hno => absurd ⟨h, trivial, hfit, rfl, not_lt.1 hwrap⟩ hno⟩
      rintro ⟨d, hd, -⟩
      cases hd
    | ok data =>
    have hsmall := hroom.1 ⟨data, hdata⟩
    refine ⟨fun _ hw => by omega, fun _ => ?_⟩
    obtain ⟨bad, hbad⟩ := @checkPayload6_ok mem frame h data
      (mem (frame.start + 6)).toNat vld.errPop.2
    have hfits := carrierData.fits
    obtain ⟨packet, hpacket, hfirst, hsize, -⟩ := @slice_view carrierData offset
      (offset + 40 + V6.lengthAt mem frame.start) (by omega) (by omega)
    push_cast at hpacket
    simp only [hbad, hpacket]
    by_cases hdrop : bad.isSome
    · rw [if_pos hdrop]
      exact ⟨_, rfl, .inl rfl⟩
    · rw [if_neg hdrop]
      exact ⟨_, rfl, .inr ⟨i, packet, rfl, rfl, by omega, by omega⟩⟩

/-- Both stacks receive every packet without a panic and pass it on as they should, exactly
when the offset lies in the bytes received and no packet for an IPv6 node takes 64 KiB or
more. -/
theorem demux_exact_iff (mem : ℕ → UInt8) (si4 : StackIp4) (si6 : StackIp6) (carrierData : View)
    (offset : ℤ) (reply : Reply) : ((∃ d, demux4 mem si4 carrierData offset reply = .ok d ∧
        Exact (forUs4 si4 (V4.destinationAt mem (carrierData.start + offset.toNat)))
          (carrierData.start + offset.toNat) (V4.totalAt mem (carrierData.start + offset.toNat))
          (V4.headerAt mem (carrierData.start + offset.toNat)) d.calls) ∧
      ∃ d, demux6 mem si6 carrierData offset reply = .ok d ∧
        Exact (forUs6 si6 (V6.destinationAt mem (carrierData.start + offset.toNat)))
          (carrierData.start + offset.toNat)
          (40 + V6.lengthAt mem (carrierData.start + offset.toNat)) 40 d.calls) ↔
    0 ≤ offset ∧ offset ≤ carrierData.len ∧
      ¬ Wraps mem si6 (carrierData.start + offset.toNat) (carrierData.len - offset.toNat) := by
  by_cases hin : 0 ≤ offset ∧ offset ≤ carrierData.len
  · obtain ⟨n, rfl⟩ := Int.eq_ofNat_of_zero_le hin.1
    have hn : n ≤ carrierData.len := by omega
    obtain ⟨frame, hframe, hstart, -⟩ := tail_view hn
    rw [Int.toNat_natCast, demux6_exact_iff hn]
    have h4 := @demux4_exact mem si4 carrierData frame n reply hframe
    rw [hstart] at h4
    exact ⟨fun h => ⟨hin.1, hin.2, h.2⟩, fun h => ⟨h4, h.2.2⟩⟩
  refine ⟨?_, fun h => absurd ⟨h.1, h.2.1⟩ hin⟩
  rintro ⟨⟨d, hd, -⟩, -⟩
  have hfault : carrierData.tail offset = .error .sliceBounds := slice_fault (by omega)
  unfold demux4 at hd
  rw [hfault] at hd
  cases hd

def largePacket (high low : UInt8) : ℕ → UInt8 := fun i =>
  if i = 4 then high else if i = 5 then low else if i = 6 then 59 else 0

def plainNode : Table where
  h := { nodes := [{ callbacks := some 0, proto := 59 }], cap := 1 }

def unaddressed : StackIp6 := ⟨plainNode, {}, List.replicate 16 0, false⟩

/-- A payload length of 65500 in a buffer that holds all of it: the stack panics. -/
theorem demux6_wraps : (demux6 (largePacket 255 220) unaddressed ⟨0, 65540, 65540, le_rfl⟩ 0
      {}).toOption.isNone = true := by
  decide +kernel

end Lneto.IpIngress
