import Lneto.IpIngress

/-!
Sent IP packets. The header is written over whatever the buffer held; the nodes
are offered the room behind it, and the one that writes may change the header.
Lengths, protocol and checksums are filled in last.
-/
namespace Lneto.IpEgress

open StackNodes hiding Fault
open Views View EthernetIngress IpIngress

inductive Err where
  | shortBuffer
  | truncatedFrame
  | node (err : NodeErr)
deriving DecidableEq, Repr

def minimumMTU : ℕ := 68

def prand16 (seed : UInt16) : UInt16 :=
  let seed := seed ^^^ (seed <<< (7 : UInt16))
  let seed := seed ^^^ (seed >>> (9 : UInt16))
  seed ^^^ (seed <<< (8 : UInt16))

structure Egress4 extends StackIp4 where
  ipID : UInt16
  size : ip4.length = 4

structure Egress6 extends StackIp6 where
  size : ip6.length = 16

structure Sent (σ : Type) where
  stack : σ
  mem : ℕ → UInt8
  n : ℤ
  err : Option Err

/-- The effect of all callbacks of one sweep on the memory. -/
abbrev Effect := (ℕ → UInt8) → ℕ → UInt8

def neverZeroSum (sum16 : UInt16) : UInt16 := if sum16 = 0 then 0xffff else sum16

/-- The protocol of the node that a sweep reports, read after the call. Without a node
it is a nil dereference. -/
def sentProto (t : Table) (report : Report) : Except Fault ℕ :=
  match report.node.bind fun i => t.h.nodes[i]? with
  | some node => .ok (node.proto.toNat % 256)
  | none => .error .indexOutOfRange

/-- A frame that is too short for TCP is empty, so that setting a field panics. -/
def tcpFrame (data : View) : View := if data.len < 20 then ⟨0, 0, 0, le_rfl⟩ else data

/-- The field is zeroed, the payload summed up and the field set. -/
def fillCRC (mem : ℕ → UInt8) (frm data : View) (field : ℕ) (crc : UInt32)
    (finish : UInt16 → UInt16) : Except Fault (ℕ → UInt8) := do
  let mem ← frm.put16 mem field 0
  let sum ← payloadSum16 crc (data.bytes mem)
  frm.put16 mem field (finish sum).toNat

def uint16Of (n : ℤ) : ℕ := (n % 65536).toNat

def fillPayload4 (mem : ℕ → UInt8) (ifrm : View) (proto : ℕ) (n : ℤ) :
    Except Fault (ℕ → UInt8) := do
  let data ← V4.payload mem ifrm
  if proto = protoTCP then
    let crc ← V4.crcWriteTCPPseudo mem ifrm
    fillCRC mem (tcpFrame data) data 16 crc id
  else if proto = protoUDP then
    let crc ← V4.crcWriteUDPPseudo mem ifrm (uint16Of n)
    let mem ← data.put16 mem 4 (uint16Of n)
    fillCRC mem data data 6 crc neverZeroSum
  else return mem

def fillPayload6 (mem : ℕ → UInt8) (ifrm : View) (proto : ℕ) (n : ℤ) :
    Except Fault (ℕ → UInt8) := do
  let data ← V6.payload mem ifrm
  if proto = protoTCP then
    let crc ← V6.crcWritePseudo mem ifrm
    fillCRC mem (tcpFrame data) data 16 crc id
  else if proto = protoUDP then
    let mem ← data.put16 mem 4 (uint16Of n)
    let crc ← V6.crcWritePseudo mem ifrm
    fillCRC mem data data 6 crc neverZeroSum
  else return mem

def nextID (si4 : Egress4) : UInt16 :=
  prand16 ((si4.ipID + 1) ^^^ (si4.ip4.headD 0).toUInt16)

def writeHeader4 (mem : ℕ → UInt8) (ifrm : View) (id : UInt16) (ip4 : List UInt8) :
    Except Fault (ℕ → UInt8) := do
  let mem ← ifrm.put mem 0 0x45
  let mem ← ifrm.put mem 1 0
  let mem ← ifrm.put16 mem 4 id.toNat
  let mem ← ifrm.put16 mem 6 0x4000
  let mem ← ifrm.put mem 8 64
  ifrm.copyTo mem 12 ip4

def sealHeader4 (mem : ℕ → UInt8) (ifrm : View) (proto : ℕ) (totalLen : ℤ) :
    Except Fault (ℕ → UInt8) := do
  let mem ← ifrm.put16 mem 2 (uint16Of totalLen)
  let mem ← ifrm.put mem 9 (UInt8.ofNat proto)
  let mem ← ifrm.put16 mem 10 0
  let crc ← V4.calculateHeaderCRC mem ifrm
  ifrm.put16 mem 10 crc.toNat

def encapsulate4 (mem : ℕ → UInt8) (si4 : Egress4) (carrierData : View) (offsetToIP : ℤ)
    (replies : List Reply) (sweep : Effect) : Except Fault (Sent Egress4) := do
  let frame ← carrierData.tail offsetToIP
  if frame.len < minimumMTU then return ⟨si4, mem, 0, some .shortBuffer⟩
  let mem ← writeHeader4 mem frame (nextID si4) si4.ip4
  match si4.handlers.encapsulateAny replies with
  | .error _ => .error .indexOutOfRange
  | .ok (handlers, _, report) =>
    let mem := sweep mem
    let si4 := { si4 with handlers := handlers, ipID := nextID si4 }
    if report.n = 0 then return ⟨si4, mem, 0, report.err.map .node⟩
    let proto ← sentProto handlers report
    let mem ← sealHeader4 mem frame proto (report.n + 20)
    let mem ← fillPayload4 mem frame proto report.n
    return ⟨si4, mem, report.n + 20, report.err.map .node⟩

def writeHeader6 (mem : ℕ → UInt8) (ifrm : View) (ip6 : List UInt8) :
    Except Fault (ℕ → UInt8) := do
  let mem ← ifrm.copyTo mem 0 [0x60, 0, 0, 0]
  let mem ← ifrm.put mem 7 64
  ifrm.copyTo mem 8 ip6

def sealHeader6 (mem : ℕ → UInt8) (ifrm : View) (proto : ℕ) (n : ℤ) :
    Except Fault (ℕ → UInt8) := do
  let mem ← ifrm.put mem 6 (UInt8.ofNat proto)
  ifrm.put16 mem 4 (uint16Of n)

def encapsulate6 (mem : ℕ → UInt8) (si6 : Egress6) (carrierData : View) (offsetToIP : ℤ)
    (replies : List Reply) (sweep : Effect) : Except Fault (Sent Egress6) := do
  let frame ← carrierData.tail offsetToIP
  match V6.newFrame frame with
  | .error _ => return ⟨si6, mem, 0, some .truncatedFrame⟩
  | .ok ifrm =>
    let mem ← writeHeader6 mem ifrm si6.ip6
    match si6.handlers.encapsulateAny replies with
    | .error _ => .error .indexOutOfRange
    | .ok (handlers, _, report) =>
      let mem := sweep mem
      let si6 := { si6 with handlers := handlers }
      if report.n = 0 then return ⟨si6, mem, 0, report.err.map .node⟩
      let proto ← sentProto handlers report
      let mem ← sealHeader6 mem ifrm proto report.n
      let mem ← fillPayload6 mem ifrm proto report.n
      return ⟨si6, mem, 40 + report.n, report.err.map .node⟩

end Lneto.IpEgress
