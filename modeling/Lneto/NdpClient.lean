import Lneto.ArpHandler
import Lneto.IpIngress

/-!
Neighbor discovery in the ICMPv6 client, over the same kind of cache as ARP:
the calls, the frames it takes and the frames it sends.
-/
namespace Lneto.NdpClient

open AddressCache GuardedRuns

inductive Err where
  | invalidConfig
  | zeroDestination
  | queryNotFound
  | queryPending
  | truncatedFrame
  | packetDrop
  | shortBuffer
  | badCRC
deriving DecidableEq, Repr

@[ext] structure Addr6 where
  bytes : Bytes
  wide : bytes.length = 16
deriving Repr

instance : DecidableEq Addr6 :=
  fun a b => decidable_of_iff (a.bytes = b.bytes) Addr6.ext_iff.symm

def zeroAddr : Addr6 := ⟨List.replicate 16 0, sixteen_zeros⟩

def addrAt (b : Bytes) (i : ℕ) : Addr6 :=
  ⟨copyInto zeroAddr.bytes ((b.drop i).take 16), (length_copyInto _ _).trans zeroAddr.wide⟩

def use (mac : Mac6) (addr : Addr6) (flags : Flags) : Entry :=
  { addr := addr.bytes, mac, age := 0, flags := { flags with inUse := true }, wide := addr.wide }

theorem isFor_use (mac : Mac6) (addr : Addr6) (flags : Flags) :
    (use mac addr flags).isFor addr.bytes := by
  rw [Entry.isFor_wide addr.wide]
  simp [use]

def lookup (c : Cache) (addr : Addr6) : Option ℕ :=
  c.findIdx? fun e => e.flags.inUse && e.addr == addr.bytes

theorem lookup_eq (c : Cache) (addr : Addr6) :
    lookup c addr = c.findIdx? (Entry.isFor addr.bytes) := by
  unfold lookup
  congr 1
  funext e
  rw [Entry.isFor_wide addr.wide]

structure Client where
  ndpCache : Cache := []
  ourMAC : Mac6 := {}
  ourIP : Addr6 := zeroAddr
  onresolve : Bool := false
deriving DecidableEq, Repr

/-- What is sent: a solicitation for a target, or an advertisement of the own address. -/
structure Emission where
  solicits : Bool
  target : Bytes
  linkAddr : Bytes
  dst : Bytes
deriving DecidableEq, Repr

structure Resolved where
  mac : Mac6
  addr : Addr6
deriving DecidableEq, Repr

/-- The first option of the kind, with the link address in it. -/
def parseLinkLayerOption (optType : UInt8) : ℕ → Bytes → Option Mac6
  | 0, _ => none
  | fuel + 1, options =>
    if options.length < 8 then none
    else
      let l := (options.getD 1 0).toNat * 8
      if l = 0 ∨ options.length < l then none
      else if options.head? = some optType then some (.ofBytes ((options.drop 2).take 6))
      else parseLinkLayerOption optType fuel (options.drop l)

def typeEchoRequest : UInt8 := 128
def typeEchoReply : UInt8 := 129
def typeNeighborSolicitation : UInt8 := 135
def typeNeighborAdvertisement : UInt8 := 136

def optSourceLinkAddr : UInt8 := 1
def optTargetLinkAddr : UInt8 := 2

/-- ff02::1:ff00:0 with the last three bytes of the address. -/
def solicitedNodeMulticast (addr : Bytes) : Bytes :=
  [0xff, 0x02, 0, 0, 0, 0, 0, 0, 0, 0, 0, 1, 0xff] ++ addr.drop 13

namespace Client

/-- The cache is set up only if it has a size; `echoOK` says that the echo part is configured. -/
def configure (client : Client) (echoOK : Bool) (ourAddr : Addr6) (ourMAC : Mac6)
    (ndpCache : ℤ) : Client × Option Err :=
  if !echoOK && !decide (0 < ndpCache) then (client, some .invalidConfig)
  else if 0 < ndpCache then
    ({ client with ourIP := ourAddr, ourMAC, ndpCache := client.ndpCache.reset ndpCache.toNat },
      none)
  else (client, none)

def reset (client : Client) : Client := { client with ndpCache := client.ndpCache.reset 0 }

def abort (client : Client) : Client := client.reset

def setAddr6 (client : Client) (addr : Addr6) : Client := { client with ourIP := addr }.reset

def startQuery (client : Client) (addr : Addr6) (triggerCallback : Bool) :
    Except Fault (Client × Option Err) :=
  if addr = zeroAddr then .ok (client, some .zeroDestination)
  else do
    let (c, i) ← client.ndpCache.acquireNext
    let e := use {} addr
      { incomplete := true, incompletePendingQuery := true, priority := true
        resolveTriggersCallback := triggerCallback }
    return ({ client with ndpCache := c.set i e }, none)

def cacheLookup (client : Client) (addr : Addr6) : Except Err Bytes :=
  match lookup client.ndpCache addr with
  | none => .error .queryNotFound
  | some i =>
    if (client.ndpCache.entry i).flags.incomplete then .error .queryPending
    else .ok (client.ndpCache.entry i).mac.bytes

def cacheSeed (client : Client) (addr : Addr6) (mac : Mac6) : Except Fault (Client × Option Err) :=
  if addr = zeroAddr then .ok (client, some .zeroDestination)
  else do
    let (c, i) ← client.ndpCache.acquireNext
    return ({ client with ndpCache := c.set i (use mac addr {}) }, none)

def cacheRemove (client : Client) (addr : Addr6) : Client × Option Err :=
  match lookup client.ndpCache addr with
  | none => (client, some .queryNotFound)
  | some i => ({ client with ndpCache := client.ndpCache.set i {} }, none)

/-- A solicitation for the own address, from a sender that is known if there is an IP header. -/
def onSolicitation (client : Client) (target sender : Addr6) (options : Bytes) :
    Except Fault (Client × Option Err) :=
  if target ≠ client.ourIP then .ok (client, none)
  else
    match parseLinkLayerOption optSourceLinkAddr options.length options with
    | none => .ok (client, some .packetDrop)
    | some mac => do
      let (c, i) ← client.ndpCache.acquireNext
      return ({ client with ndpCache := c.set i (use mac sender { pendingResponse := true }) },
        none)

def onAdvertisement (client : Client) (target : Addr6) (options : Bytes) :
    Client × Option Err × Option Resolved :=
  match parseLinkLayerOption optTargetLinkAddr options.length options with
  | none => (client, some .packetDrop, none)
  | some mac =>
    match lookup client.ndpCache target with
    | none => (client, none, none)
    | some i =>
      let e := client.ndpCache.entry i
      let flags := { e.flags with incomplete := false, incompletePendingQuery := false }
      ({ client with ndpCache := client.ndpCache.set i { e with mac, flags } }, none,
        if flags.resolveTriggersCallback && client.onresolve then some { mac, addr := target }
        else none)

def demuxNDP (client : Client) (carrierData : Bytes) (frameOffset : ℕ) :
    Except Fault (Client × Option Err × Option Resolved) :=
  let rawdata := carrierData.drop frameOffset
  if rawdata.length < 24 then .ok (client, some .truncatedFrame, none)
  else if rawdata.head? = some typeNeighborSolicitation then do
    let sender := if 40 ≤ frameOffset then addrAt carrierData 8 else zeroAddr
    let (client, err) ← client.onSolicitation (addrAt rawdata 8) sender (rawdata.drop 24)
    return (client, err, none)
  else if rawdata.head? = some typeNeighborAdvertisement then
    .ok (client.onAdvertisement (addrAt rawdata 8) (rawdata.drop 24))
  else .ok (client, none, none)

/-- The checksum with the addresses of the IP header, if there is one before the frame. -/
def checksum (carrierData : Bytes) (frameOffset : ℕ) : Except Views.Fault UInt16 := do
  let rawdata := carrierData.drop frameOffset
  if 40 ≤ frameOffset then
    let crc ← IpIngress.sumWriteEven 0 ((carrierData.drop 8).take 32)
    let crc := IpIngress.addUint32 (IpIngress.addUint32 crc rawdata.length) 58
    IpIngress.payloadSum16 crc rawdata
  else IpIngress.payloadSum16 0 rawdata

/-- Received frames; echo messages leave neighbor discovery alone. -/
def demux (client : Client) (carrierData : Bytes) (frameOffset : ℕ) :
    Except Fault (Client × Option Err × Option Resolved) :=
  let rawdata := carrierData.drop frameOffset
  if carrierData.length < frameOffset then .error .sliceBounds
  else if rawdata.length < 8 then .ok (client, some .truncatedFrame, none)
  else if (checksum carrierData frameOffset).toOption ≠ some 0 then
    .ok (client, some .badCRC, none)
  else if rawdata.head? = some typeNeighborSolicitation ∨
      rawdata.head? = some typeNeighborAdvertisement then
    client.demuxNDP carrierData frameOffset
  else if rawdata.head? = some typeEchoRequest ∨ rawdata.head? = some typeEchoReply then
    .ok (client, none, none)
  else .ok (client, some .packetDrop, none)

def encapsNDP (client : Client) (room : ℕ) : Client × Except Err (Option Emission) :=
  if room < 32 then (client, .error .shortBuffer)
  else
    match ArpHandler.Handler.due client.ndpCache with
    | none => (client, .ok none)
    | some (i, op, flags) =>
      let e := { client.ndpCache.entry i with flags }
      ({ client with ndpCache := client.ndpCache.set i e },
        .ok (some
          (if op = ArpHandler.opRequest then
            { solicits := true, target := e.addr, linkAddr := client.ourMAC.bytes
              dst := solicitedNodeMulticast e.addr }
          else
            { solicits := false, target := client.ourIP.bytes, linkAddr := client.ourMAC.bytes
              dst := e.addr })))

end Client

end Lneto.NdpClient
