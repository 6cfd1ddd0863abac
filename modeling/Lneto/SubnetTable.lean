import Lneto.ArpHandler
import Lneto.Ipv4Prefix
import Mathlib.Logic.Function.Basic

/-!
The table of subnet peers: addresses learned from incoming frames in its front
part, and the buffers that wait for an ARP answer behind them. The address
0.0.0.0 marks a slot of the front part as free, a slice without bytes one of
the back part.
-/
namespace Lneto.SubnetTable

open AddressCache ArpHandler
open Ipv4Prefix (Prefix4)

/-- The buffers that callers registered; they have no spare capacity. -/
abbrev Heap := ℕ → Bytes

inductive MacSlice where
  | null
  | owned (bytes : Bytes)
  | borrowed (id : ℕ)
deriving DecidableEq, Repr

namespace MacSlice

def bytes (heap : Heap) : MacSlice → Bytes
  | .null => []
  | .owned b => b
  | .borrowed id => heap id

def copy (heap : Heap) (src : Bytes) : MacSlice → MacSlice × Heap
  | .null => (.null, heap)
  | .owned b => (.owned (copyInto b src), heap)
  | .borrowed id => (.borrowed id, Function.update heap id (copyInto (heap id) src))

def append (heap : Heap) (src : Bytes) (m : MacSlice) : MacSlice := .owned (m.bytes heap ++ src)

end MacSlice

def zeroIP : Bytes := [0, 0, 0, 0]

structure Slot where
  mac : MacSlice := .null
  ip : Bytes := zeroIP
  age : ℕ := 0
deriving DecidableEq, Repr

/-- A frame in memory that may be larger than it. -/
structure EthFrame where
  mem : Bytes
  len : ℕ
  fits : len ≤ mem.length
deriving DecidableEq, Repr

namespace EthFrame
variable (frame : EthFrame)

def ethertype : ℕ := uint16At frame.mem 12
def destination : Bytes := frame.mem.take 6
def source : Bytes := (frame.mem.drop 6).take 6
def isBroadcast : Bool := frame.destination == List.replicate 6 255

end EthFrame

def getIPAddr (buf : Bytes) : Except Fault (Option (Bytes × Bytes)) :=
  match buf with
  | [] => .error .indexOutOfRange
  | b0 :: _ =>
    if b0.toNat / 16 = 4 then
      if buf.length < 20 then .error .sliceBounds
      else .ok (some ((buf.drop 12).take 4, (buf.drop 16).take 4))
    else if b0.toNat / 16 = 6 then
      if buf.length < 40 then .error .sliceBounds
      else .ok (some ((buf.drop 8).take 16, (buf.drop 24).take 16))
    else .ok none

structure Table where
  subnet4 : Prefix4 := {}
  resolves4 : List Slot := []
  passivePeers : ℕ := 0
deriving DecidableEq, Repr

namespace Table

/-- Memory is only allocated once. -/
def reset (a : Table) (arpentries : ℤ) (passivePeers : ℕ) : Table :=
  { a with
    passivePeers
    resolves4 :=
      if a.resolves4 = [] then List.replicate (arpentries + passivePeers).toNat {}
      else a.resolves4 }

/-- A loop over the passive slots, up to the first one wanted. -/
def scanPassive (a : Table) (want : Slot → Bool) : Except Fault (Option ℕ) :=
  match (a.resolves4.take a.passivePeers).findIdx? want with
  | some i => .ok (some i)
  | none => if a.resolves4.length < a.passivePeers then .error .indexOutOfRange else .ok none

def slot (a : Table) (i : ℕ) : Slot := a.resolves4[i]?.getD {}

def setSlot (a : Table) (i : ℕ) (v : Slot) : Table := { a with resolves4 := a.resolves4.set i v }

/-- A slot with the address is updated, else a free one before it is taken. -/
def learnPassive (a : Table) (heap : Heap) (src mac : Bytes) : Except Fault (Table × Heap) :=
  if a.passivePeers = 0 ∨ src.length ≠ 4 then .ok (a, heap)
  else if !a.subnet4.contains src then .ok (a, heap)
  else do
    match ← a.scanPassive fun v => v.ip == src || v.ip == zeroIP with
    | none => return (a, heap)
    | some i =>
      let v := a.slot i
      if v.ip = src then
        let (m, heap) := v.mac.copy heap mac
        return (a.setSlot i { v with mac := m }, heap)
      else return (a.setSlot i { v with ip := src, mac := v.mac.append heap mac }, heap)

def learnFromIngressEthernet (a : Table) (heap : Heap) (frame : EthFrame) :
    Except Fault (Table × Heap) :=
  if 34 < frame.len ∧ frame.ethertype = typeIPv4 then do
    match ← getIPAddr (frame.mem.drop 14) with
    | none => a.learnPassive heap [] frame.source
    | some (src, _) => a.learnPassive heap src frame.source
  else .ok (a, heap)

/-- The slot for a query: the first without a buffer, else the oldest. -/
def oldest (heap : Heap) : ℕ → List Slot → ℕ × ℕ → ℕ
  | _, [], (best, _) => best
  | i, v :: rest, (best, age) =>
    if (v.mac.bytes heap).length = 0 then i
    else oldest heap (i + 1) rest (if age < v.age then (i, v.age) else (best, age))

def growAges (slots : List Slot) : List Slot :=
  slots.map fun v => { v with age := (v.age + 1) % 65536 }

def register (a : Table) (heap : Heap) (id : ℕ) (addr : Bytes) : Except Fault Table :=
  let n := a.passivePeers
  let i := oldest heap n (a.resolves4.drop n) (n, (a.slot n).age)
  let slots := a.resolves4.take n ++ growAges (a.resolves4.drop n)
  if i < slots.length then
    .ok { a with resolves4 := slots.set i { mac := .borrowed id, ip := addr, age := 1 } }
  else .error .indexOutOfRange

def startQuery (a : Table) (heap : Heap) (h : Handler) (id : ℕ) (ip : Bytes) :
    Except Fault (Table × Heap × Handler × Option Err) :=
  if ip.length ≠ 4 then .ok (a, heap, h, some .unsupported)
  else do
    match ← a.scanPassive fun v => v.ip == ip with
    | some i =>
      return (a, Function.update heap id (copyInto (heap id) ((a.slot i).mac.bytes heap)), h, none)
    | none =>
      match ← h.startQuery ip true with
      | (h, some err) => return (a, heap, h, some err)
      | (h, none) => return (← a.register heap id ip, heap, h, none)

def pendingFor (a : Table) (ip : Bytes) : Option ℕ :=
  ((a.resolves4.drop a.passivePeers).findIdx? fun v => v.ip == ip).map (a.passivePeers + ·)

def onResolve (a : Table) (heap : Heap) (mac ip : Bytes) : Table × Heap :=
  if ip.length ≠ 4 then (a, heap)
  else
    match a.pendingFor ip with
    | none => (a, heap)
    | some i => (a.setSlot i {}, ((a.slot i).mac.copy heap mac).2)

def patchEgressMAC (a : Table) (heap : Heap) (frame : EthFrame) : Except Fault Bytes :=
  if a.passivePeers = 0 ∨ frame.len < 34 ∨ frame.ethertype ≠ typeIPv4 then .ok frame.mem
  else if frame.isBroadcast then .ok frame.mem
  else do
    match ← getIPAddr (frame.mem.drop 14) with
    | none => return frame.mem
    | some (_, dst) =>
      match ← a.scanPassive fun v => v.ip == dst with
      | none => return frame.mem
      | some i =>
        let mac := (a.slot i).mac.bytes heap
        if mac.length < 6 then .error .sliceBounds else return mac.take 6 ++ frame.mem.drop 6

end Table

end Lneto.SubnetTable
