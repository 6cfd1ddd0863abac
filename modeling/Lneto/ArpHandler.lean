import Lneto.AddressCache

/-!
The ARP handler over its address cache: seeding, lookup and removal of
mappings, queries, received requests and replies, and the frames it sends.
-/
namespace Lneto.ArpHandler

open AddressCache GuardedRuns

inductive Err where
  | invalidConfig
  | unsupported
  | mismatchLen
  | mismatch
  | truncatedFrame
  | packetDrop
  | shortBuffer
  | invalidAddr
  | queryPending
  | queryNotFound
deriving DecidableEq, Repr

def typeIPv4 : ℕ := 0x0800
def typeIPv6 : ℕ := 0x86dd

/-- A slot is filled; an address that takes all 16 bytes makes it one for IPv6. -/
def use (e : Entry) (mac : Mac6) (proto : Bytes) (flags : Flags) : Entry :=
  { addr := copyInto e.addr proto
    mac := mac
    age := 0
    flags := { flags with inUse := true, ipv6 := decide (min e.addr.length proto.length = 16) }
    wide := (length_copyInto _ _).trans e.wide }

theorem isFor_use {proto : Bytes} (h : proto.length ≤ 16) (mac : Mac6) (flags : Flags) :
    (use {} mac proto flags).isFor proto := by
  simp only [use, Entry.isFor, Bool.true_and, beq_iff_eq]
  exact take_copyInto (by rwa [List.length_replicate])

def uint16At (b : Bytes) (i : ℕ) : ℕ := (b.getD i 0).toNat * 256 + (b.getD (i + 1) 0).toNat

namespace Frame
variable (b : Bytes)

def hwtype : ℕ := uint16At b 0
def hwlen : ℕ := (b.getD 4 0).toNat
def prototype : ℕ := uint16At b 2
def protolen : ℕ := (b.getD 5 0).toNat
def operation : ℕ := uint16At b 6

def part (i n : ℕ) : Bytes := (b.drop i).take n

def senderHW : Bytes := part b 8 (hwlen b)
def senderProto : Bytes := part b (8 + hwlen b) (protolen b)
def targetHW : Bytes := part b (8 + hwlen b + protolen b) (hwlen b)
def targetProto : Bytes := part b (8 + 2 * hwlen b + protolen b) (protolen b)

def validateSize : Option Err :=
  let minLen := 8 + 2 * (hwlen b + protolen b)
  if b.length < minLen then some .truncatedFrame
  else if 255 < minLen then some .packetDrop
  else none

end Frame

def opRequest : ℕ := 1
def opReply : ℕ := 2

/-- What is sent: the fields of the frame, and the link destination if there is room for one. -/
structure Emission where
  op : ℕ
  senderHW : Bytes
  senderProto : Bytes
  targetHW : Bytes
  targetProto : Bytes
  dst : Option Bytes
deriving DecidableEq, Repr

structure HandlerConfig where
  hardwareAddr : Bytes
  protocolAddr : Bytes
  maxQueries : ℤ
  maxPending : ℤ
  hardwareType : ℕ
  protocolType : ℕ
deriving DecidableEq, Repr

structure Handler where
  cache : Cache := []
  ourProtoAddr : Bytes := []
  ourHWAddr : Bytes := List.replicate 6 0
  htype : ℕ := 0
  protoType : ℕ := 0
  /-- A resolve callback is set. -/
  onresolve : Bool := false
deriving DecidableEq, Repr

/-- MaxPending + MaxQueries in 64 bits; a sum that wraps to a negative one asks for nothing. -/
def HandlerConfig.size (cfg : HandlerConfig) : ℕ :=
  ((cfg.maxPending + cfg.maxQueries).bmod (2 ^ 64)).toNat

namespace Handler

def updateProtoAddr (h : Handler) (protoAddr : Bytes) : Handler × Option Err :=
  if protoAddr.length ≠ h.ourProtoAddr.length then (h, some .mismatchLen)
  else ({ h with ourProtoAddr := protoAddr }, none)

/-- The callback is dropped with the rest; the memory of the cache is kept. -/
def reset (h : Handler) (cfg : HandlerConfig) : Except Fault (Handler × Option Err) :=
  if cfg.hardwareAddr.length = 0 ∨ 255 < cfg.hardwareAddr.length ∨
      cfg.protocolAddr.length = 0 ∨ 255 < cfg.protocolAddr.length then
    .ok (h, some .invalidConfig)
  else if cfg.maxQueries ≤ 0 ∨ cfg.maxPending ≤ 0 then .ok (h, some .invalidConfig)
  else if cfg.hardwareType ≠ 1 ∨ cfg.protocolType ≠ typeIPv4 ∧ cfg.protocolType ≠ typeIPv6 then
    .ok (h, some .unsupported)
  else if cfg.hardwareAddr.length < 6 then .error .sliceBounds
  else
    .ok ({ cache := h.cache.reset cfg.size
           ourProtoAddr := cfg.protocolAddr
           ourHWAddr := cfg.hardwareAddr.take 6
           htype := cfg.hardwareType
           protoType := cfg.protocolType }, none)

def abortPending (h : Handler) : Handler :=
  { h with cache := h.cache.release fun f => f.pendingResponse || f.incomplete }

def cacheSeed (h : Handler) (protoAddr hwAddr : Bytes) : Except Fault (Handler × Option Err) :=
  if hwAddr.length ≠ 6 then .ok (h, some .unsupported)
  else do
    let (c, i) ← h.cache.acquireNext
    return ({ h with cache := c.set i (use (c.entry i) (.ofBytes hwAddr) protoAddr {}) }, none)

def cacheLookup (h : Handler) (protoAddr : Bytes) : Except Fault (Except Err Bytes) := do
  match ← h.cache.lookup protoAddr with
  | none => return .error .queryNotFound
  | some i =>
    if (h.cache.entry i).flags.incomplete then return .error .queryPending
    return .ok (h.cache.entry i).mac.bytes

def cacheRemove (h : Handler) (protoAddr : Bytes) : Except Fault (Handler × Option Err) := do
  match ← h.cache.lookup protoAddr with
  | none => return (h, some .queryNotFound)
  | some i => return ({ h with cache := h.cache.set i {} }, none)

def startQuery (h : Handler) (proto : Bytes) (triggerCallback : Bool) :
    Except Fault (Handler × Option Err) :=
  if proto.length ≠ h.ourProtoAddr.length then .ok (h, some .mismatchLen)
  else do
    let (c, i) ← h.cache.acquireNext
    let e := use (c.entry i) {} proto
      { incomplete := true, incompletePendingQuery := true, priority := true
        resolveTriggersCallback := triggerCallback }
    return ({ h with cache := c.set i e }, none)

def newframe (h : Handler) (b : Bytes) : Option Err :=
  if b.length < 28 then some .truncatedFrame
  else if h.protoType = typeIPv6 ∧ b.length < 52 then some .mismatch
  else none

/-- The frame for a slot, in a buffer of `room` bytes of which `before` precede the frame. -/
def put (h : Handler) (e : Entry) (room before op : ℕ) : Except Err Emission :=
  let n := if e.flags.ipv6 then 16 else 4
  if h.ourProtoAddr.length ≠ n then .error .invalidAddr
  else if e.flags.ipv6 ∧ room < 52 then .error .shortBuffer
  else
    .ok { op
          senderHW := h.ourHWAddr
          senderProto := h.ourProtoAddr
          targetHW := e.mac.bytes
          targetProto := e.addr.take n
          dst :=
            if before < 14 then none
            else if op = opRequest then some (List.replicate 6 255)
            else some e.mac.bytes }

/-- The slot that is due, without the flag that made it so: responses come first. -/
def due (c : Cache) : Option (ℕ × ℕ × Flags) :=
  match c.getNextFlagged (·.pendingResponse) with
  | some i => some (i, opReply, { (c.entry i).flags with pendingResponse := false })
  | none =>
    match c.getNextFlagged (·.incompletePendingQuery) with
    | some i => some (i, opRequest, { (c.entry i).flags with incompletePendingQuery := false })
    | none => none

/-- The flag is cleared even if the frame cannot be written. -/
def encapsulate (h : Handler) (len offsetToFrame : ℕ) :
    Except Fault (Handler × Except Err (Option Emission)) :=
  if len < offsetToFrame then .error .sliceBounds
  else if len - offsetToFrame < 28 then .ok (h, .error .truncatedFrame)
  else if h.protoType = typeIPv6 ∧ len - offsetToFrame < 52 then .ok (h, .error .mismatch)
  else
    match due h.cache with
    | none => .ok (h, .ok none)
    | some (i, op, flags) =>
      let e := { h.cache.entry i with flags }
      .ok ({ h with cache := h.cache.set i e },
        (h.put e (len - offsetToFrame) offsetToFrame op).map some)

structure Resolved where
  mac : Bytes
  proto : Bytes
deriving DecidableEq, Repr

def onRequest (h : Handler) (b : Bytes) : Except Fault Handler :=
  if Frame.targetProto b ≠ h.ourProtoAddr then .ok h
  else do
    let (c, i) ← h.cache.acquireNext
    let e := use (c.entry i) (.ofBytes (Frame.senderHW b)) (Frame.senderProto b)
      { pendingResponse := true }
    return { h with cache := c.set i e }

def answered (e : Entry) (hw : Bytes) : Entry :=
  { e with
    mac := e.mac.copy hw
    flags := { e.flags with incomplete := false, incompletePendingQuery := false } }

/-- The first slot for the sender is answered, whatever it was made for. -/
def onReply (h : Handler) (b : Bytes) : Except Fault (Handler × Option Resolved) := do
  match ← h.cache.lookup (Frame.senderProto b) with
  | none => return (h, none)
  | some i =>
    let e := answered (h.cache.entry i) (Frame.senderHW b)
    return ({ h with cache := h.cache.set i e },
      if e.flags.resolveTriggersCallback && h.onresolve then
        some { mac := e.mac.bytes, proto := Frame.senderProto b }
      else none)

def accepts (h : Handler) (b : Bytes) : Option Err :=
  if h.newframe b ≠ none then h.newframe b
  else if Frame.validateSize b ≠ none then Frame.validateSize b
  else if Frame.hwtype b ≠ h.htype ∨ Frame.hwlen b ≠ 6 then some .mismatch
  else if Frame.prototype b ≠ h.protoType ∨ Frame.protolen b ≠ h.ourProtoAddr.length then
    some .mismatch
  else none

def demux (h : Handler) (ethFrame : Bytes) (frameOffset : ℕ) :
    Except Fault (Handler × Option Err × Option Resolved) :=
  if ethFrame.length < frameOffset then .error .sliceBounds
  else
    let b := ethFrame.drop frameOffset
    if h.accepts b ≠ none then .ok (h, h.accepts b, none)
    else if Frame.operation b = opRequest then do
      let h ← h.onRequest b
      return (h, none, none)
    else if Frame.operation b = opReply then do
      let (h, resolved) ← h.onReply b
      return (h, none, resolved)
    else .ok (h, some .unsupported, none)

end Handler

end Lneto.ArpHandler
