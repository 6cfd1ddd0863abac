import Lneto.DhcpFrame
import Lneto.KeyedTables

/-!
The DHCPv4 server: its table of clients, the allocation of addresses, and the
answers it owes. The order in which a map is walked is left open: a `choice`
says which of the matching clients is found.
-/
namespace Lneto.DhcpServer

open AddressCache (Mac6 Fault copyInto)
open Ipv4Prefix DhcpFrame KeyedTables

/-- A client identifier or hardware address, with zeros up to 36 bytes. -/
abbrev Key := Bytes

def padKey (id : Bytes) : Key := copyInto (List.replicate 36 0) id

structure Entry where
  xid : UInt32 := 0
  addr : UInt32 := 0
  hwaddr : Mac6 := {}
  state : ClientState := .zero
deriving DecidableEq, Repr

def Entry.awaits (e : Entry) : Bool := e.state == .init || e.state == .requesting

structure ServerConfig where
  serverAddr : UInt32
  gateway : UInt32 := 0
  dns : UInt32 := 0
  subnet : Prefix4
  leaseSeconds : UInt32 := 0
deriving DecidableEq, Repr

structure Server where
  nextAddr : UInt32 := 0
  subnet : Prefix4 := {}
  hosts : Table Key Entry := ∅
  pending : ℤ := 0
  leaseSeconds : UInt32 := 0
  siaddr : UInt32 := 0
  gwaddr : UInt32 := 0
  dns : UInt32 := 0

structure Parsed where
  msgType : UInt8 := 0
  clientID : Bytes := []
  reqAddr : Option UInt32 := none
deriving DecidableEq, Repr

def readOption (p : Parsed) (opt : UInt8) (data : Bytes) : Parsed × Option Err :=
  if opt = optMessageType then
    (if data.length = 1 then { p with msgType := data.headD 0 } else p, none)
  else if opt = optClientIdentifier then
    (if data.length ≤ 36 then { p with clientID := data } else p, none)
  else if opt = optParameterRequestList then
    (p, if 36 < data.length then some .tooManyOptions else none)
  else if opt = optRequestedIPaddress then
    (if data.length = 4 then { p with reqAddr := some (addr2bits data) } else p, none)
  else (p, none)

def understand (buf : Bytes) : Except Err (Frame × Parsed) := do
  let f ← Frame.ofBytes buf
  match validateSize f.options with
  | some err => .error err
  | none =>
    match forEachOption readOption {} f.options with
    | (_, some err) => .error err
    | (p, none) => return (f, p)

namespace Server

def configured (cfg : ServerConfig) : Server where
  siaddr := cfg.serverAddr
  gwaddr := cfg.gateway
  dns := cfg.dns
  subnet := cfg.subnet
  leaseSeconds := if cfg.leaseSeconds = 0 then 3600 else cfg.leaseSeconds
  nextAddr := cfg.subnet.next cfg.serverAddr

def configure (sv : Server) (cfg : ServerConfig) : Server × Option Err :=
  if !cfg.subnet.isValid then (sv, some .invalidSubnet)
  else if !cfg.subnet.containsBits cfg.serverAddr then (sv, some .serverOutsideSubnet)
  else (configured cfg, none)

def isAddrAssigned (sv : Server) (addr : UInt32) : Bool :=
  sv.hosts.entries.any fun e => e.2.addr == addr

/-- The requested address is taken if it is free. -/
def grants (sv : Server) (reqAddr : Option UInt32) : Bool :=
  reqAddr.any fun candidate =>
    sv.subnet.containsBits candidate && candidate != sv.siaddr && !sv.isAddrAssigned candidate

def advance (sv : Server) : Server :=
  let next := sv.subnet.next sv.nextAddr
  { sv with nextAddr := if next = sv.siaddr then sv.subnet.next next else next }

/-- An address whose host bits are all set is not given away. -/
def allocAddr (sv : Server) (reqAddr : Option UInt32) : Server × Option UInt32 :=
  if sv.grants reqAddr then (sv, reqAddr)
  else
    (sv.advance,
      if sv.nextAddr.toNat % sv.subnet.size = sv.subnet.size - 1 then none else some sv.nextAddr)

def getClientByIP (sv : Server) (choice : Key) (ip : UInt32) : Option (Key × Entry) :=
  match sv.hosts.lookup choice with
  | some e =>
    if e.addr = ip then some (choice, e)
    else (sv.hosts.entries.find? fun x => x.2.addr == ip).map fun x => (x.1, x.2)
  | none => (sv.hosts.entries.find? fun x => x.2.addr == ip).map fun x => (x.1, x.2)

/-- The key of a message and the client it stands for; a search by address that fails leaves the
zero key. -/
def locate (sv : Server) (choice : Key) (f : Frame) (p : Parsed) : Key × Option Entry :=
  if p.clientID = [] then
    match sv.hosts.lookup (padKey f.chaddr.bytes) with
    | some e => (padKey f.chaddr.bytes, some e)
    | none =>
      if f.ciaddr = 0 then (padKey f.chaddr.bytes, none)
      else
        match sv.getClientByIP choice f.ciaddr with
        | some (k, e) => (k, some e)
        | none => (padKey [], none)
  else (padKey p.clientID, sv.hosts.lookup (padKey p.clientID))

def file (sv : Server) (key : Key) (e : Entry) : Server :=
  { sv with hosts := sv.hosts.insert key e }

/-- One answer less is owed if the client was waiting for one. -/
def forgive (sv : Server) (found : Option Entry) : Server :=
  { sv with pending := sv.pending - (if found.any Entry.awaits then 1 else 0) }

def discovered (f : Frame) (addr : UInt32) : Entry :=
  { xid := f.xid, addr, hwaddr := f.chaddr, state := .init }

def onDiscover (sv : Server) (key : Key) (found : Option Entry) (f : Frame)
    (reqAddr : Option UInt32) : Server × Option Err :=
  match found with
  | some client =>
    let sv := sv.forgive found
    (({ sv with pending := sv.pending + 1 } : Server).file key (discovered f client.addr), none)
  | none =>
    match sv.allocAddr reqAddr with
    | (sv, none) => (sv, some .poolExhausted)
    | (sv, some addr) =>
      (({ sv with pending := sv.pending + 1 } : Server).file key (discovered f addr), none)

def onRequest (sv : Server) (key : Key) (found : Option Entry) (f : Frame) : Server × Option Err :=
  match found with
  | none => (sv, some .demuxFail)
  | some client =>
    if f.xid ≠ client.xid then (sv, some .demuxFail)
    else if client.state = .selecting then
      (({ sv with pending := sv.pending + 1 } : Server).file key
        { client with state := .requesting }, none)
    else if client.state = .requesting then (sv.file key client, none)
    else (sv, some .demuxFail)

/-- The release of an unknown client leaves an empty entry. -/
def onRelease (sv : Server) (key : Key) (found : Option Entry) : Server :=
  match found with
  | some _ => { sv.forgive found with hosts := sv.hosts.erase key }
  | none => sv.file key {}

def dispatch (sv : Server) (choice : Key) (f : Frame) (p : Parsed) : Server × Option Err :=
  let (key, found) := sv.locate choice f p
  if p.msgType = msgDiscover then sv.onDiscover key found f p.reqAddr
  else if p.msgType = msgRequest then sv.onRequest key found f
  else if p.msgType = msgRelease then (sv.onRelease key found, none)
  else (sv, some .demuxFail)

def demux (sv : Server) (choice : Key) (buf : Bytes) : Server × Option Err :=
  match understand buf with
  | .error err => (sv, some err)
  | .ok (f, p) => sv.dispatch choice f p

def pick (sv : Server) (choice : Key) : Option (Key × Entry) :=
  match sv.hosts.lookup choice with
  | some e =>
    if e.awaits then some (choice, e)
    else (sv.hosts.entries.find? fun x => x.2.awaits).map fun x => (x.1, x.2)
  | none => (sv.hosts.entries.find? fun x => x.2.awaits).map fun x => (x.1, x.2)

def replyOptions (sv : Server) (msgType : UInt8) : List (UInt8 × Bytes) :=
  [(optMessageType, [msgType]), (optServerIdentification, be32 sv.siaddr)] ++
    (if sv.gwaddr ≠ 0 then [(optRouter, be32 sv.gwaddr)] else []) ++
    (if sv.subnet.isValid then
      [(optSubnetMask, be32 (UInt32.ofNat (2 ^ 32 - sv.subnet.size)))] else []) ++
    (if sv.dns ≠ 0 then [(optDNSServers, be32 sv.dns)] else []) ++
    (if 0 < sv.leaseSeconds then
      [(optIPAddressLeaseTime, be32 sv.leaseSeconds),
        (optRenewTimeValue, be32 (sv.leaseSeconds / 2)),
        (optRebindingTimeValue, be32 (sv.leaseSeconds * 7 / 8))] else [])

def answer (e : Entry) : UInt8 := if e.state = .init then msgOffer else msgAck

def answered (e : Entry) : Entry :=
  { e with state := if e.state = .init then .selecting else .bound }

/-- The header is cleared after the options are written, so that `ciaddr` stays zero. -/
def reply (sv : Server) (e : Entry) : Frame where
  op := opReply
  xid := e.xid
  yiaddr := e.addr
  siaddr := sv.siaddr
  giaddr := sv.gwaddr
  chaddr := e.hwaddr
  cookie := magicCookie
  options := encodeAll (sv.replyOptions (answer e))

def deliver (sv : Server) (key : Key) (e : Entry) : Server :=
  { sv with hosts := sv.hosts.insert key (answered e), pending := sv.pending - 1 }

/-- An answer in a buffer of `room` bytes, inside of an IP packet of the version `carrier` if
there is one. -/
def encapsulate (sv : Server) (room : ℕ) (carrier : Option ℕ) (choice : Key) :
    Except Fault (Server × Except Err (Option Frame)) :=
  if room < 240 then .error .sliceBounds
  else if room < 495 then .ok (sv, .error .optionNotFit)
  else if sv.pending = 0 then .ok (sv, .ok none)
  else
    match sv.pick choice with
    | none => .ok (sv, .ok none)
    | some (key, e) =>
      if carrier.all (· == 4) then
        .ok (sv.deliver key e, .ok (some (sv.reply e)))
      else .ok (sv, .error .setIPAddrs)

end Server

inductive ServerOp where
  | demux (choice : Key) (buf : Bytes)
  | encapsulate (room : ℕ) (carrier : Option ℕ) (choice : Key)
deriving DecidableEq, Repr

def step (sv : Server) : ServerOp → Except Fault Server
  | .demux choice buf => .ok (sv.demux choice buf).1
  | .encapsulate room carrier choice => (sv.encapsulate room carrier choice).map Prod.fst

namespace Server

theorem configure_ok {sv : Server} {cfg : ServerConfig} (h : (sv.configure cfg).2 = none) :
    cfg.subnet.isValid ∧ cfg.subnet.containsBits cfg.serverAddr ∧
      (sv.configure cfg).1 = configured cfg := by
  unfold configure at h ⊢
  split_ifs at h ⊢ with h1 h2
  exact ⟨by simpa using h1, by simpa using h2, rfl⟩

theorem isAddrAssigned_eq_false {sv : Server} {addr : UInt32} (h : sv.isAddrAssigned addr = false)
    {k : Key} {e : Entry} (hk : sv.hosts.lookup k = some e) : e.addr ≠ addr := by
  intro heq
  rw [isAddrAssigned, List.any_eq_false] at h
  have hmem : (⟨k, e⟩ : Sigma fun _ : Key => Entry) ∈ sv.hosts.entries := AList.mem_lookup_iff.1 hk
  exact h _ hmem (by simp [heq])

theorem allocAddr_hosts (sv : Server) (reqAddr : Option UInt32) :
    (sv.allocAddr reqAddr).1.hosts = sv.hosts ∧ (sv.allocAddr reqAddr).1.pending = sv.pending := by
  unfold allocAddr
  split
  all_goals exact ⟨rfl, rfl⟩

theorem find_entry {sv : Server} {p : Entry → Bool} {choice k : Key} {e : Entry}
    (h : (match sv.hosts.lookup choice with
      | some e => if p e then some (choice, e)
        else (sv.hosts.entries.find? fun x => p x.2).map fun x => (x.1, x.2)
      | none => (sv.hosts.entries.find? fun x => p x.2).map fun x => (x.1, x.2)) = some (k, e)) :
    sv.hosts.lookup k = some e ∧ p e := by
  have hfind : ((sv.hosts.entries.find? fun x => p x.2).map fun x => (x.1, x.2)) = some (k, e) →
      sv.hosts.lookup k = some e ∧ p e := by
    intro hsome
    obtain ⟨⟨k', e'⟩, hx, heq⟩ := Option.map_eq_some_iff.1 hsome
    cases heq
    have hp := List.find?_some hx
    exact ⟨AList.mem_lookup_iff.2 (List.mem_of_find?_eq_some hx), hp⟩
  cases hlook : sv.hosts.lookup choice with
  | none =>
    rw [hlook] at h
    exact hfind h
  | some e' =>
  rw [hlook] at h
  simp only at h
  split at h
  · rename_i hp
    cases h
    exact ⟨hlook, hp⟩
  · exact hfind h

theorem getClientByIP_some {sv : Server} {choice k : Key} {ip : UInt32} {e : Entry}
    (h : sv.getClientByIP choice ip = some (k, e)) : sv.hosts.lookup k = some e ∧ e.addr = ip := by
  have hfound := @find_entry sv (fun e => e.addr == ip) choice k e
    (by simpa [getClientByIP] using h)
  exact ⟨hfound.1, by simpa using hfound.2⟩

theorem pick_some {sv : Server} {choice k : Key} {e : Entry} (h : sv.pick choice = some (k, e)) :
    sv.hosts.lookup k = some e ∧ e.awaits :=
  find_entry h

theorem awaits_answered (e : Entry) : (answered e).awaits = false := by
  unfold answered Entry.awaits
  split_ifs
  · rfl
  · rfl

theorem locate_found {sv : Server} {choice key : Key} {f : Frame} {p : Parsed}
    {found : Option Entry} (h : sv.locate choice f p = (key, found)) :
    ∀ e, found = some e → sv.hosts.lookup key = some e := by
  rintro e rfl
  unfold locate at h
  split at h
  · cases hlook : sv.hosts.lookup (padKey f.chaddr.bytes) with
    | some e' =>
      rw [hlook] at h
      cases h
      exact hlook
    | none =>
    rw [hlook] at h
    simp only at h
    split at h
    · cases h
    cases hip : sv.getClientByIP choice f.ciaddr with
    | none =>
      rw [hip] at h
      cases h
    | some r =>
    rw [hip] at h
    cases h
    exact (getClientByIP_some hip).1
  · obtain ⟨rfl, hlook⟩ := Prod.mk.inj h
    exact hlook

/-- A call either sends the answer of a client that waits for one, or leaves the server alone. -/
theorem encapsulate_cases {sv sv' : Server} {room : ℕ} {carrier : Option ℕ} {choice : Key}
    {r : Except Err (Option Frame)} (h : sv.encapsulate room carrier choice = .ok (sv', r)) :
    (sv' = sv ∧ ∀ out, r ≠ .ok (some out)) ∨
      ∃ key e, sv.pick choice = some (key, e) ∧ r = .ok (some (sv.reply e)) ∧
        sv' = sv.deliver key e := by
  unfold encapsulate at h
  split_ifs at h
  · cases h
    exact .inl ⟨rfl, by simp⟩
  · cases h
    exact .inl ⟨rfl, by simp⟩
  · cases hpick : sv.pick choice <;> rw [hpick] at h <;> cases h
    · exact .inl ⟨rfl, by simp⟩
    · exact .inr ⟨_, _, rfl, rfl, rfl⟩
  · cases hpick : sv.pick choice <;> rw [hpick] at h <;> cases h
    · exact .inl ⟨rfl, by simp⟩
    · exact .inl ⟨rfl, by simp⟩

end Server

end Lneto.DhcpServer
