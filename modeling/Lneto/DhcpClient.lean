import Lneto.DhcpFrame

/-!
The DHCPv4 client: the request it begins, the messages it sends, and what it
takes from the messages it receives. Options are written to the client as they
are read, before the message is judged.
-/
namespace Lneto.DhcpClient

open AddressCache (Mac6)
open Ipv4Prefix DhcpFrame

variable {room : ℕ}

structure Addr4 where
  addr : UInt32 := 0
  valid : Bool := false
deriving DecidableEq, Repr

/-- Data of another length takes the validity, not the address. -/
def Addr4.setmaybe (a : Addr4) (data : Bytes) : Addr4 :=
  if data.length = 4 then ⟨addr2bits data, true⟩ else { a with valid := false }

def maybeU32 (data : Bytes) : UInt32 := if data.length = 4 then addr2bits data else 0

/-- The terms of a lease: who gives it, where it leads, how long it lasts. -/
structure Terms where
  svip : Addr4 := {}
  router : Addr4 := {}
  subnet : Addr4 := {}
  tRenew : UInt32 := 0
  tRebind : UInt32 := 0
  tIPLease : UInt32 := 0
deriving DecidableEq, Repr

def setTerm (t : Terms) (opt : UInt8) (data : Bytes) : Terms :=
  if opt = optRenewTimeValue then { t with tRenew := maybeU32 data }
  else if opt = optIPAddressLeaseTime then { t with tIPLease := maybeU32 data }
  else if opt = optRebindingTimeValue then { t with tRebind := maybeU32 data }
  else if opt = optServerIdentification then { t with svip := t.svip.setmaybe data }
  else if opt = optRouter then { t with router := t.router.setmaybe data }
  else if opt = optSubnetMask then { t with subnet := t.subnet.setmaybe data }
  else t

structure Settings where
  terms : Terms := {}
  broadcast : Addr4 := {}
  hostname : Bytes := []
  dns : List UInt32 := []
  ntps : List UInt32 := []
deriving DecidableEq, Repr

/-- A list of addresses is taken once, and only as a whole. -/
def setServers (servers : List UInt32) (data : Bytes) : List UInt32 :=
  if servers ≠ [] ∨ data.length % 4 ≠ 0 then servers
  else (List.range (data.length / 4)).map fun i => addr2bits ((data.drop (4 * i)).take 4)

def setOption (s : Settings) (opt : UInt8) (data : Bytes) : Settings × Option Err :=
  ({ terms := setTerm s.terms opt data
     broadcast := if opt = optBroadcastAddress then s.broadcast.setmaybe data else s.broadcast
     hostname := if opt = optHostName ∧ data.length < 16 then data else s.hostname
     dns := if opt = optDNSServers then setServers s.dns data else s.dns
     ntps := if opt = optNTPServersAddresses then setServers s.ntps data else s.ntps }, none)

structure RequestConfig where
  requestedAddr : UInt32 := 0
  clientHardwareAddr : Mac6
  hostname : Bytes := []
  clientID : Bytes := []
deriving DecidableEq, Repr

structure Client where
  currentXID : UInt32 := 0
  state : ClientState := .zero
  clientMAC : Mac6 := {}
  clientID : Bytes := []
  reqHostname : Bytes := []
  reqIP : Addr4 := {}
  offer : Addr4 := {}
  siip : Addr4 := {}
  gateway : Addr4 := {}
  settings : Settings := {}
deriving DecidableEq, Repr

variable {client : Client}

namespace Client

def begun (xid : UInt32) (cfg : RequestConfig) : Client where
  currentXID := xid
  state := .init
  clientMAC := cfg.clientHardwareAddr
  clientID := if cfg.clientID ≠ [] then cfg.clientID else cfg.clientHardwareAddr.bytes
  reqHostname := cfg.hostname
  reqIP := ⟨cfg.requestedAddr, cfg.requestedAddr != 0⟩

def beginRequest (client : Client) (xid : UInt32) (cfg : RequestConfig) : Client × Option Err :=
  if 36 < cfg.hostname.length then (client, some .invalidConfig)
  else if client.state ≠ .init ∧ client.state ≠ .zero then (client, some .invalidConfig)
  else if xid = 0 then (client, some .invalidConfig)
  else if 32 < cfg.clientID.length then (client, some .invalidConfig)
  else (begun xid cfg, none)

def isClosed (client : Client) : Bool := client.state == .zero || client.currentXID == 0

/-- Subnet mask, time offset, router, MTU, broadcast, DNS, domain name and NTP. -/
def defaultParamReqList : Bytes := [1, 2, 3, 26, 28, 6, 15, 42]

def discoverOptions (client : Client) (room : ℕ) : List (UInt8 × Bytes) :=
  [(optMessageType, [msgDiscover]), (optParameterRequestList, defaultParamReqList),
    (optMaximumMessageSize,
      [UInt8.ofNat (min room 65535 / 256), UInt8.ofNat (min room 65535)])] ++
    if client.reqIP.valid then [(optRequestedIPaddress, be32 client.reqIP.addr)] else []

def requestOptions (client : Client) : List (UInt8 × Bytes) :=
  [(optMessageType, [msgRequest]), (optRequestedIPaddress, be32 client.offer.addr),
    (optServerIdentification, be32 client.settings.terms.svip.addr)]

def identity (client : Client) : List (UInt8 × Bytes) :=
  (optClientIdentifier, client.clientID) ::
    if client.reqHostname = [] then [] else [(optHostName, client.reqHostname)]

def frame (client : Client) (opts : List (UInt8 × Bytes)) : Frame where
  op := opRequest
  xid := client.currentXID
  secs := 1
  yiaddr := client.offer.addr
  siaddr :=
    if client.state = .init then 0xffffffff
    else if client.siip.valid then client.siip.addr
    else client.settings.terms.svip.addr
  chaddr := client.clientMAC
  cookie := magicCookie
  options := encodeAll (opts ++ client.identity)

def encapsulate (client : Client) (room : ℕ) : Client × Except Err (Option Frame) :=
  if client.isClosed then (client, .error .closed)
  else if client.state = .selecting ∧ client.offer.valid = false then (client, .ok none)
  else if client.state = .bound ∨ client.state = .requesting then (client, .ok none)
  else if room < 240 then (client, .error .truncatedFrame)
  else if room < 495 then (client, .error .shortBuffer)
  else if client.state = .init then
    ({ client with state := .selecting },
      .ok (some (client.frame (client.discoverOptions room))))
  else if client.state = .selecting then
    ({ client with state := .requesting }, .ok (some (client.frame client.requestOptions)))
  else (client, .error .bug)

/-- The first message type that is one byte. -/
def getMessageType (options : Bytes) : UInt8 :=
  (forEachOption (fun s opt data =>
    if opt = optMessageType ∧ data.length = 1 then (data.headD 0, some .eof) else (s, none))
    (255 : UInt8) options).1

def judge (client : Client) (f : Frame) : Client × Option Err :=
  match client.state with
  | .selecting =>
    if getMessageType f.options = msgOffer ∧ client.offer.valid = false then
      ({ client with gateway := ⟨f.giaddr, true⟩, offer := ⟨f.yiaddr, true⟩
                     siip := ⟨f.siaddr, true⟩ }, none)
    else (client, none)
  | .requesting =>
    if getMessageType f.options = msgAck then ({ client with state := .bound }, none)
    else (client, none)
  | _ => (client, some .bug)

def receive (client : Client) (f : Frame) : Client × Option Err :=
  if f.xid ≠ client.currentXID then (client, some .mismatch)
  else if f.cookie ≠ magicCookie then (client, some .invalidField)
  else if getMessageType f.options = msgNack then (client, some .packetDrop)
  else if getMessageType f.options ≠ msgOffer ∧ getMessageType f.options ≠ msgAck then
    (client, some .bug)
  else
    match forEachOption setOption client.settings f.options with
    | (settings, some err) => ({ client with settings }, some err)
    | (settings, none) => ({ client with settings } : Client).judge f

def demux (client : Client) (buf : Bytes) : Client × Option Err :=
  if client.isClosed then (client, some .closed)
  else
    match Frame.ofBytes buf with
    | .error err => (client, some err)
    | .ok f => client.receive f

def subnetCIDRBits (client : Client) : ℕ :=
  if client.settings.terms.subnet.valid then
    32 - trailingZeros 32 client.settings.terms.subnet.addr.toNat
  else 0
where
  trailingZeros : ℕ → ℕ → ℕ
    | 0, _ => 0
    | fuel + 1, v => if v % 2 = 1 then 0 else trailingZeros fuel (v / 2) + 1

theorem beginRequest_ok {xid : UInt32} {cfg : RequestConfig}
    (h : (client.beginRequest xid cfg).2 = none) :
    (client.beginRequest xid cfg).1 = begun xid cfg ∧ xid ≠ 0 ∧ cfg.hostname.length ≤ 36 ∧
      cfg.clientID.length ≤ 32 := by
  unfold beginRequest at h ⊢
  split_ifs at h ⊢ with h1 h2 h3 h4
  exact ⟨rfl, h3, not_lt.1 h1, not_lt.1 h4⟩

theorem judge_offer {f : Frame} (hst : client.state = .selecting)
    (hopen : client.offer.valid = false) (htype : getMessageType f.options = msgOffer) :
    client.judge f =
      ({ client with gateway := ⟨f.giaddr, true⟩, offer := ⟨f.yiaddr, true⟩
                     siip := ⟨f.siaddr, true⟩ }, none) := by
  simp [judge, hst, hopen, htype]

theorem judge_ack {f : Frame} (hst : client.state = .requesting)
    (htype : getMessageType f.options = msgAck) :
    client.judge f = ({ client with state := .bound }, none) := by
  simp [judge, hst, htype]

section
variable (hxid : client.currentXID ≠ 0)
include hxid

theorem encapsulate_waiting
    (h : client.state = .selecting ∧ client.offer.valid = false ∨ client.state = .requesting ∨
      client.state = .bound) (room : ℕ) : client.encapsulate room = (client, .ok none) := by
  unfold encapsulate isClosed
  rcases h with ⟨hst, hoffer⟩ | hst | hst
  · simp [hst, hoffer, hxid]
  all_goals simp [hst, hxid]

theorem encapsulate_discover (hst : client.state = .init)
    (hroom : 495 ≤ room) : client.encapsulate room = ({ client with state := .selecting },
      .ok (some (client.frame (client.discoverOptions room)))) := by
  unfold encapsulate isClosed
  have h240 : ¬room < 240 := by omega
  have h495 : ¬room < 495 := by omega
  simp [hst, hxid, h240, h495]

theorem encapsulate_request (hst : client.state = .selecting)
    (hoffer : client.offer.valid) (hroom : 495 ≤ room) :
    client.encapsulate room = ({ client with state := .requesting },
      .ok (some (client.frame client.requestOptions))) := by
  unfold encapsulate isClosed
  have h240 : ¬room < 240 := by omega
  have h495 : ¬room < 495 := by omega
  simp [hst, hxid, hoffer, h240, h495]

end

theorem encapsulate_cases {client' : Client} {r : Except Err (Option Frame)}
    (h : client.encapsulate room = (client', r)) : (client' = client ∧ ∀ out, r ≠ .ok (some out)) ∨
      (client.state = .init ∧ client' = { client with state := .selecting } ∧
        r = .ok (some (client.frame (client.discoverOptions room)))) ∨
      (client.state = .selecting ∧ client.offer.valid ∧
        client' = { client with state := .requesting } ∧
        r = .ok (some (client.frame client.requestOptions))) := by
  unfold encapsulate at h
  split_ifs at h with h1 h2 h3 h4 h5 h6 h7 <;> cases h
  · exact .inl ⟨rfl, by simp⟩
  · exact .inl ⟨rfl, by simp⟩
  · exact .inl ⟨rfl, by simp⟩
  · exact .inl ⟨rfl, by simp⟩
  · exact .inl ⟨rfl, by simp⟩
  · exact .inr (.inl ⟨h6, rfl, rfl⟩)
  · have hvalid : client.offer.valid := by
      rw [← Bool.not_eq_false]
      exact fun hfalse => h2 ⟨h7, hfalse⟩
    exact .inr (.inr ⟨h7, hvalid, rfl, rfl⟩)
  · exact .inl ⟨rfl, by simp⟩

end Client

end Lneto.DhcpClient
