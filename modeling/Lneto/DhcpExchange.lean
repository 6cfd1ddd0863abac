import Lneto.DhcpServer
import Lneto.DhcpClient

/-!
The exchange of messages between one server and any number of clients, over a
link that hands each message to its peer once. No call fails, and when nothing
is left to send every client is bound to an address of its own.
-/
namespace Lneto.DhcpExchange

open AddressCache (Mac6 Fault)
open Ipv4Prefix DhcpFrame DhcpServer DhcpClient KeyedTables GuardedRuns Client Entry Function List
  AList
open Server (replyOptions discovered answered)
open Server hiding encapsulate demux

/-- A client that can make itself known, and asks for no address. -/
structure Speaks (client : Client) : Prop where
  known : client.clientID ≠ []
  short : client.clientID.length ≤ 36
  hostname : client.reqHostname.length < 256
  open_ : client.reqIP.valid = false

variable {client : Client}

section
variable (h : Speaks client)
include h

theorem proper_identity : ∀ o ∈ client.identity, Proper o := by
  have hshort := h.short
  intro o ho
  rcases mem_cons.1 ho with rfl | ho
  · exact proper_of (by decide) (by omega)
  split_ifs at ho
  · cases ho
  rw [mem_singleton] at ho
  subst ho
  exact proper_of (by decide) h.hostname

theorem visit_identity (p : Parsed) :
    visit readOption p client.identity = ({ p with clientID := client.clientID }, none) := by
  have hid : readOption p optClientIdentifier client.clientID =
      ({ p with clientID := client.clientID }, none) := by
    rw [readOption, if_neg (by decide), if_pos rfl, if_pos h.short]
  rw [identity, visit]
  simp only [hid]
  split_ifs
  · rfl
  · rfl

theorem understand_frame {opts : List (UInt8 × Bytes)} {p : Parsed}
    (hproper : ∀ o ∈ opts, Proper o) (hopts : visit readOption {} opts = (p, none)) :
    understand (client.frame opts).bytes =
      .ok (client.frame opts, { p with clientID := client.clientID }) := by
  have hall : ∀ o ∈ opts ++ client.identity, Proper o := by
    intro o ho
    rcases mem_append.1 ho with ho | ho
    · exact hproper o ho
    · exact proper_identity h o ho
  have hvisit : visit readOption {} (opts ++ client.identity) =
      ({ p with clientID := client.clientID }, none) := by
    rw [visit_append hopts, visit_identity h]
  have hsize : validateSize (client.frame opts).options = none := by
    rw [validateSize, Client.frame, forEachOption_encodeAll _ _ hall, visit_unit]
    rfl
  have heach : forEachOption readOption {} (client.frame opts).options =
      ({ p with clientID := client.clientID }, none) := by
    rw [← hvisit]
    exact forEachOption_encodeAll readOption {} hall
  simp only [understand, ofBytes_bytes, bind, Except.bind, hsize, heach]
  rfl

theorem understand_discover (room : ℕ) :
    understand (client.frame (client.discoverOptions room)).bytes =
      .ok (client.frame (client.discoverOptions room),
        { msgType := msgDiscover, clientID := client.clientID }) := by
  have hopts : client.discoverOptions room =
      [(optMessageType, [msgDiscover]), (optParameterRequestList, defaultParamReqList),
        (optMaximumMessageSize,
          [UInt8.ofNat (min room 65535 / 256), UInt8.ofNat (min room 65535)])] := by
    rw [discoverOptions, h.open_]
    rfl
  rw [hopts]
  refine understand_frame h (p := { msgType := msgDiscover }) ?_ rfl
  intro o ho
  simp only [mem_cons, not_mem_nil, or_false] at ho
  rcases ho with rfl | rfl | rfl
  · exact proper_of (by decide) (by decide)
  · exact proper_of (by decide) (by decide)
  · exact proper_of (by decide) (by simp)

theorem understand_request :
    understand (client.frame client.requestOptions).bytes = .ok (client.frame client.requestOptions,
        { msgType := msgRequest, clientID := client.clientID
          reqAddr := some client.offer.addr }) := by
  have hvisit : visit readOption {} client.requestOptions =
      ({ msgType := msgRequest, reqAddr := some client.offer.addr }, none) := by
    rw [← addr2bits_be32 client.offer.addr]
    rfl
  refine understand_frame h ?_ hvisit
  intro o ho
  simp only [requestOptions, mem_cons, not_mem_nil, or_false] at ho
  rcases ho with rfl | rfl | rfl
  · exact proper_of (by decide) (by decide)
  all_goals exact proper_of (by decide) (by simp [length_be32])

end

variable {sv : Server} {e : Entry}

theorem proper_replyOptions (msgType : UInt8) : ∀ o ∈ sv.replyOptions msgType, Proper o := by
  have hfour : ∀ v : UInt32, (be32 v).length < 256 := fun v => by rw [length_be32]; omega
  intro o ho
  simp only [replyOptions, mem_append, mem_cons, not_mem_nil, or_false] at ho
  rcases ho with (((ho | ho) | ho) | ho) | ho
  · rcases ho with rfl | rfl
    · exact proper_of (by decide) (by simp)
    · exact proper_of (by decide) (hfour _)
  · split_ifs at ho
    · rw [mem_singleton.1 ho]
      exact proper_of (by decide) (hfour _)
    · cases ho
  · split_ifs at ho
    · rw [mem_singleton.1 ho]
      exact proper_of (by decide) (hfour _)
    · cases ho
  · split_ifs at ho
    · rw [mem_singleton.1 ho]
      exact proper_of (by decide) (hfour _)
    · cases ho
  split_ifs at ho
  · simp only [mem_cons, not_mem_nil, or_false] at ho
    rcases ho with rfl | rfl | rfl
    · exact proper_of (by decide) (hfour _)
    · exact proper_of (by decide) (hfour _)
    · exact proper_of (by decide) (hfour _)
  · cases ho

theorem getMessageType_reply (sv : Server) (e : Entry) :
    getMessageType (sv.reply e).options = answer e := by
  rw [getMessageType]
  show (forEachOption _ _ (encodeAll (sv.replyOptions (answer e)))).1 = _
  rw [forEachOption_encodeAll _ _ (proper_replyOptions _)]
  rfl

structure Informed (sv : Server) (t : Terms) : Prop where
  server : t.svip = ⟨sv.siaddr, true⟩
  mask : t.subnet = ⟨UInt32.ofNat (2 ^ 32 - sv.subnet.size), true⟩
  lease : t.tIPLease = sv.leaseSeconds

theorem visit_setOption (opts : List (UInt8 × Bytes)) : ∀ s : Settings, ∃ s',
    visit setOption s opts = (s', none) ∧
      s'.terms = opts.foldl (fun t o => setTerm t o.1 o.2) s.terms := by
  induction opts with
  | nil =>
    intro s
    exact ⟨s, rfl, rfl⟩
  | cons o opts ih =>
    intro s
    exact ih (setOption s o.1 o.2).1

theorem setmaybe_be32 (a : Addr4) (v : UInt32) : a.setmaybe (be32 v) = ⟨v, true⟩ := by
  rw [Addr4.setmaybe, if_pos (length_be32 v), addr2bits_be32]

theorem maybeU32_be32 (v : UInt32) : maybeU32 (be32 v) = v := by
  rw [maybeU32, if_pos (length_be32 v), addr2bits_be32]

theorem informed_reply (hvalid : sv.subnet.isValid) (hlease : 0 < sv.leaseSeconds)
    (msgType : UInt8) (t : Terms) :
    Informed sv ((sv.replyOptions msgType).foldl (fun t o => setTerm t o.1 o.2) t) := by
  rw [replyOptions, if_pos hvalid, if_pos hlease]
  split_ifs
  all_goals exact ⟨setmaybe_be32 t.svip _, setmaybe_be32 t.subnet _, maybeU32_be32 _⟩

def SameSpeaker (client client' : Client) : Prop :=
  client'.currentXID = client.currentXID ∧ client'.clientID = client.clientID ∧
    client'.reqHostname = client.reqHostname ∧ client'.reqIP = client.reqIP

section
variable (hvalid : sv.subnet.isValid) (hlease : 0 < sv.leaseSeconds)
  (hxid : client.currentXID = e.xid)
include hvalid hlease hxid

theorem receive_reply : ∃ settings, Informed sv settings.terms ∧
      client.receive (sv.reply e) = ({ client with settings } : Client).judge (sv.reply e) := by
  obtain ⟨settings, hvisit, hterms⟩ := visit_setOption (sv.replyOptions (answer e)) client.settings
  refine ⟨settings, hterms ▸ informed_reply hvalid hlease _ _, ?_⟩
  have heach : forEachOption setOption client.settings (sv.reply e).options = (settings, none) := by
    rw [← hvisit]
    exact forEachOption_encodeAll setOption _ (proper_replyOptions _)
  have htype := getMessageType_reply sv e
  have hanswer : answer e = msgOffer ∨ answer e = msgAck := by
    unfold answer
    split_ifs
    · exact .inl rfl
    · exact .inr rfl
  have hnack : getMessageType (sv.reply e).options ≠ msgNack := by
    rw [htype]
    rcases hanswer with h | h
    all_goals
      rw [h]
      decide
  have hgood : ¬(getMessageType (sv.reply e).options ≠ msgOffer ∧
      getMessageType (sv.reply e).options ≠ msgAck) := by
    rw [htype, not_and_or, not_not, not_not]
    exact hanswer
  have hown : ¬(sv.reply e).xid ≠ client.currentXID := not_not.2 hxid.symm
  have hcookie : ¬(sv.reply e).cookie ≠ magicCookie := not_not.2 rfl
  rw [receive, if_neg hown, if_neg hcookie, if_neg hnack, if_neg hgood, heach]

theorem receive_offer (hst : client.state = .selecting)
    (hopen : client.offer.valid = false) (hinit : e.state = .init) :
    ∃ c, client.receive (sv.reply e) = (c, none) ∧ c.state = .selecting ∧
      c.offer = ⟨e.addr, true⟩ ∧ SameSpeaker client c := by
  obtain ⟨settings, -, hreceive⟩ := receive_reply hvalid hlease hxid
  have htype : getMessageType (sv.reply e).options = msgOffer := by
    rw [getMessageType_reply, answer, if_pos hinit]
  exact ⟨_, hreceive.trans (@judge_offer { client with settings } _ hst hopen htype),
    hst, rfl, rfl, rfl, rfl, rfl⟩

theorem receive_ack (hst : client.state = .requesting) (hreq : e.state ≠ .init) :
    ∃ c, client.receive (sv.reply e) = (c, none) ∧ c.state = .bound ∧ c.offer = client.offer ∧
      SameSpeaker client c ∧ Informed sv c.settings.terms := by
  obtain ⟨settings, hinformed, hreceive⟩ := receive_reply hvalid hlease hxid
  have htype : getMessageType (sv.reply e).options = msgAck := by
    rw [getMessageType_reply, answer, if_neg hreq]
  exact ⟨_, hreceive.trans (@judge_ack { client with settings } _ hst htype),
    rfl, rfl, ⟨rfl, rfl, rfl, rfl⟩, hinformed⟩

end

theorem trailingZeros_mask (fuel : ℕ) : ∀ k ≤ fuel,
    subnetCIDRBits.trailingZeros fuel (2 ^ fuel - 2 ^ k) = k := by
  induction fuel with
  | zero =>
    intro k hk
    rw [Nat.le_zero.1 hk]
    rfl
  | succ fuel ih =>
  intro k hk
  have hpos := Nat.two_pow_pos fuel
  rw [subnetCIDRBits.trailingZeros]
  cases k with
  | zero =>
    rw [if_pos (by rw [Nat.pow_succ]; omega)]
  | succ k =>
  have hle : 2 ^ k ≤ 2 ^ fuel := Nat.pow_le_pow_right (by decide) (by omega)
  have hhalf : (2 ^ (fuel + 1) - 2 ^ (k + 1)) / 2 = 2 ^ fuel - 2 ^ k := by
    omega
  rw [if_neg (by rw [Nat.pow_succ, Nat.pow_succ]; omega), hhalf, ih k (by omega)]

theorem subnetCIDRBits_informed (h : Informed sv client.settings.terms) :
    client.subnetCIDRBits = sv.subnet.bits := by
  have hbound := sv.subnet.bound
  have hpos := sv.subnet.size_pos
  have hmask : (UInt32.ofNat (2 ^ 32 - sv.subnet.size)).toNat = 2 ^ 32 - sv.subnet.size := by
    rw [UInt32.toNat_ofNat', Nat.mod_eq_of_lt (by omega)]
  have hbits : sv.subnet.bits ≤ 32 := by
    rw [Prefix4.bits]
    omega
  rw [subnetCIDRBits, h.mask, if_pos rfl]
  simp only [hmask]
  rw [Prefix4.size, trailingZeros_mask 32 _ (by omega)]
  omega

structure Net (n : ℕ) where
  server : Server
  clients : Fin n → Client
  up : Fin n → List Bytes
  down : Fin n → List Bytes

inductive Trouble where
  | err (e : Err)
  | fault (f : Fault)
deriving DecidableEq, Repr

inductive Op (n : ℕ) where
  | send (i : Fin n) (room : ℕ)
  | deliverUp (i : Fin n) (k : ℕ) (choice : Key)
  | answer (room : ℕ) (carrier : Option ℕ) (choice : Key)
  | deliverDown (i : Fin n) (k : ℕ)
deriving DecidableEq, Repr

namespace Net

variable {n : ℕ} (s : Net n)

def send (i : Fin n) (room : ℕ) : Except Trouble (Net n) :=
  match (s.clients i).encapsulate room with
  | (_, .error e) => .error (.err e)
  | (client, .ok none) => .ok { s with clients := Function.update s.clients i client }
  | (client, .ok (some f)) =>
    .ok { s with clients := Function.update s.clients i client
                 up := Function.update s.up i (s.up i ++ [f.bytes]) }

def deliverUp (i : Fin n) (k : ℕ) (choice : Key) : Except Trouble (Net n) :=
  match (s.up i)[k]? with
  | none => .ok s
  | some buf =>
    match s.server.demux choice buf with
    | (_, some e) => .error (.err e)
    | (server, none) =>
      .ok { s with server, up := Function.update s.up i ((s.up i).eraseIdx k) }

def route (xid : UInt32) : Option (Fin n) :=
  (List.finRange n).find? fun i => (s.clients i).currentXID == xid

def answer (room : ℕ) (carrier : Option ℕ) (choice : Key) : Except Trouble (Net n) :=
  match s.server.encapsulate room carrier choice with
  | .error fault => .error (.fault fault)
  | .ok (_, .error e) => .error (.err e)
  | .ok (server, .ok none) => .ok { s with server }
  | .ok (server, .ok (some f)) =>
    match s.route f.xid with
    | none => .ok { s with server }
    | some i => .ok { s with server, down := Function.update s.down i (s.down i ++ [f.bytes]) }

def deliverDown (i : Fin n) (k : ℕ) : Except Trouble (Net n) :=
  match (s.down i)[k]? with
  | none => .ok s
  | some buf =>
    match (s.clients i).demux buf with
    | (_, some e) => .error (.err e)
    | (client, none) =>
      .ok { s with clients := Function.update s.clients i client
                   down := Function.update s.down i ((s.down i).eraseIdx k) }

end Net

def step {n : ℕ} (s : Net n) : Op n → Except Trouble (Net n)
  | .send i room => s.send i room
  | .deliverUp i k choice => s.deliverUp i k choice
  | .answer room carrier choice => s.answer room carrier choice
  | .deliverDown i k => s.deliverDown i k

/-- Buffers have room for all options, and a packet around the answer is one of IPv4. -/
def Roomy {n : ℕ} (_ : Net n) : Op n → Prop
  | .send _ room => 495 ≤ room
  | .answer room carrier _ => 495 ≤ room ∧ carrier.all (· == 4) = true
  | .deliverUp _ _ _ => True
  | .deliverDown _ _ => True

instance {n : ℕ} (s : Net n) (op : Op n) : Decidable (Roomy s op) :=
  match op with
  | .send _ room => Nat.decLe 495 room
  | .answer _ _ _ => inferInstanceAs (Decidable (_ ∧ _))
  | .deliverUp _ _ _ => isTrue trivial
  | .deliverDown _ _ => isTrue trivial

/-- Nothing is under way and nobody has anything to send. -/
structure Quiet {n : ℕ} (s : Net n) : Prop where
  up : ∀ i, s.up i = []
  down : ∀ i, s.down i = []
  clients : ∀ i room, 495 ≤ room → ((s.clients i).encapsulate room).2 = .ok none
  server : ∀ room choice, 495 ≤ room →
    (s.server.encapsulate room none choice).map Prod.snd = .ok (.ok none)

def keyOf (client : Client) : Key := padKey client.clientID

/-- What the client knows, its entry at the server, and the one message that may be under way. -/
inductive Standing (sv : Server) (c : Client) : Option Entry → List Bytes → List Bytes → Prop where
  | starting (hstate : c.state = .init) (hoffer : c.offer.valid = false) : Standing sv c none [] []
  | discovering (hstate : c.state = .selecting) (hoffer : c.offer.valid = false) {buf : Bytes}
      {f : Frame}
      (hbuf : understand buf = .ok (f, { msgType := msgDiscover, clientID := c.clientID }))
      (hf : f.xid = c.currentXID) : Standing sv c none [buf] []
  | discovered (hstate : c.state = .selecting) (hoffer : c.offer.valid = false) {e : Entry}
      (hxid : e.xid = c.currentXID) (hentry : e.state = .init) : Standing sv c (some e) [] []
  | offered (hstate : c.state = .selecting) (hoffer : c.offer.valid = false) {e : Entry}
      (hxid : e.xid = c.currentXID) (hentry : e.state = .init) :
      Standing sv c (some (Server.answered e)) [] [(sv.reply e).bytes]
  | choosing (hstate : c.state = .selecting) {e : Entry} (hxid : e.xid = c.currentXID)
      (hentry : e.state = .selecting) (hoffer : c.offer = ⟨e.addr, true⟩) :
      Standing sv c (some e) [] []
  | asking (hstate : c.state = .requesting) {e : Entry} (hxid : e.xid = c.currentXID)
      (hentry : e.state = .selecting) (hoffer : c.offer = ⟨e.addr, true⟩) {buf : Bytes} {f : Frame}
      {reqAddr : Option UInt32}
      (hbuf : understand buf = .ok (f, { msgType := msgRequest, clientID := c.clientID, reqAddr }))
      (hf : f.xid = c.currentXID) : Standing sv c (some e) [buf] []
  | asked (hstate : c.state = .requesting) {e : Entry} (hxid : e.xid = c.currentXID)
      (hentry : e.state = .requesting) (hoffer : c.offer = ⟨e.addr, true⟩) :
      Standing sv c (some e) [] []
  | granted (hstate : c.state = .requesting) {e : Entry} (hxid : e.xid = c.currentXID)
      (hentry : e.state = .requesting) (hoffer : c.offer = ⟨e.addr, true⟩) :
      Standing sv c (some (Server.answered e)) [] [(sv.reply e).bytes]
  | bound (hstate : c.state = .bound) {e : Entry} (hentry : e.state = .bound)
      (hoffer : c.offer = ⟨e.addr, true⟩) (hterms : Informed sv c.settings.terms) :
      Standing sv c (some e) [] []

structure SameConfig (sv sv' : Server) : Prop where
  subnet : sv'.subnet = sv.subnet
  siaddr : sv'.siaddr = sv.siaddr
  gwaddr : sv'.gwaddr = sv.gwaddr
  dns : sv'.dns = sv.dns
  lease : sv'.leaseSeconds = sv.leaseSeconds

theorem SameConfig.reply {sv sv' : Server} (h : SameConfig sv sv') (e : Entry) :
    sv'.reply e = sv.reply e := by
  simp only [Server.reply, replyOptions, h.subnet, h.siaddr, h.gwaddr, h.dns, h.lease]

/-- The table counts what is owed, and gives away one address after the other. -/
structure Sequential (sv : Server) : Prop where
  counted : sv.pending = tally Entry.awaits sv.hosts
  cursor : sv.siaddr.toNat < sv.subnet.broadcast →
    sv.nextAddr.toNat = sv.siaddr.toNat + 1 + tally (fun _ => true) sv.hosts
  below : ∀ k e, sv.hosts.lookup k = some e →
    sv.siaddr.toNat < e.addr.toNat ∧ e.addr.toNat < sv.nextAddr.toNat
  distinct : InjectiveOn Entry.addr sv.hosts

theorem Sequential.refile {sv sv' : Server} (h : Sequential sv) {key : Key} {e e' : Entry}
    (hlook : sv.hosts.lookup key = some e) (hhosts : sv'.hosts = sv.hosts.insert key e')
    (haddr : e'.addr = e.addr) (hpending : sv'.pending =
      sv.pending - (if e.awaits then 1 else 0) + (if e'.awaits then 1 else 0))
    (hnext : sv'.nextAddr = sv.nextAddr) (hconfig : SameConfig sv sv') : Sequential sv' := by
  have hentry : ∀ k v, sv'.hosts.lookup k = some v →
      ∃ v', sv.hosts.lookup k = some v' ∧ v.addr = v'.addr := by
    intro k v hv
    rw [hhosts] at hv
    by_cases hk : k = key
    · subst hk
      rw [lookup_insert] at hv
      cases hv
      exact ⟨e, hlook, haddr⟩
    · rw [lookup_insert_ne hk] at hv
      exact ⟨v, hv, rfl⟩
  refine ⟨?_, ?_, ?_, ?_⟩
  · rw [hpending, hhosts, tally_insert_int, hlook, h.counted]
    rfl
  · have hcount := tally_insert_int (fun _ => true) sv.hosts key e'
    rw [hlook] at hcount
    simp only [Option.any_some, if_true] at hcount
    rw [hnext, hconfig.siaddr, hconfig.subnet, hhosts]
    intro hlt
    rw [h.cursor hlt]
    omega
  · intro k v hv
    obtain ⟨v', hv', heq⟩ := hentry k v hv
    rw [heq, hnext, hconfig.siaddr]
    exact h.below k v' hv'
  intro k₁ k₂ v₁ v₂ h₁ h₂ heq
  obtain ⟨w₁, hw₁, heq₁⟩ := hentry k₁ v₁ h₁
  obtain ⟨w₂, hw₂, heq₂⟩ := hentry k₂ v₂ h₂
  exact h.distinct k₁ k₂ w₁ w₂ hw₁ hw₂ (by rw [← heq₁, ← heq₂, heq])

/-- A new client gets the address at the cursor, which moves on by one. -/
theorem Sequential.discover {sv : Server} (h : Sequential sv) (hvalid : sv.subnet.isValid)
    (hown : sv.subnet.containsBits sv.siaddr) (hlt : sv.siaddr.toNat < sv.subnet.broadcast)
    (hfree : sv.nextAddr.toNat < sv.subnet.broadcast) {key : Key}
    (hlook : sv.hosts.lookup key = none) (f : Frame) :
    ∃ sv', sv.onDiscover key none f none = (sv', none) ∧
      sv'.hosts = sv.hosts.insert key (discovered f sv.nextAddr) ∧ SameConfig sv sv' ∧
      Sequential sv' := by
  have hcursor := h.cursor hlt
  rw [Prefix4.containsBits_iff hvalid] at hown
  have hin : sv.subnet.containsBits sv.nextAddr := by
    rw [Prefix4.containsBits_iff hvalid]
    omega
  have hnext := Prefix4.toNat_next_of_lt hin hfree
  have hadvance : sv.advance.nextAddr.toNat = sv.nextAddr.toNat + 1 := by
    have hne : sv.subnet.next sv.nextAddr ≠ sv.siaddr := by
      intro heq
      rw [heq] at hnext
      omega
    rw [advance]
    simp only [if_neg hne]
    exact hnext
  have hlast : ¬sv.nextAddr.toNat % sv.subnet.size = sv.subnet.size - 1 := by
    have hmod := Prefix4.mod_size hin
    rw [Prefix4.broadcast] at hfree
    omega
  have halloc : sv.allocAddr none = (sv.advance, some sv.nextAddr) := by
    rw [allocAddr, if_neg hlast]
    rfl
  refine ⟨({ sv.advance with pending := sv.pending + 1 } : Server).file key
    (discovered f sv.nextAddr), ?_, rfl, ⟨rfl, rfl, rfl, rfl, rfl⟩, ?_, ?_, ?_, ?_⟩
  · rw [onDiscover, halloc]
    rfl
  · show sv.pending + 1 = tally awaits (sv.hosts.insert key (discovered f sv.nextAddr))
    rw [tally_insert_int, hlook, h.counted]
    rfl
  · show _ → sv.advance.nextAddr.toNat = sv.siaddr.toNat + 1 +
      tally (fun _ => true) (sv.hosts.insert key (discovered f sv.nextAddr))
    have hcount := tally_insert_int (fun _ => true) sv.hosts key (discovered f sv.nextAddr)
    rw [hlook] at hcount
    simp only [Option.any_none, Bool.false_eq_true, if_false, if_true] at hcount
    intro _
    omega
  · intro k v hv
    show sv.siaddr.toNat < v.addr.toNat ∧ v.addr.toNat < sv.advance.nextAddr.toNat
    replace hv : (sv.hosts.insert key (discovered f sv.nextAddr)).lookup k = some v := hv
    by_cases hk : k = key
    · subst hk
      rw [lookup_insert] at hv
      cases hv
      simp only [discovered]
      omega
    rw [lookup_insert_ne hk] at hv
    have hbelow := h.below k v hv
    omega
  refine h.distinct.insert fun k v hv heq => ?_
  have hbelow := h.below k v hv
  rw [heq] at hbelow
  exact absurd hbelow.2 (Nat.lt_irrefl _)

/-- The whole in step: `sv₀` is the server as it was configured. -/
structure Running {n : ℕ} (sv₀ : Server) (s : Net n) : Prop where
  config : SameConfig sv₀ s.server
  speaks : ∀ i, Speaks (s.clients i)
  xids : ∀ i, (s.clients i).currentXID ≠ 0
  apart : Function.Injective fun i => (s.clients i).currentXID
  keys : Function.Injective fun i => keyOf (s.clients i)
  owned : ∀ k e, s.server.hosts.lookup k = some e → ∃ i, k = keyOf (s.clients i)
  sequential : Sequential s.server
  standing : ∀ i, Standing sv₀ (s.clients i) (s.server.hosts.lookup (keyOf (s.clients i))) (s.up i)
    (s.down i)

variable {n : ℕ} {sv₀ : Server} {s : Net n}

/-- One client, its entry and its messages change; the others are left alone. -/
theorem Running.change (h : Running sv₀ s) (i : Fin n) {server : Server} {c : Client}
    {up down : List Bytes} (hsame : SameSpeaker (s.clients i) c)
    (hconfig : SameConfig s.server server) (hseq : Sequential server)
    (hother : ∀ k, k ≠ keyOf (s.clients i) → server.hosts.lookup k = s.server.hosts.lookup k)
    (hstanding : Standing sv₀ c (server.hosts.lookup (keyOf (s.clients i))) up down) :
    Running sv₀ { server := server
                  clients := update s.clients i c
                  up := update s.up i up
                  down := update s.down i down } := by
  obtain ⟨hxid, hid, hhost, hip⟩ := hsame
  have hkey : keyOf c = keyOf (s.clients i) := by rw [keyOf, hid, keyOf]
  have hxids : ∀ j, (update s.clients i c j).currentXID = (s.clients j).currentXID := by
    intro j
    by_cases hj : j = i
    · rw [hj, update_self, hxid]
    · rw [update_of_ne hj]
  have hkeys : ∀ j, keyOf (update s.clients i c j) = keyOf (s.clients j) := by
    intro j
    by_cases hj : j = i
    · rw [hj, update_self, hkey]
    · rw [update_of_ne hj]
  refine ⟨?_, ?_, ?_, ?_, ?_, ?_, hseq, ?_⟩
  · exact ⟨hconfig.subnet.trans h.config.subnet, hconfig.siaddr.trans h.config.siaddr,
      hconfig.gwaddr.trans h.config.gwaddr, hconfig.dns.trans h.config.dns,
      hconfig.lease.trans h.config.lease⟩
  · intro j
    by_cases hj : j = i
    · have hs := h.speaks i
      simp only [hj, update_self]
      exact ⟨hid ▸ hs.known, hid ▸ hs.short, hhost ▸ hs.hostname, hip ▸ hs.open_⟩
    · simp only [update_of_ne hj]
      exact h.speaks j
  · intro j
    rw [hxids]
    exact h.xids j
  · intro j k hjk
    simp only [hxids] at hjk
    exact h.apart hjk
  · intro j k hjk
    simp only [hkeys] at hjk
    exact h.keys hjk
  · intro k e hk
    simp only [hkeys]
    by_cases hown : k = keyOf (s.clients i)
    · exact ⟨i, hown⟩
    · rw [hother k hown] at hk
      exact h.owned k e hk
  intro j
  show Standing sv₀ (update s.clients i c j)
    (server.hosts.lookup (keyOf (update s.clients i c j)))
    (update s.up i up j) (update s.down i down j)
  rw [hkeys j]
  by_cases hj : j = i
  · subst hj
    rw [update_self, update_self, update_self]
    exact hstanding
  rw [update_of_ne hj, update_of_ne hj, update_of_ne hj,
    hother (keyOf (s.clients j)) fun heq => hj (h.keys heq)]
  exact h.standing j

theorem SameSpeaker.refl (c : Client) : SameSpeaker c c := ⟨rfl, rfl, rfl, rfl⟩

theorem SameConfig.refl (sv : Server) : SameConfig sv sv := ⟨rfl, rfl, rfl, rfl, rfl⟩

theorem send_running (h : Running sv₀ s) (i : Fin n) {room : ℕ} (hroom : 495 ≤ room) :
    ∃ s', s.send i room = .ok s' ∧ Running sv₀ s' := by
  have hstanding := h.standing i
  have hxid := h.xids i
  have hspeaks := h.speaks i
  have hidle : (s.clients i).encapsulate room = (s.clients i, .ok none) →
      ∃ s', s.send i room = .ok s' ∧ Running sv₀ s' := by
    intro hcall
    refine ⟨s, ?_, h⟩
    rw [Net.send, hcall]
    simp only [update_eq_self]
  generalize hup : s.up i = up at hstanding
  generalize hdown : s.down i = down at hstanding
  generalize hlook : s.server.hosts.lookup (keyOf (s.clients i)) = entry at hstanding
  have hdown' : update s.down i down = s.down := by rw [← hdown, update_eq_self]
  cases hstanding with
  | starting hst hoffer =>
    refine ⟨_, by rw [Net.send, encapsulate_discover hxid hst hroom], ?_⟩
    rw [hup, nil_append, ← hdown']
    refine h.change i ?_ (.refl _) h.sequential (fun _ _ => rfl) ?_
    · exact ⟨rfl, rfl, rfl, rfl⟩
    rw [hlook]
    refine .discovering ?_ ?_ (understand_discover hspeaks room) ?_
    · rfl
    · exact hoffer
    · rfl
  | choosing hst hxid' hentry hoffer =>
    have hvalid : (s.clients i).offer.valid := by rw [hoffer]
    refine ⟨_, by rw [Net.send, encapsulate_request hxid hst hvalid hroom], ?_⟩
    rw [hup, nil_append, ← hdown']
    refine h.change i ?_ (.refl _) h.sequential (fun _ _ => rfl) ?_
    · exact ⟨rfl, rfl, rfl, rfl⟩
    rw [hlook]
    refine .asking ?_ ?_ hentry ?_ (understand_request hspeaks) ?_
    · rfl
    · exact hxid'
    · exact hoffer
    · rfl
  | discovering hst hoffer | discovered hst hoffer | offered hst hoffer =>
    exact hidle (encapsulate_waiting hxid (.inl ⟨hst, hoffer⟩) room)
  | asking hst | asked hst | granted hst =>
    exact hidle (encapsulate_waiting hxid (.inr (.inl hst)) room)
  | bound hst => exact hidle (encapsulate_waiting hxid (.inr (.inr hst)) room)

theorem dispatch_known {sv : Server} {choice : Key} {f : Frame} {p : Parsed}
    (hid : p.clientID ≠ []) : sv.dispatch choice f p = if p.msgType = msgDiscover then
        sv.onDiscover (padKey p.clientID) (sv.hosts.lookup (padKey p.clientID)) f p.reqAddr
      else if p.msgType = msgRequest then
        sv.onRequest (padKey p.clientID) (sv.hosts.lookup (padKey p.clientID)) f
      else if p.msgType = msgRelease then
        (sv.onRelease (padKey p.clientID) (sv.hosts.lookup (padKey p.clientID)), none)
      else (sv, some .demuxFail) := by
  rw [dispatch, locate, if_neg hid]

structure Ample (sv : Server) (n : ℕ) : Prop where
  valid : sv.subnet.isValid = true
  own : sv.subnet.containsBits sv.siaddr = true
  room : n ≤ sv.subnet.broadcast - sv.siaddr.toNat - 1
  lease : 0 < sv.leaseSeconds

theorem Ample.congr {sv sv' : Server} (h : Ample sv n) (hc : SameConfig sv sv') : Ample sv' n := by
  obtain ⟨hvalid, hown, hroom, hlease⟩ := h
  refine ⟨?_, ?_, ?_, ?_⟩
  · rwa [hc.subnet]
  · rwa [hc.subnet, hc.siaddr]
  · rwa [hc.subnet, hc.siaddr]
  · rwa [hc.lease]

section
variable (h : Running sv₀ s)
include h

theorem demux_discover (hample : Ample sv₀ n) (i : Fin n) (choice : Key)
    {buf : Bytes} {f : Frame} (hbuf : understand buf =
      .ok (f, { msgType := msgDiscover, clientID := (s.clients i).clientID }))
    (hnone : s.server.hosts.lookup (keyOf (s.clients i)) = none) :
    ∃ sv', s.server.demux choice buf = (sv', none) ∧
      sv'.hosts = s.server.hosts.insert (keyOf (s.clients i)) (discovered f s.server.nextAddr) ∧
      SameConfig s.server sv' ∧ Sequential sv' := by
  have hserver := hample.congr h.config
  have hcount := tally_lt (fun j => keyOf (s.clients j)) h.owned hnone
  have hroom := hserver.room
  have hlt : s.server.siaddr.toNat < s.server.subnet.broadcast := by omega
  have hfree : s.server.nextAddr.toNat < s.server.subnet.broadcast := by
    rw [h.sequential.cursor hlt]
    omega
  obtain ⟨sv', hcall, hrest⟩ := h.sequential.discover hserver.valid hserver.own hlt hfree hnone f
  refine ⟨sv', ?_, hrest⟩
  have hdispatch := @dispatch_known s.server choice f
    { msgType := msgDiscover, clientID := (s.clients i).clientID } (h.speaks i).known
  rw [← hcall, ← hnone]
  simp only [Server.demux, hbuf]
  exact hdispatch

theorem demux_request (i : Fin n) (choice : Key) {buf : Bytes} {f : Frame}
    {reqAddr : Option UInt32} {e : Entry} (hbuf : understand buf =
      .ok (f, { msgType := msgRequest, clientID := (s.clients i).clientID, reqAddr }))
    (hlook : s.server.hosts.lookup (keyOf (s.clients i)) = some e) (hxid : f.xid = e.xid)
    (hst : e.state = .selecting) : ∃ sv', s.server.demux choice buf = (sv', none) ∧
      sv'.hosts = s.server.hosts.insert (keyOf (s.clients i)) { e with state := .requesting } ∧
      SameConfig s.server sv' ∧ Sequential sv' := by
  refine ⟨({ s.server with pending := s.server.pending + 1 } : Server).file (keyOf (s.clients i))
    { e with state := .requesting }, ?_, rfl, ⟨rfl, rfl, rfl, rfl, rfl⟩, ?_⟩
  · have hdispatch := @dispatch_known s.server choice f
      { msgType := msgRequest, clientID := (s.clients i).clientID, reqAddr } (h.speaks i).known
    simp only [Server.demux, hbuf]
    rw [hdispatch]
    show s.server.onRequest (keyOf (s.clients i))
      (s.server.hosts.lookup (keyOf (s.clients i))) f = _
    rw [hlook, onRequest, if_neg (not_not.2 hxid), if_pos hst]
  · refine h.sequential.refile hlook rfl rfl ?_ rfl ⟨rfl, rfl, rfl, rfl, rfl⟩
    simp [file, awaits, hst]

theorem deliverUp_running (hample : Ample sv₀ n) (i : Fin n) (k : ℕ)
    (choice : Key) : ∃ s', s.deliverUp i k choice = .ok s' ∧ Running sv₀ s' := by
  have hstanding := h.standing i
  generalize hup : s.up i = up at hstanding
  generalize hdown : s.down i = down at hstanding
  generalize hlook : s.server.hosts.lookup (keyOf (s.clients i)) = entry at hstanding
  have hclients : update s.clients i (s.clients i) = s.clients := update_eq_self ..
  have hdown' : update s.down i down = s.down := by rw [← hdown, update_eq_self]
  have hempty : up = [] → ∃ s', s.deliverUp i k choice = .ok s' ∧ Running sv₀ s' := by
    rintro rfl
    refine ⟨s, ?_, h⟩
    rw [Net.deliverUp, hup]
    rfl
  cases k with
  | succ k =>
    have hnone : (s.up i)[k + 1]? = none := by
      rw [hup]
      cases hstanding <;> rfl
    refine ⟨s, ?_, h⟩
    rw [Net.deliverUp, hnone]
  | zero =>
  cases hstanding with
  | discovering hst hoffer hbuf hf =>
    obtain ⟨sv', hcall, hhosts, hconfig, hseq⟩ := demux_discover h hample i choice hbuf hlook
    refine ⟨_, by simp only [Net.deliverUp, hup, getElem?_cons_zero, hcall]; rfl, ?_⟩
    rw [← hclients, ← hdown']
    refine h.change i (.refl _) hconfig hseq ?_ ?_
    · intro k hk
      rw [hhosts, lookup_insert_ne hk]
    · rw [hhosts, lookup_insert]
      exact .discovered hst hoffer hf rfl
  | asking hst hxid hentry hoffer hbuf hf =>
    obtain ⟨sv', hcall, hhosts, hconfig, hseq⟩ :=
      demux_request h i choice hbuf hlook (hf.trans hxid.symm) hentry
    refine ⟨_, by simp only [Net.deliverUp, hup, getElem?_cons_zero, hcall]; rfl, ?_⟩
    rw [← hclients, ← hdown']
    refine h.change i (.refl _) hconfig hseq ?_ ?_
    · intro k hk
      rw [hhosts, lookup_insert_ne hk]
    · rw [hhosts, lookup_insert]
      exact .asked hst hxid rfl hoffer
  | starting | discovered | offered | choosing | asked | granted | bound => exact hempty rfl

theorem route_xid (i : Fin n) : s.route (s.clients i).currentXID = some i := by
  unfold Net.route
  have hsome : ((finRange n).find? fun j =>
      (s.clients j).currentXID == (s.clients i).currentXID).isSome := by
    rw [find?_isSome]
    exact ⟨i, mem_finRange i, by simp⟩
  obtain ⟨j, hj⟩ := Option.isSome_iff_exists.1 hsome
  have hxid := find?_some hj
  rw [hj, h.apart (beq_iff_eq.1 hxid)]

end

theorem answered_standing {c : Client} {e : Entry} {up down : List Bytes}
    (h : Standing sv₀ c (some e) up down) (hawaits : e.awaits) :
    e.xid = c.currentXID ∧ up = [] ∧ down = [] ∧
      Standing sv₀ c (some (answered e)) [] [(sv₀.reply e).bytes] := by
  generalize hentry' : some e = entry at h
  cases h with
  | starting | discovering => cases hentry'
  | discovered hst hoffer hxid hentry =>
    cases hentry'
    exact ⟨hxid, rfl, rfl, .offered hst hoffer hxid hentry⟩
  | asked hst hxid hentry hoffer =>
    cases hentry'
    exact ⟨hxid, rfl, rfl, .granted hst hxid hentry hoffer⟩
  | offered | granted =>
    cases hentry'
    rw [awaits_answered] at hawaits
    cases hawaits
  | choosing hst hxid hentry | asking hst hxid hentry =>
    cases hentry'
    rw [awaits, hentry] at hawaits
    cases hawaits
  | bound hst hentry =>
  cases hentry'
  rw [awaits, hentry] at hawaits
  cases hawaits

theorem answer_running (h : Running sv₀ s) {room : ℕ} (hroom : 495 ≤ room) {carrier : Option ℕ}
    (hcarrier : carrier.all (· == 4)) (choice : Key) :
    ∃ s', s.answer room carrier choice = .ok s' ∧ Running sv₀ s' := by
  have h240 : ¬room < 240 := by omega
  have h495 : ¬room < 495 := by omega
  have hidle : s.server.encapsulate room carrier choice = .ok (s.server, .ok none) →
      ∃ s', s.answer room carrier choice = .ok s' ∧ Running sv₀ s' := by
    intro hcall
    exact ⟨s, by rw [Net.answer, hcall], h⟩
  by_cases hpending : s.server.pending = 0
  · exact hidle (by rw [Server.encapsulate, if_neg h240, if_neg h495, if_pos hpending])
  cases hpick : s.server.pick choice with
  | none =>
    apply hidle
    rw [Server.encapsulate, if_neg h240, if_neg h495, if_neg hpending, hpick]
  | some found =>
  obtain ⟨key, e⟩ := found
  have hcall : s.server.encapsulate room carrier choice =
      .ok (s.server.deliver key e, .ok (some (s.server.reply e))) := by
    rw [Server.encapsulate, if_neg h240, if_neg h495, if_neg hpending, hpick]
    simp only [hcarrier, if_true]
  obtain ⟨hlook, hawaits⟩ := pick_some hpick
  obtain ⟨i, rfl⟩ := h.owned key e hlook
  have hstanding := h.standing i
  rw [hlook] at hstanding
  obtain ⟨hxid, hup, hdown, hanswered⟩ := answered_standing hstanding hawaits
  have hroute : s.route (s.server.reply e).xid = some i := by
    show s.route e.xid = some i
    rw [hxid, route_xid h]
  have hup' : update s.up i [] = s.up := by rw [← hup, update_eq_self]
  have hconfig : SameConfig s.server (s.server.deliver (keyOf (s.clients i)) e) :=
    ⟨rfl, rfl, rfl, rfl, rfl⟩
  have hseq : Sequential (s.server.deliver (keyOf (s.clients i)) e) := by
    refine h.sequential.refile hlook rfl rfl ?_ rfl hconfig
    rw [hawaits, awaits_answered]
    simp [deliver]
  have hentry : (s.server.deliver (keyOf (s.clients i)) e).hosts.lookup (keyOf (s.clients i)) =
      some (answered e) := lookup_insert _
  have hchange := h.change i (.refl _) hconfig hseq
    (fun k hk => lookup_insert_ne hk) (hentry ▸ hanswered)
  rw [update_eq_self, hup'] at hchange
  refine ⟨_, by simp only [Net.answer, hcall, hroute]; rfl, ?_⟩
  rw [hdown, nil_append, h.config.reply]
  exact hchange

theorem demux_reply {c : Client} (hxid : c.currentXID ≠ 0) (hst : c.state ≠ .zero) (e : Entry) :
    c.demux (sv₀.reply e).bytes = c.receive (sv₀.reply e) := by
  have hopen : c.isClosed = false := by simp [isClosed, hxid, hst]
  rw [demux, hopen, ofBytes_bytes]
  rfl

theorem deliverDown_running (h : Running sv₀ s) (hample : Ample sv₀ n) (i : Fin n) (k : ℕ) :
    ∃ s', s.deliverDown i k = .ok s' ∧ Running sv₀ s' := by
  have hstanding := h.standing i
  generalize hup : s.up i = up at hstanding
  generalize hdown : s.down i = down at hstanding
  generalize hlook : s.server.hosts.lookup (keyOf (s.clients i)) = entry at hstanding
  have hup' : update s.up i up = s.up := by rw [← hup, update_eq_self]
  have hempty : down = [] → ∃ s', s.deliverDown i k = .ok s' ∧ Running sv₀ s' := by
    rintro rfl
    refine ⟨s, ?_, h⟩
    rw [Net.deliverDown, hdown]
    rfl
  -- The client takes the one message under way.
  have htake : ∀ {buf : Bytes} {c : Client}, down = [buf] → (s.clients i).demux buf = (c, none) →
      SameSpeaker (s.clients i) c → Standing sv₀ c entry up [] →
      k = 0 → ∃ s', s.deliverDown i k = .ok s' ∧ Running sv₀ s' := by
    rintro buf c rfl hcall hsame hnext rfl
    refine ⟨_, by simp only [Net.deliverDown, hdown, getElem?_cons_zero, hcall]; rfl, ?_⟩
    rw [← hup']
    refine h.change i hsame (.refl _) h.sequential (fun _ _ => rfl) ?_
    rw [hlook]
    exact hnext
  by_cases hk : k = 0
  · cases hstanding with
    | offered hst hoffer hxid hentry =>
      obtain ⟨c, hcall, hstate', hoffer', hsame⟩ :=
        receive_offer hample.valid hample.lease hxid.symm hst hoffer hentry
      rw [← demux_reply (h.xids i) (by rw [hst]; decide)] at hcall
      refine htake rfl hcall hsame ?_ hk
      refine .choosing hstate' (hxid.trans hsame.1.symm) ?_ hoffer'
      rw [answered, if_pos hentry]
    | granted hst hxid hentry hoffer =>
      have hreq := hentry.trans_ne (show _ ≠ .init by decide)
      obtain ⟨c, hcall, hstate', hoffer', hsame, hterms⟩ :=
        receive_ack hample.valid hample.lease hxid.symm hst hreq
      rw [← demux_reply (h.xids i) (by rw [hst]; decide)] at hcall
      refine htake rfl hcall hsame ?_ hk
      refine .bound hstate' ?_ (hoffer'.trans hoffer) hterms
      rw [answered, if_neg hreq]
    | starting | discovering | discovered | choosing | asking | asked | bound => exact hempty rfl
  obtain ⟨k, rfl⟩ := Nat.exists_eq_succ_of_ne_zero hk
  have hnone : (s.down i)[k + 1]? = none := by
    rw [hdown]
    cases hstanding <;> rfl
  refine ⟨s, ?_, h⟩
  rw [Net.deliverDown, hnone]

theorem step_running (hample : Ample sv₀ n) (s : Net n) (op : Op n) (h : Running sv₀ s)
    (hroomy : Roomy s op) : ∃ s', step s op = .ok s' ∧ Running sv₀ s' := by
  cases op with
  | send i room => exact send_running h i hroomy
  | deliverUp i k choice => exact deliverUp_running h hample i k choice
  | answer room carrier choice => exact answer_running h hroomy.1 hroomy.2 choice
  | deliverDown i k => exact deliverDown_running h hample i k

def start (server : Server) (clients : Fin n → Client) : Net n where
  server := server
  clients := clients
  up := fun _ => []
  down := fun _ => []

theorem speaks_begun {xid : UInt32} {req : RequestConfig} (hhost : req.hostname.length ≤ 36)
    (hid : req.clientID.length ≤ 32) (hfree : req.requestedAddr = 0) : Speaks (begun xid req) := by
  have hsix := req.clientHardwareAddr.six
  refine ⟨?_, ?_, ?_, ?_⟩
  · show (if req.clientID ≠ [] then req.clientID else req.clientHardwareAddr.bytes) ≠ []
    split_ifs with hempty
    · exact hempty
    intro hnil
    rw [hnil] at hsix
    cases hsix
  · show (if req.clientID ≠ [] then req.clientID else req.clientHardwareAddr.bytes).length ≤ 36
    split_ifs
    · omega
    · omega
  · show req.hostname.length < 256
    omega
  · simp [begun, hfree]

theorem running_start {cfg : ServerConfig} {clients : Fin n → Client}
    (hspeaks : ∀ i, Speaks (clients i)) (hxids : ∀ i, (clients i).currentXID ≠ 0)
    (hinit : ∀ i, (clients i).state = .init ∧ (clients i).offer.valid = false)
    (hapart : Injective fun i => (clients i).currentXID)
    (hkeys : Injective fun i => keyOf (clients i)) (hown : cfg.subnet.containsBits cfg.serverAddr) :
    Running (.configured cfg) (start (.configured cfg) clients) := by
  refine ⟨.refl _, hspeaks, hxids, hapart, hkeys, ?_,
    ⟨rfl, Prefix4.toNat_next_of_lt hown, ?_, ?_⟩, ?_⟩
  · intro k e hk
    cases hk
  · intro k e hk
    cases hk
  · intro k k' e e' hk
    cases hk
  · intro i
    exact .starting (hinit i).1 (hinit i).2

theorem bound_of_quiet (h : Running sv₀ s) (hquiet : Quiet s) (i : Fin n) :
    (s.clients i).state = .bound ∧ Informed sv₀ (s.clients i).settings.terms ∧
      ∃ e, s.server.hosts.lookup (keyOf (s.clients i)) = some e ∧
        (s.clients i).offer = ⟨e.addr, true⟩ := by
  have hstanding := h.standing i
  have hxid := h.xids i
  rw [hquiet.up, hquiet.down] at hstanding
  -- An entry that waits makes the server speak.
  have hsilent : ∀ e, s.server.hosts.lookup (keyOf (s.clients i)) = some e →
      e.awaits → False := by
    intro e hlook hawaits
    have hpick : s.server.pick (keyOf (s.clients i)) = some (keyOf (s.clients i), e) := by
      rw [pick, hlook]
      simp only [hawaits, if_true]
    have hpending : s.server.pending ≠ 0 := by
      have hpos := (tally_pos_iff awaits s.server.hosts).2 ⟨_, e, hlook, hawaits⟩
      rw [h.sequential.counted]
      omega
    have hnone := hquiet.server 495 (keyOf (s.clients i)) le_rfl
    rw [Server.encapsulate, if_neg (by decide), if_neg (by decide), if_neg hpending, hpick] at hnone
    cases hnone
  generalize hlook : s.server.hosts.lookup (keyOf (s.clients i)) = entry at hstanding
  cases hstanding with
  | starting hst =>
    have hnone := hquiet.clients i 495 le_rfl
    rw [encapsulate_discover hxid hst le_rfl] at hnone
    cases hnone
  | discovered hst hoffer hxid' hentry | asked hst hxid' hentry =>
    exact (hsilent _ hlook (by rw [awaits, hentry]; rfl)).elim
  | choosing hst hxid' hentry hoffer =>
    have hnone := hquiet.clients i 495 le_rfl
    rw [encapsulate_request hxid hst (by rw [hoffer]) le_rfl] at hnone
    cases hnone
  | bound hst hentry hoffer hterms => exact ⟨hst, hterms, _, rfl, hoffer⟩

/-- However the calls interleave, none fails, and with nothing left to send every client is
bound to an address that it alone holds and that the server has on file for it. -/
theorem exchange_binds (sv : Server) (cfg : ServerConfig) (hcfg : (sv.configure cfg).2 = none)
    (clients : Fin n → Client) (xid : Fin n → UInt32) (req : Fin n → RequestConfig)
    (hbegin : ∀ i, ((clients i).beginRequest (xid i) (req i)).2 = none)
    (hxid : Function.Injective xid)
    (hkeys : Function.Injective fun i => keyOf ((clients i).beginRequest (xid i) (req i)).1)
    (hfree : ∀ i, (req i).requestedAddr = 0)
    (hroom : n ≤ cfg.subnet.broadcast - cfg.serverAddr.toNat - 1) (ops : List (Op n))
    (hops : Guarded step Roomy (start (sv.configure cfg).1
      fun i => ((clients i).beginRequest (xid i) (req i)).1) ops) :
    ∃ s, exec step (start (sv.configure cfg).1
        fun i => ((clients i).beginRequest (xid i) (req i)).1) ops = .ok s ∧
      (Quiet s → (∀ i, (s.clients i).state = .bound ∧
          (∃ e, s.server.hosts.lookup (keyOf (s.clients i)) = some e ∧
            (s.clients i).offer = ⟨e.addr, true⟩) ∧
          (s.clients i).settings.terms.svip = ⟨cfg.serverAddr, true⟩ ∧
          (s.clients i).subnetCIDRBits = cfg.subnet.bits ∧
          (s.clients i).settings.terms.tIPLease =
            if cfg.leaseSeconds = 0 then 3600 else cfg.leaseSeconds) ∧
        (Function.Injective fun i => (s.clients i).offer.addr) ∧
        ∀ k e, s.server.hosts.lookup k = some e → ∃ i, k = keyOf (s.clients i)) := by
  obtain ⟨hvalid, hown, hsv⟩ := Server.configure_ok hcfg
  have hbegun : (fun i => ((clients i).beginRequest (xid i) (req i)).1) =
      fun i => begun (xid i) (req i) := by
    funext i
    exact (beginRequest_ok (hbegin i)).1
  have hample : Ample (.configured cfg) n := by
    refine ⟨hvalid, hown, hroom, ?_⟩
    show 0 < if cfg.leaseSeconds = 0 then 3600 else cfg.leaseSeconds
    split_ifs with hzero
    · decide
    · exact UInt32.pos_iff_ne_zero.2 hzero
  have hstart : Running (.configured cfg)
      (start (.configured cfg) fun i => begun (xid i) (req i)) := by
    refine running_start ?_ ?_ (fun i => ⟨rfl, rfl⟩) hxid ?_ hown
    · intro i
      obtain ⟨-, -, hhost, hid⟩ := beginRequest_ok (hbegin i)
      exact speaks_begun hhost hid (hfree i)
    · intro i
      exact (beginRequest_ok (hbegin i)).2.1
    intro i j hij
    refine hkeys ?_
    simp only [(beginRequest_ok (hbegin _)).1]
    exact hij
  rw [hsv, hbegun] at hops ⊢
  obtain ⟨s, hrun, hend⟩ := exec_safe (step_running hample) ops _ hstart hops
  refine ⟨s, hrun, fun hquiet => ⟨fun i => ?_, ?_, hend.owned⟩⟩
  · obtain ⟨hstate, hterms, hentry⟩ := bound_of_quiet hend hquiet i
    exact ⟨hstate, hentry, hterms.server, subnetCIDRBits_informed hterms, hterms.lease⟩
  intro i j hij
  obtain ⟨-, -, e, he, hoffer⟩ := bound_of_quiet hend hquiet i
  obtain ⟨-, -, e', he', hoffer'⟩ := bound_of_quiet hend hquiet j
  simp only [hoffer, hoffer'] at hij
  exact hend.keys (hend.sequential.distinct _ _ e e' he he' hij)

theorem quiet_of_bound (hway : ∀ i, s.up i = [] ∧ s.down i = [])
    (hbound : ∀ i, (s.clients i).state = .bound ∧ (s.clients i).currentXID ≠ 0)
    (hpending : s.server.pending = 0) : Quiet s := by
  refine ⟨fun i => (hway i).1, fun i => (hway i).2, ?_, ?_⟩
  · intro i room _
    rw [encapsulate_waiting (hbound i).2 (.inr (.inr (hbound i).1))]
  intro room choice hroom
  have h240 : ¬room < 240 := by omega
  have h495 : ¬room < 495 := by omega
  rw [Server.encapsulate, if_neg h240, if_neg h495, if_pos hpending]
  rfl

def pairServer : ServerConfig where
  serverAddr := 0x0a000004
  subnet := .ofAddr 0x0a000000 29

def requestOf (i : Fin 2) : RequestConfig where
  clientHardwareAddr := .ofBytes [2, 0, 0, 0, 0, UInt8.ofNat i]

def begunPair : Net 2 :=
  start (({} : Server).configure pairServer).1 fun i =>
    (({} : Client).beginRequest (UInt32.ofNat (i + 1)) (requestOf i)).1

def pairOps : List (Op 2) :=
  [.send 0 495, .send 1 495, .deliverUp 1 0 [], .deliverUp 0 0 [], .answer 495 none [],
    .answer 600 (some 4) [], .deliverDown 0 0, .send 0 495, .deliverUp 0 0 [], .deliverDown 1 0,
    .answer 495 none [], .send 1 495, .deliverDown 0 0, .deliverUp 1 0 [], .answer 495 none [],
    .deliverDown 1 0]

theorem exchange_binds_pair : ∃ s, exec step begunPair pairOps = .ok s ∧ Quiet s ∧
      (Function.Injective fun i => (s.clients i).offer.addr) ∧
      ∀ i, (s.clients i).subnetCIDRBits = 29 ∧ (s.clients i).settings.terms.tIPLease = 3600 := by
  obtain ⟨s, hrun, hagree⟩ := exchange_binds {} pairServer (by decide +kernel) (fun _ => {})
    (fun i : Fin 2 => UInt32.ofNat (i + 1)) requestOf (by decide +kernel) (by decide +kernel)
    (by decide +kernel) (by decide +kernel) (by decide +kernel) pairOps (by decide +kernel)
  have hseen : (exec step begunPair pairOps).toOption.any (fun s =>
      decide ((∀ i, s.up i = [] ∧ s.down i = []) ∧
        (∀ i, (s.clients i).state = .bound ∧ (s.clients i).currentXID ≠ 0) ∧
        s.server.pending = 0)) = true := by
    decide +kernel
  obtain ⟨s', hrun', hway, hbound, hpending⟩ := exists_exec hseen
  obtain rfl : s' = s := Except.ok.inj (hrun'.symm.trans hrun)
  have hquiet := quiet_of_bound hway hbound hpending
  obtain ⟨hall, hinj, -⟩ := hagree hquiet
  exact ⟨s', hrun, hquiet, hinj, fun i => ⟨(hall i).2.2.2.1, (hall i).2.2.2.2⟩⟩

end Lneto.DhcpExchange
