import Lneto.DhcpServer

/-!
The addresses the server gives away. Under care for the requested address, the
cursor and unknown releases no two clients hold one address, and every address
given is a host of the subnet other than the server.
-/
namespace Lneto.DhcpLeases

open AddressCache (Mac6)
open Ipv4Prefix DhcpFrame DhcpServer KeyedTables GuardedRuns Server AList

variable {key : Key} {found : Option Entry}

/-- A host address of the subnet that is not the server's. -/
def Usable (subnet : Prefix4) (siaddr addr : UInt32) : Prop :=
  subnet.containsBits addr = true ∧ addr ≠ siaddr ∧ addr.toNat ≠ subnet.network ∧
    addr.toNat ≠ subnet.broadcast

/-- The address a new client will get can be given away, or the pool says that it is empty. -/
def Grantable (sv : Server) (reqAddr : Option UInt32) : Prop :=
  if sv.grants reqAddr then
    ∀ addr ∈ reqAddr, addr.toNat ≠ sv.subnet.network ∧ addr.toNat ≠ sv.subnet.broadcast
  else
    sv.nextAddr.toNat % sv.subnet.size = sv.subnet.size - 1 ∨
      sv.isAddrAssigned sv.nextAddr = false ∧ sv.nextAddr.toNat ≠ sv.subnet.network

instance (sv : Server) (reqAddr : Option UInt32) : Decidable (Grantable sv reqAddr) :=
  have : Decidable (∀ addr ∈ reqAddr,
      addr.toNat ≠ sv.subnet.network ∧ addr.toNat ≠ sv.subnet.broadcast) :=
    reqAddr.decidableForallMem
  inferInstanceAs (Decidable (ite _ _ _))

/-- Messages that the server is ready for. -/
def Careful (sv : Server) : ServerOp → Prop
  | .demux choice buf =>
    match understand buf with
    | .error _ => True
    | .ok (f, p) =>
      (p.msgType = msgDiscover → (sv.locate choice f p).2 = none → Grantable sv p.reqAddr) ∧
        (p.msgType = msgRelease → (sv.locate choice f p).2 ≠ none)
  | .encapsulate _ _ _ => True

instance (sv : Server) (op : ServerOp) : Decidable (Careful sv op) :=
  match op with
  | .demux choice buf =>
    match h : understand buf with
    | .error _ => isTrue (by simp only [Careful, h])
    | .ok (f, p) =>
      decidable_of_iff
        ((p.msgType = msgDiscover → (sv.locate choice f p).2 = none → Grantable sv p.reqAddr) ∧
          (p.msgType = msgRelease → (sv.locate choice f p).2 ≠ none)) (by simp only [Careful, h])
  | .encapsulate _ _ _ => isTrue trivial

structure Leased (subnet : Prefix4) (siaddr : UInt32) (sv : Server) : Prop where
  subnet_eq : sv.subnet = subnet
  siaddr_eq : sv.siaddr = siaddr
  valid : subnet.isValid = true
  cursor : subnet.containsBits sv.nextAddr = true
  notOwn : subnet.size = 1 ∨ sv.nextAddr ≠ siaddr
  distinct : InjectiveOn Entry.addr sv.hosts
  usable : ∀ k e, sv.hosts.lookup k = some e → Usable subnet siaddr e.addr

variable {subnet : Prefix4} {siaddr : UInt32} {sv : Server}

theorem next_ne {addr : UInt32} (hsize : subnet.size ≠ 1) (h : subnet.containsBits addr) :
    subnet.next addr ≠ addr := by
  intro heq
  have hnext := subnet.toNat_next addr
  have hmod := Prefix4.mod_size h
  have hpos := subnet.size_pos
  have hlt := Nat.mod_lt addr.toNat hpos
  rw [heq] at hnext
  have hcycle : addr.toNat % subnet.size = (addr.toNat % subnet.size + 1) % subnet.size := by omega
  by_cases hlast : addr.toNat % subnet.size + 1 = subnet.size
  · rw [hlast, Nat.mod_self] at hcycle
    omega
  · rw [Nat.mod_eq_of_lt (by omega : addr.toNat % subnet.size + 1 < subnet.size)] at hcycle
    omega

section
variable (h : Leased subnet siaddr sv)
include h

theorem Leased.advance (hown : subnet.containsBits siaddr) : Leased subnet siaddr sv.advance where
  subnet_eq := h.subnet_eq
  siaddr_eq := h.siaddr_eq
  valid := h.valid
  cursor := by
    simp only [Server.advance, h.subnet_eq]
    split
    all_goals exact Prefix4.contains_next h.valid _
  notOwn := by
    by_cases hsize : subnet.size = 1
    · exact .inl hsize
    right
    simp only [Server.advance, h.subnet_eq, h.siaddr_eq]
    split
    · rename_i heq
      rw [heq]
      exact next_ne hsize hown
    · assumption
  distinct := h.distinct
  usable := h.usable

theorem Leased.filed (key : Key) (pending : ℤ) (e : Entry) (huse : Usable subnet siaddr e.addr)
    (hnew : ∀ k' v', sv.hosts.lookup k' = some v' → v'.addr = e.addr → k' = key) :
    Leased subnet siaddr (({ sv with pending } : Server).file key e) where
  subnet_eq := h.subnet_eq
  siaddr_eq := h.siaddr_eq
  valid := h.valid
  cursor := h.cursor
  notOwn := h.notOwn
  distinct := h.distinct.insert hnew
  usable := by
    intro k v hk
    by_cases hsame : k = key
    · subst hsame
      rw [file, lookup_insert] at hk
      cases hk
      exact huse
    · rw [file, lookup_insert_ne hsame] at hk
      exact h.usable k v hk

theorem Leased.rewrite {e : Entry}
    (hkey : sv.hosts.lookup key = some e) (pending : ℤ) (e' : Entry) (haddr : e'.addr = e.addr) :
    Leased subnet siaddr (({ sv with pending } : Server).file key e') :=
  h.filed key pending e' (haddr ▸ h.usable key e hkey) fun k' v' hk' heq =>
    h.distinct k' key v' e hk' hkey (heq.trans haddr)

theorem Leased.lease (key : Key) (pending : ℤ) (e : Entry)
    (hfree : sv.isAddrAssigned e.addr = false) (huse : Usable subnet siaddr e.addr) :
    Leased subnet siaddr (({ sv with pending } : Server).file key e) :=
  h.filed key pending e huse fun _ _ hk' heq => absurd heq (isAddrAssigned_eq_false hfree hk')

end

theorem grants_some {reqAddr : Option UInt32} (h : sv.grants reqAddr) :
    ∃ addr, reqAddr = some addr ∧ sv.subnet.containsBits addr ∧ addr ≠ sv.siaddr ∧
      sv.isAddrAssigned addr = false := by
  cases reqAddr with
  | none => cases h
  | some addr =>
  simp only [grants, Option.any_some, Bool.and_eq_true, bne_iff_ne, ne_eq, Bool.not_eq_true'] at h
  exact ⟨addr, rfl, h.1.1, h.1.2, h.2⟩

section
variable (h : Leased subnet siaddr sv)
include h

theorem Leased.onDiscover (hown : subnet.containsBits siaddr) {f : Frame} {reqAddr : Option UInt32}
    (hfound : ∀ e, found = some e → sv.hosts.lookup key = some e)
    (hcare : found = none → Grantable sv reqAddr) :
    Leased subnet siaddr (sv.onDiscover key found f reqAddr).1 := by
  cases found with
  | some client => exact h.rewrite (hfound client rfl) _ (discovered f client.addr) rfl
  | none =>
  have hgrant := hcare rfl
  unfold Grantable at hgrant
  unfold onDiscover allocAddr
  by_cases hreq : sv.grants reqAddr
  · obtain ⟨addr, rfl, hin, hne, hfree⟩ := grants_some hreq
    rw [if_pos hreq] at hgrant ⊢
    obtain ⟨hnet, hbroad⟩ := hgrant addr rfl
    rw [h.subnet_eq] at hin hnet hbroad
    rw [h.siaddr_eq] at hne
    exact h.lease key _ (discovered f addr) hfree ⟨hin, hne, hnet, hbroad⟩
  rw [if_neg hreq] at hgrant ⊢
  by_cases hlast : sv.nextAddr.toNat % sv.subnet.size = sv.subnet.size - 1
  · rw [if_pos hlast]
    exact h.advance hown
  rw [if_neg hlast]
  obtain ⟨hfree, hnet⟩ := hgrant.resolve_left hlast
  rw [h.subnet_eq] at hnet hlast
  have hmod := Prefix4.mod_size h.cursor
  have hbroad : sv.nextAddr.toNat ≠ subnet.broadcast := by
    rw [Prefix4.broadcast]
    omega
  have hne : sv.nextAddr ≠ siaddr := by
    refine h.notOwn.resolve_left fun hsize => hlast ?_
    rw [hsize, Nat.mod_one]
  exact (h.advance hown).lease key _ (discovered f sv.nextAddr) hfree ⟨h.cursor, hne, hnet, hbroad⟩

theorem Leased.onRequest {f : Frame} (hfound : ∀ e, found = some e → sv.hosts.lookup key = some e) :
    Leased subnet siaddr (sv.onRequest key found f).1 := by
  cases found with
  | none => exact h
  | some client =>
  unfold onRequest
  simp only
  split_ifs
  · exact h
  · exact h.rewrite (hfound client rfl) _ { client with state := .requesting } rfl
  · exact h.rewrite (hfound client rfl) sv.pending client rfl
  · exact h

theorem Leased.onRelease (hknown : found ≠ none) :
    Leased subnet siaddr (sv.onRelease key found) := by
  cases found with
  | none => exact absurd rfl hknown
  | some client =>
  refine ⟨h.subnet_eq, h.siaddr_eq, h.valid, h.cursor, h.notOwn, h.distinct.erase key, ?_⟩
  intro k e hk
  by_cases hsame : k = key
  · subst hsame
    rw [onRelease, lookup_erase] at hk
    cases hk
  · rw [onRelease, lookup_erase_ne hsame] at hk
    exact h.usable k e hk

theorem Leased.demux (hown : subnet.containsBits siaddr) {choice : Key} {buf : Bytes}
    (hcare : Careful sv (.demux choice buf)) : Leased subnet siaddr (sv.demux choice buf).1 := by
  simp only [Careful] at hcare
  unfold Server.demux
  cases hbuf : understand buf with
  | error err => exact h
  | ok r =>
  obtain ⟨f, p⟩ := r
  rw [hbuf] at hcare
  obtain ⟨hdiscover, hrelease⟩ := hcare
  rcases hlocate : sv.locate choice f p with ⟨key, found⟩
  rw [hlocate] at hdiscover hrelease
  have hfound := Server.locate_found hlocate
  simp only [Server.dispatch, hlocate]
  split_ifs with h1 h2 h3
  · exact h.onDiscover hown hfound (hdiscover h1)
  · exact h.onRequest hfound
  · exact h.onRelease (hrelease h3)
  · exact h

end

theorem step_leased (hown : subnet.containsBits siaddr) (sv : Server) (op : ServerOp)
    (sv' : Server) (h : Leased subnet siaddr sv) (hcare : Careful sv op)
    (hstep : step sv op = .ok sv') : Leased subnet siaddr sv' := by
  cases op with
  | demux choice buf =>
    cases hstep
    exact h.demux hown hcare
  | encapsulate room carrier choice =>
  obtain ⟨r, hr⟩ := map_fst_ok hstep
  rcases encapsulate_cases hr with ⟨rfl, -⟩ | ⟨key, e, hpick, -, rfl⟩
  · exact h
  · exact h.rewrite (pick_some hpick).1 (sv.pending - 1) (answered e) rfl

theorem leased_configured {cfg : ServerConfig} (hvalid : cfg.subnet.isValid)
    (hown : cfg.subnet.containsBits cfg.serverAddr) :
    Leased cfg.subnet cfg.serverAddr (configured cfg) where
  subnet_eq := rfl
  siaddr_eq := rfl
  valid := hvalid
  cursor := Prefix4.contains_next hvalid _
  notOwn := by
    by_cases hsize : cfg.subnet.size = 1
    · exact .inl hsize
    · exact .inr (next_ne hsize hown)
  distinct := by
    intro k k' v v' hk
    cases hk
  usable := by
    intro k e hk
    cases hk

/-- In careful runs no two clients hold one address, and what is offered or acknowledged is a
host address of the subnet other than the server's. -/
theorem careful_leases (sv₀ : Server) (cfg : ServerConfig) (hcfg : (sv₀.configure cfg).2 = none)
    (ops : List ServerOp) (hcare : Guarded step Careful (sv₀.configure cfg).1 ops) (sv : Server)
    (hrun : exec step (sv₀.configure cfg).1 ops = .ok sv) : InjectiveOn Entry.addr sv.hosts ∧
      ∀ room carrier choice sv' out,
        sv.encapsulate room carrier choice = .ok (sv', .ok (some out)) →
        Usable cfg.subnet cfg.serverAddr out.yiaddr := by
  obtain ⟨hvalid, hown, hsv⟩ := Server.configure_ok hcfg
  rw [hsv] at hcare hrun
  have hstart := leased_configured hvalid hown
  have hend := exec_invariant (step_leased hown) ops _ sv hstart hcare hrun
  refine ⟨hend.distinct, fun room carrier choice sv' out hout => ?_⟩
  rcases Server.encapsulate_cases hout with ⟨-, hnone⟩ | ⟨key, e, hpick, heq, -⟩
  · exact absurd rfl (hnone out)
  · cases heq
    exact hend.usable key e (Server.pick_some hpick).1

def chaddrOf (host : UInt8) : Mac6 := .ofBytes [2, 0, 0, 0, 0, host]

def message (host msgType : UInt8) (reqAddr : Option UInt32) : Bytes :=
  Frame.bytes
    { op := opRequest, xid := 7, chaddr := chaddrOf host, cookie := magicCookie
      options := encodeAll ((optMessageType, [msgType]) ::
        reqAddr.toList.map fun addr => (optRequestedIPaddress, be32 addr)) }

def fromClient (host msgType : UInt8) : ServerOp := .demux [] (message host msgType none)

def asking (host : UInt8) (addr : UInt32) : ServerOp :=
  .demux [] (message host msgDiscover (some addr))

def toClient (host : UInt8) : ServerOp := .encapsulate 495 none (padKey (chaddrOf host).bytes)

def smallServer (bits : ℕ) : ServerConfig where
  serverAddr := 0x0a000001
  subnet := .ofAddr 0x0a000000 bits

def exchange : List ServerOp :=
  [fromClient 1 msgDiscover, toClient 1, fromClient 1 msgRequest, toClient 1,
    asking 2 0x0a000009, fromClient 1 msgRelease]

theorem careful_leases_exchange :
    ∃ sv, exec step (({} : Server).configure (smallServer 24)).1 exchange = .ok sv ∧
      InjectiveOn Entry.addr sv.hosts := by
  obtain ⟨sv, hrun, -⟩ : ∃ sv, exec step (({} : Server).configure (smallServer 24)).1 exchange =
      .ok sv ∧ sv.pending = 1 := exists_exec (by decide +kernel)
  exact ⟨sv, hrun, (careful_leases {} (smallServer 24) (by decide +kernel) exchange
    (by decide +kernel) sv hrun).1⟩

def holds (bits : ℕ) (ops : List ServerOp) (hosts : List UInt8) : Option (List (Option UInt32)) :=
  (exec step (({} : Server).configure (smallServer bits)).1 ops).toOption.map fun sv =>
    hosts.map fun host => (sv.hosts.lookup (padKey (chaddrOf host).bytes)).map Entry.addr

/-- The network address is granted; a requested address is given away again by the cursor,
which starts over at the network address; and unknown clients that release share 0.0.0.0. -/
theorem leases_clash : holds 24 [asking 1 0x0a000000] [1] = some [some 0x0a000000] ∧
      holds 24 [asking 1 0x0a000003, fromClient 2 msgDiscover,
        fromClient 3 msgDiscover] [1, 3] = some [some 0x0a000003, some 0x0a000003] ∧
      holds 30 [fromClient 1 msgDiscover, fromClient 2 msgDiscover, fromClient 3 msgDiscover]
        [1, 2, 3] = some [some 0x0a000002, none, some 0x0a000000] ∧
      holds 24 [fromClient 1 msgRelease, fromClient 2 msgRelease, fromClient 1 msgDiscover] [1, 2] =
        some [some 0, some 0] := by
  decide +kernel

end Lneto.DhcpLeases
