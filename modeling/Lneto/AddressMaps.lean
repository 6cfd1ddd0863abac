import Lneto.NdpClient

/-!
The caches of ARP and neighbor discovery as maps. A seeded mapping is seen iff
no earlier slot speaks for the address, a removal forgets the address iff it had
one slot, and a reset forgets everything iff it had to allocate or nothing was
in use.
-/
namespace Lneto.AddressMaps

open AddressCache GuardedRuns Entry

variable {p : Bytes} {c : Cache} {h : Handler}

section Arp
open ArpHandler Handler

inductive ArpOp where
  | cacheSeed (protoAddr hwAddr : Bytes)
  | cacheRemove (protoAddr : Bytes)
  | startQuery (proto : Bytes) (triggerCallback : Bool)
  | reset (cfg : HandlerConfig)
  | abortPending
  | updateProtoAddr (protoAddr : Bytes)
  | setOnResolveCallback (set : Bool)
  | demux (ethFrame : Bytes) (frameOffset : ℕ)
  | encapsulate (len offsetToFrame : ℕ)
deriving DecidableEq, Repr

def stepArp (h : Handler) : ArpOp → Except Fault Handler
  | .cacheSeed protoAddr hwAddr => (h.cacheSeed protoAddr hwAddr).map Prod.fst
  | .cacheRemove protoAddr => (h.cacheRemove protoAddr).map Prod.fst
  | .startQuery proto triggerCallback => (h.startQuery proto triggerCallback).map Prod.fst
  | .reset cfg => (h.reset cfg).map Prod.fst
  | .abortPending => .ok h.abortPending
  | .updateProtoAddr protoAddr => .ok (h.updateProtoAddr protoAddr).1
  | .setOnResolveCallback set => .ok { h with onresolve := set }
  | .demux ethFrame frameOffset => (h.demux ethFrame frameOffset).map Prod.fst
  | .encapsulate len offsetToFrame => (h.encapsulate len offsetToFrame).map Prod.fst

def ArpBlank (h : Handler) : Prop :=
  (∀ p, h.cacheLookup p = .ok (.error .queryNotFound)) ∧
    ∀ len offset h' out, h.encapsulate len offset ≠ .ok (h', .ok (some out))

/-- The cache answers as a map: a seed is found, what was removed or reset is not. -/
def ArpMaps (h : Handler) : ArpOp → Prop
  | .cacheSeed p hw => ∃ h' err, h.cacheSeed p hw = .ok (h', err) ∧
      (err = none → h'.cacheLookup p = .ok (.ok hw))
  | .cacheRemove p => ∃ h' err, h.cacheRemove p = .ok (h', err) ∧
      h'.cacheLookup p = .ok (.error .queryNotFound)
  | .reset cfg => ∃ h' err, h.reset cfg = .ok (h', err) ∧ (err = none → ArpBlank h')
  | _ => True

def Accepted (cfg : HandlerConfig) : Prop :=
  0 < cfg.hardwareAddr.length ∧ cfg.hardwareAddr.length ≤ 255 ∧
    0 < cfg.protocolAddr.length ∧ cfg.protocolAddr.length ≤ 255 ∧
    0 < cfg.maxQueries ∧ 0 < cfg.maxPending ∧
    cfg.hardwareType = 1 ∧ (cfg.protocolType = typeIPv4 ∨ cfg.protocolType = typeIPv6)

instance (cfg : HandlerConfig) : Decidable (Accepted cfg) := inferInstanceAs (Decidable (_ ∧ _))

/-- When a call keeps this: no other entry for the address, and a reset cache is idle or new. -/
def ArpClear (h : Handler) : ArpOp → Prop
  | .cacheSeed p hw =>
      hw.length = 6 → h.cache ≠ [] ∧ p.length ≤ 16 ∧ h.cache.Agrees p hw
  | .cacheRemove p =>
      (16 < p.length → h.cache.Idle) ∧ h.cache.countP (Entry.isFor p) ≤ 1
  | .reset cfg =>
      Accepted cfg → 6 ≤ cfg.hardwareAddr.length ∧ (h.cache.length < cfg.size ∨ h.cache.Idle)
  | _ => True

instance (h : Handler) (op : ArpOp) : Decidable (ArpClear h op) := by
  cases op <;> dsimp only [ArpClear] <;> infer_instance

theorem lookup_ok (h : p.length ≤ 16 ∨ c.Idle) : c.lookup p = .ok (c.findIdx? (isFor p)) := by
  have hfits : ¬(16 < p.length ∧ c.any (·.flags.inUse) = true) := by
    rintro ⟨hlong, hany⟩
    rcases h with h | h
    · omega
    obtain ⟨e, he, huse⟩ := List.any_eq_true.1 hany
    rw [h e he] at huse
    cases huse
  rw [Cache.lookup, if_neg hfits]

theorem lookup_fault (hlong : 16 < p.length) (h : ¬c.Idle) : c.lookup p = .error .sliceBounds := by
  have hany : c.any (·.flags.inUse) := by
    unfold Cache.Idle at h
    push Not at h
    obtain ⟨e, he, huse⟩ := h
    exact List.any_eq_true.2 ⟨e, he, by simpa using huse⟩
  rw [Cache.lookup, if_pos ⟨hlong, hany⟩]

theorem cacheSeed_ok {hw : Bytes} (hlen : hw.length = 6) (hc : h.cache ≠ []) : h.cacheSeed p hw =
      .ok ({ h with cache := h.cache.place (use {} (.ofBytes hw) p {}) }, none) := by
  have hlt := Cache.nextSlot_lt hc
  obtain ⟨hset, hentry⟩ :=
    Cache.acquire_set (by rw [Cache.acquireNext, if_pos hlt]) (use {} (.ofBytes hw) p {})
  unfold cacheSeed
  rw [if_neg (not_not.2 hlen), Cache.acquireNext, if_pos hlt]
  simp only [ok_then, hentry, hset]
  rfl

theorem cacheLookup_ok_iff {hw : Bytes} : h.cacheLookup p = .ok (.ok hw) ↔
      (p.length ≤ 16 ∨ h.cache.Idle) ∧ h.cache.shown p = some (some hw) := by
  by_cases hp : p.length ≤ 16 ∨ h.cache.Idle
  · unfold cacheLookup Cache.shown
    rw [lookup_ok hp]
    cases h.cache.findIdx? (isFor p) with
    | none => simp [bind, Except.bind, pure, Except.pure]
    | some i =>
      cases hinc : (h.cache.entry i).flags.incomplete <;>
        simp [bind, Except.bind, pure, Except.pure, hinc, hp]
  have hfault := lookup_fault (not_le.1 fun hle => hp (.inl hle)) fun hi => hp (.inr hi)
  unfold cacheLookup
  simp [hfault, hp, bind, Except.bind]

theorem cacheLookup_none_iff : h.cacheLookup p = .ok (.error .queryNotFound) ↔
      (p.length ≤ 16 ∨ h.cache.Idle) ∧ h.cache.findIdx? (isFor p) = none := by
  by_cases hp : p.length ≤ 16 ∨ h.cache.Idle
  · unfold cacheLookup
    rw [lookup_ok hp]
    cases h.cache.findIdx? (isFor p) with
    | none => simp [bind, Except.bind, pure, Except.pure, hp]
    | some i =>
      cases hinc : (h.cache.entry i).flags.incomplete <;>
        simp [bind, Except.bind, pure, Except.pure, hinc]
  have hfault := lookup_fault (not_le.1 fun hle => hp (.inl hle)) fun hi => hp (.inr hi)
  unfold cacheLookup
  simp [hfault, hp, bind, Except.bind]

theorem arpMaps_cacheSeed (h : Handler) (p hw : Bytes) :
    ArpMaps h (.cacheSeed p hw) ↔ ArpClear h (.cacheSeed p hw) := by
  simp only [ArpMaps, ArpClear]
  by_cases hlen : hw.length = 6
  · by_cases hc : h.cache = []
    · simp [cacheSeed, hlen, hc, Cache.acquireNext, bind, Except.bind]
    have hkept := Cache.not_idle_place (e := use {} (.ofBytes hw) p {}) hc rfl
    have hseed : (∃ h' err, h.cacheSeed p hw = .ok (h', err) ∧
        (err = none → h'.cacheLookup p = .ok (.ok hw))) ↔
        p.length ≤ 16 ∧ (h.cache.place (use {} (.ofBytes hw) p {})).shown p = some (some hw) := by
      rw [cacheSeed_ok hlen hc]
      constructor
      · rintro ⟨h', err, heq, hlook⟩
        cases heq
        obtain ⟨hp, hshown⟩ := cacheLookup_ok_iff.1 (hlook rfl)
        exact ⟨hp.resolve_right hkept, hshown⟩
      · rintro ⟨hp, hshown⟩
        exact ⟨_, _, rfl, fun _ => cacheLookup_ok_iff.2 ⟨.inl hp, hshown⟩⟩
    have hbytes : (use {} (.ofBytes hw) p {}).mac.bytes = hw := Mac6.bytes_copy hlen {}
    have hplace : p.length ≤ 16 →
        ((h.cache.place (use {} (.ofBytes hw) p {})).shown p = some (some hw) ↔
          h.cache.Agrees p hw) := by
      intro hp
      have hshown := Cache.shown_place hc (isFor_use hp (.ofBytes hw) {}) rfl
      rwa [hbytes] at hshown
    rw [hseed]
    constructor
    · rintro ⟨hp, hshown⟩ -
      exact ⟨hc, hp, (hplace hp).1 hshown⟩
    intro h'
    obtain ⟨-, hp, hagrees⟩ := h' hlen
    exact ⟨hp, (hplace hp).2 hagrees⟩
  · simp [cacheSeed, hlen]

theorem arpMaps_cacheRemove (h : Handler) (p : Bytes) :
    ArpMaps h (.cacheRemove p) ↔ ArpClear h (.cacheRemove p) := by
  simp only [ArpMaps, ArpClear]
  by_cases hp : p.length ≤ 16 ∨ h.cache.Idle
  · have hfits : 16 < p.length → h.cache.Idle := fun hlong => hp.resolve_left (by omega)
    unfold cacheRemove
    rw [lookup_ok hp]
    cases hfind : h.cache.findIdx? (isFor p) with
    | none =>
      have hcount : h.cache.countP (isFor p) = 0 := by
        simpa using List.findIdx?_eq_none_iff.1 hfind
      have hlook := cacheLookup_none_iff.2 ⟨hp, hfind⟩
      exact ⟨fun _ => ⟨hfits, by omega⟩, fun _ => ⟨h, _, rfl, hlook⟩⟩
    | some i =>
    -- a slot was found, so the cache is in use and the address fits
    have hshort : p.length ≤ 16 := by
      refine hp.resolve_right fun hidle => ?_
      rw [Cache.findIdx?_idle hidle] at hfind
      cases hfind
    have hlook : cacheLookup { h with cache := h.cache.set i {} } p =
        .ok (.error .queryNotFound) ↔ h.cache.countP (isFor p) ≤ 1 := by
      rw [cacheLookup_none_iff, Cache.findIdx?_destroy hfind]
      exact and_iff_right (.inl hshort)
    rw [← hlook]
    constructor
    · rintro ⟨h', err, heq, hnone⟩
      cases heq
      exact ⟨hfits, hnone⟩
    · rintro ⟨-, hnone⟩
      exact ⟨_, _, rfl, hnone⟩
  · have hlong : 16 < p.length := not_le.1 fun hle => hp (.inl hle)
    have hfault := lookup_fault hlong fun hi => hp (.inr hi)
    constructor
    · rintro ⟨h', err, heq, -⟩
      rw [cacheRemove, hfault] at heq
      cases heq
    · rintro ⟨hidle, -⟩
      exact absurd (.inr (hidle hlong)) hp

theorem due_idle (h : c.Idle) : due c = none := by
  rw [due, Cache.getNextFlagged_idle h, Cache.getNextFlagged_idle h]

theorem arpBlank_iff (h : Handler) : ArpBlank h ↔ h.cache.Idle := by
  constructor
  · rintro ⟨hlook, -⟩
    exact Cache.idle_of_findIdx? fun p _ => (cacheLookup_none_iff.1 (hlook p)).2
  intro hidle
  refine ⟨fun p => cacheLookup_none_iff.2 ⟨.inr hidle, Cache.findIdx?_idle hidle p⟩, ?_⟩
  intro len offset h' out heq
  unfold encapsulate at heq
  rw [due_idle hidle] at heq
  split_ifs at heq <;> cases heq

theorem arpMaps_reset (h : Handler) (cfg : HandlerConfig) :
    ArpMaps h (.reset cfg) ↔ ArpClear h (.reset cfg) := by
  simp only [ArpMaps, ArpClear]
  by_cases hcfg : Accepted cfg
  · obtain ⟨h1, h2, h3, h4, h5, h6, h7, h8⟩ := hcfg
    have hlens : ¬(cfg.hardwareAddr.length = 0 ∨ 255 < cfg.hardwareAddr.length ∨
        cfg.protocolAddr.length = 0 ∨ 255 < cfg.protocolAddr.length) := by omega
    have hsizes : ¬(cfg.maxQueries ≤ 0 ∨ cfg.maxPending ≤ 0) := by omega
    have htypes : ¬(cfg.hardwareType ≠ 1 ∨
        cfg.protocolType ≠ typeIPv4 ∧ cfg.protocolType ≠ typeIPv6) := by
      rintro (hne | ⟨h4', h6'⟩)
      · exact hne h7
      · exact h8.elim h4' h6'
    unfold reset
    rw [if_neg hlens, if_neg hsizes, if_neg htypes]
    rw [← Cache.idle_reset]
    by_cases hshort : cfg.hardwareAddr.length < 6
    · rw [if_pos hshort]
      constructor
      · rintro ⟨_, _, heq, -⟩
        cases heq
      intro hclear
      have := (hclear ⟨h1, h2, h3, h4, h5, h6, h7, h8⟩).1
      omega
    rw [if_neg hshort]
    constructor
    · rintro ⟨h', err, heq, hblank⟩ -
      cases heq
      exact ⟨by omega, (arpBlank_iff _).1 (hblank rfl)⟩
    intro hclear
    have hidle := (hclear ⟨h1, h2, h3, h4, h5, h6, h7, h8⟩).2
    exact ⟨_, _, rfl, fun _ => (arpBlank_iff _).2 hidle⟩
  · refine ⟨fun _ hacc => absurd hacc hcfg, fun _ => ?_⟩
    unfold reset
    split_ifs with hlens hsizes htypes hshort
    · exact ⟨h, _, rfl, nofun⟩
    · exact ⟨h, _, rfl, nofun⟩
    · exact ⟨h, _, rfl, nofun⟩
    all_goals
      refine absurd ⟨?_, ?_, ?_, ?_, ?_, ?_, ?_, ?_⟩ hcfg
      all_goals omega

theorem arpMaps_iff (h : Handler) (op : ArpOp) : ArpMaps h op ↔ ArpClear h op := by
  cases op with
  | cacheSeed p hw => exact arpMaps_cacheSeed h p hw
  | cacheRemove p => exact arpMaps_cacheRemove h p
  | reset cfg => exact arpMaps_reset h cfg
  | startQuery | abortPending | updateProtoAddr | setOnResolveCallback | demux | encapsulate =>
    exact Iff.rfl

end Arp

section Ndp
open NdpClient

inductive NdpOp where
  | cacheSeed (addr : Addr6) (mac : Mac6)
  | cacheRemove (addr : Addr6)
  | startQuery (addr : Addr6) (triggerCallback : Bool)
  | configure (echoOK : Bool) (ourAddr : Addr6) (ourMAC : Mac6) (ndpCache : ℤ)
  | reset
  | abort
  | setAddr6 (addr : Addr6)
  | setNDPResolveCallback (set : Bool)
  | demux (carrierData : Bytes) (frameOffset : ℕ)
  | encapsulate (room : ℕ)
deriving DecidableEq, Repr

def stepNdp (client : Client) : NdpOp → Except Fault Client
  | .cacheSeed addr mac => (client.cacheSeed addr mac).map Prod.fst
  | .cacheRemove addr => .ok (client.cacheRemove addr).1
  | .startQuery addr triggerCallback => (client.startQuery addr triggerCallback).map Prod.fst
  | .configure echoOK ourAddr ourMAC ndpCache =>
    .ok (client.configure echoOK ourAddr ourMAC ndpCache).1
  | .reset => .ok client.reset
  | .abort => .ok client.abort
  | .setAddr6 addr => .ok (client.setAddr6 addr)
  | .setNDPResolveCallback set => .ok { client with onresolve := set }
  | .demux carrierData frameOffset => (client.demux carrierData frameOffset).map Prod.fst
  | .encapsulate room => .ok (client.encapsNDP room).1

def NdpBlank (client : Client) : Prop :=
  (∀ addr, client.cacheLookup addr = .error .queryNotFound) ∧
    ∀ room client' out, client.encapsNDP room ≠ (client', .ok (some out))

/-- As `ArpMaps`, for the neighbours of IPv6. -/
def NdpMaps (client : Client) : NdpOp → Prop
  | .cacheSeed addr mac => ∃ client' err, client.cacheSeed addr mac = .ok (client', err) ∧
      (err = none → client'.cacheLookup addr = .ok mac.bytes)
  | .cacheRemove addr => (client.cacheRemove addr).1.cacheLookup addr = .error .queryNotFound
  | .configure echoOK ourAddr ourMAC ndpCache =>
      (client.configure echoOK ourAddr ourMAC ndpCache).2 = none →
        NdpBlank (client.configure echoOK ourAddr ourMAC ndpCache).1
  | .reset => NdpBlank client.reset
  | .abort => NdpBlank client.abort
  | .setAddr6 addr => NdpBlank (client.setAddr6 addr)
  | _ => True

def NdpClear (client : Client) : NdpOp → Prop
  | .cacheSeed addr mac =>
      addr ≠ zeroAddr → client.ndpCache ≠ [] ∧ client.ndpCache.Agrees addr.bytes mac.bytes
  | .cacheRemove addr => client.ndpCache.countP (Entry.isFor addr.bytes) ≤ 1
  | .configure echoOK _ _ ndpCache =>
      (echoOK = true ∨ 0 < ndpCache) →
        client.ndpCache.length < ndpCache.toNat ∨ client.ndpCache.Idle
  | .reset | .abort | .setAddr6 _ => client.ndpCache.Idle
  | _ => True

instance (client : Client) (op : NdpOp) : Decidable (NdpClear client op) := by
  cases op <;> dsimp only [NdpClear] <;> infer_instance

theorem ndpLookup_ok_iff {client : Client} {addr : Addr6} {mac : Bytes} :
    client.cacheLookup addr = .ok mac ↔ client.ndpCache.shown addr.bytes = some (some mac) := by
  unfold Client.cacheLookup Cache.shown
  rw [lookup_eq]
  cases client.ndpCache.findIdx? (isFor addr.bytes) with
  | none => simp
  | some i => cases hinc : (client.ndpCache.entry i).flags.incomplete <;> simp [hinc]

theorem ndpLookup_none_iff {client : Client} {addr : Addr6} :
    client.cacheLookup addr = .error .queryNotFound ↔
      client.ndpCache.findIdx? (isFor addr.bytes) = none := by
  unfold Client.cacheLookup
  rw [lookup_eq]
  cases client.ndpCache.findIdx? (isFor addr.bytes) with
  | none => simp
  | some i => cases hinc : (client.ndpCache.entry i).flags.incomplete <;> simp [hinc]

section
variable (client : Client)
include client

theorem ndpMaps_cacheSeed (addr : Addr6) (mac : Mac6) :
    NdpMaps client (.cacheSeed addr mac) ↔ NdpClear client (.cacheSeed addr mac) := by
  simp only [NdpMaps, NdpClear]
  by_cases haddr : addr = zeroAddr
  · simp [Client.cacheSeed, haddr]
  by_cases hc : client.ndpCache = []
  · simp [Client.cacheSeed, haddr, hc, Cache.acquireNext, bind, Except.bind]
  have hseed : client.cacheSeed addr mac =
      .ok ({ client with ndpCache := client.ndpCache.place (use mac addr {}) }, none) := by
    have hlt := Cache.nextSlot_lt hc
    obtain ⟨hset, -⟩ := Cache.acquire_set (by rw [Cache.acquireNext, if_pos hlt]) (use mac addr {})
    unfold Client.cacheSeed
    rw [if_neg haddr, Cache.acquireNext, if_pos hlt]
    simp only [bind, Except.bind, hset]
    rfl
  have hshown := Cache.shown_place hc (isFor_use mac addr {}) rfl
  rw [hseed]
  constructor
  · rintro ⟨client', err, heq, hlook⟩ -
    cases heq
    exact ⟨hc, hshown.1 (ndpLookup_ok_iff.1 (hlook rfl))⟩
  · intro hclear
    exact ⟨_, _, rfl, fun _ => ndpLookup_ok_iff.2 (hshown.2 (hclear haddr).2)⟩

theorem ndpMaps_cacheRemove (addr : Addr6) :
    NdpMaps client (.cacheRemove addr) ↔ NdpClear client (.cacheRemove addr) := by
  simp only [NdpMaps, NdpClear, ndpLookup_none_iff]
  unfold Client.cacheRemove
  rw [lookup_eq]
  cases hfind : client.ndpCache.findIdx? (isFor addr.bytes) with
  | none =>
    have hcount : client.ndpCache.countP (isFor addr.bytes) = 0 := by
      simpa using List.findIdx?_eq_none_iff.1 hfind
    simp [hfind, hcount]
  | some i => exact Cache.findIdx?_destroy hfind

theorem ndpBlank_iff : NdpBlank client ↔ client.ndpCache.Idle := by
  constructor
  · rintro ⟨hlook, -⟩
    exact Cache.idle_of_findIdx? fun p hp => ndpLookup_none_iff.1 (hlook ⟨p, hp⟩)
  intro hidle
  refine ⟨fun addr => ndpLookup_none_iff.2 (Cache.findIdx?_idle hidle _), ?_⟩
  intro room client' out heq
  unfold Client.encapsNDP at heq
  rw [due_idle hidle] at heq
  split_ifs at heq <;> cases heq

theorem idle_reset_zero : client.reset.ndpCache.Idle ↔ client.ndpCache.Idle := by
  rw [Client.reset, Cache.idle_reset]
  simp

theorem ndpMaps_iff (op : NdpOp) : NdpMaps client op ↔ NdpClear client op := by
  cases op with
  | cacheSeed addr mac => exact ndpMaps_cacheSeed client addr mac
  | cacheRemove addr => exact ndpMaps_cacheRemove client addr
  | configure echoOK ourAddr ourMAC ndpCache =>
    simp only [NdpMaps, NdpClear, ndpBlank_iff]
    unfold Client.configure
    by_cases hsize : 0 < ndpCache
    · simp [hsize, Cache.idle_reset]
    · have hsmall : ndpCache.toNat = 0 := by omega
      cases echoOK <;> simp [hsize, hsmall]
  | reset | abort => exact (ndpBlank_iff _).trans (idle_reset_zero client)
  | setAddr6 addr => exact (ndpBlank_iff _).trans (idle_reset_zero { client with ourIP := addr })
  | startQuery | setNDPResolveCallback | demux | encapsulate => exact Iff.rfl

end

end Ndp

/-- In a run, every call acts as on a map iff every call finds the slots clear. -/
theorem caches_map_iff (h : ArpHandler.Handler) (arpOps : List ArpOp) (client : NdpClient.Client)
    (ndpOps : List NdpOp) : (Guarded stepArp ArpMaps h arpOps ↔ Guarded stepArp ArpClear h arpOps) ∧
      (Guarded stepNdp NdpMaps client ndpOps ↔ Guarded stepNdp NdpClear client ndpOps) :=
  ⟨guarded_congr arpMaps_iff arpOps h, guarded_congr ndpMaps_iff ndpOps client⟩

def peer : Bytes := [10, 0, 0, 9]
def oldMAC : Mac6 := ⟨[2, 0, 0, 0, 0, 1], rfl⟩
def newMAC : Mac6 := ⟨[2, 0, 0, 0, 0, 2], rfl⟩

def smallConfig : ArpHandler.HandlerConfig where
  hardwareAddr := [2, 0, 0, 0, 0, 7]
  protocolAddr := [10, 0, 0, 1]
  maxQueries := 1
  maxPending := 1
  hardwareType := 1
  protocolType := ArpHandler.typeIPv4

def peer6 : NdpClient.Addr6 := ⟨0xfd :: List.replicate 15 1, rfl⟩

example : Guarded stepArp ArpClear {}
    [.reset smallConfig, .cacheSeed peer oldMAC.bytes, .cacheRemove peer,
      .cacheSeed peer newMAC.bytes] := by
  decide +kernel

def arpSees (ops : List ArpOp) : Option Bytes := do
  let h ← (exec stepArp {} ops).toOption
  (← (h.cacheLookup peer).toOption).toOption

def ndpSees (ops : List NdpOp) : Option Bytes := do
  let client ← (exec stepNdp {} ops).toOption
  (client.cacheLookup peer6).toOption

/-- The second seed is not seen, a removal uncovers it, and a query outlives a reset. -/
theorem slots_shadow :
    arpSees [.reset smallConfig, .cacheSeed peer oldMAC.bytes, .cacheSeed peer newMAC.bytes] =
        some oldMAC.bytes ∧
      arpSees [.reset smallConfig, .cacheSeed peer oldMAC.bytes, .cacheSeed peer newMAC.bytes,
        .cacheRemove peer] = some newMAC.bytes ∧
      ((exec stepArp {} [.reset smallConfig, .startQuery peer false,
        .reset smallConfig]).toOption.bind fun h =>
          (h.encapsulate 42 14).toOption.bind fun r => r.2.toOption.map fun out =>
            out.map ArpHandler.Emission.targetProto) = some (some peer) ∧
      ndpSees [.configure false NdpClient.zeroAddr newMAC 2, .cacheSeed peer6 oldMAC,
        .cacheSeed peer6 newMAC] = some oldMAC.bytes ∧
      ndpSees [.configure false NdpClient.zeroAddr newMAC 2, .cacheSeed peer6 oldMAC,
        .cacheSeed peer6 newMAC, .cacheRemove peer6] = some newMAC.bytes ∧
      ndpSees [.configure false NdpClient.zeroAddr newMAC 2, .cacheSeed peer6 oldMAC, .abort] =
        some oldMAC.bytes := by
  decide +kernel

end Lneto.AddressMaps
