import Lneto.DnsEncode
import Lneto.IpRoundTrip

/-!
The addresses of a multicast packet. SetMulticast writes the IP destination and
the hardware address that follows from it, the latter always to the start of the
carrier: over the Ethernet header that precedes the IP header only if that one
begins there. The mDNS client calls it for every packet it sends.
-/
namespace Lneto.MulticastAddresses

open Views View IpRoundTrip DnsEncode
open DnsDecode (Question Resource)
open IpEgress (Effect)
open GuardedRuns (ok_bind)

inductive MulticastErr where
  | mismatchLen
  | unsupported

/-- The hardware address of a group, by the version of the header. -/
def multicastMAC (version : ℕ) (multicastAddr : List UInt8) : List UInt8 :=
  let byte (i : ℕ) := multicastAddr.getD i 0
  if version = 4 then [1, 0, 0x5e, byte 1 &&& 0x7f, byte 2, byte 3]
  else [0x33, 0x33, byte 12, byte 13, byte 14, byte 15]

def setAddresses (mem : ℕ → UInt8) (ip mac : View) (lo : ℕ) (addr hw : List UInt8) :
    Except Fault ((ℕ → UInt8) × Option MulticastErr) := do
  let mem ← ip.copyTo mem lo addr
  let mem ← mac.copyTo mem 0 hw
  return (mem, none)

def setMulticast (mem : ℕ → UInt8) (ethernetCarrier : View) (ipOff : ℤ)
    (multicastAddr : List UInt8) : Except Fault ((ℕ → UInt8) × Option MulticastErr) := do
  let ip ← ethernetCarrier.tail ipOff
  let mac ← ethernetCarrier.slice 0 6
  let first ← ip.index mem 0
  if first.toNat / 16 = 4 then
    if multicastAddr.length ≠ 4 then return (mem, some .mismatchLen)
    setAddresses mem ip mac 16 multicastAddr (multicastMAC 4 multicastAddr)
  else if first.toNat / 16 = 6 then
    if multicastAddr.length ≠ 16 then return (mem, some .mismatchLen)
    setAddresses mem ip mac 24 multicastAddr (multicastMAC 6 multicastAddr)
  else return (mem, some .unsupported)

/-- The destination of a header at `start`, of the version in its first byte. -/
def InDestination (mem : ℕ → UInt8) (start i : ℕ) : Prop :=
  (mem start).toNat / 16 = 4 ∧ start + 16 ≤ i ∧ i < start + 20 ∨
    (mem start).toNat / 16 = 6 ∧ start + 24 ≤ i ∧ i < start + 40

/-- The hardware destination of the Ethernet header right before an IP header at `start`. -/
def InEthernet (start ipOff i : ℕ) : Prop := 14 ≤ ipOff ∧ start ≤ i + 14 ∧ i + 8 < start

section
variable {mem mem' : ℕ → UInt8} {carrier : View} {ipOff : ℕ} {addr : List UInt8} {i : ℕ}

theorem slice_start {v w : View} {a b : ℕ} (h : v.slice a b = .ok w) : w.start = v.start + a := by
  unfold slice at h
  split_ifs at h
  cases h
  simp

theorem copyTo_eq {v : View} {lo : ℕ} (h : v.copyTo mem lo addr = .ok mem') :
    mem' = store mem (v.start + lo) addr := by
  obtain ⟨w, hslice, hw⟩ := ok_bind h
  cases hw
  rw [slice_start (b := lo + addr.length) hslice]

theorem length_multicastMAC (version : ℕ) (addr : List UInt8) :
    (multicastMAC version addr).length = 6 := by
  unfold multicastMAC
  split_ifs <;> rfl

/-- A call that succeeds stores the two addresses and nothing else. -/
theorem setMulticast_eq (h : setMulticast mem carrier ipOff addr = .ok (mem', none)) :
    ∃ version lo, (mem (carrier.start + ipOff)).toNat / 16 = version ∧
      (version = 4 ∧ lo = 16 ∧ addr.length = 4 ∨ version = 6 ∧ lo = 24 ∧ addr.length = 16) ∧
      mem' = store (store mem (carrier.start + ipOff + lo) addr) carrier.start
        (multicastMAC version addr) := by
  obtain ⟨ip, htail, h⟩ := ok_bind h
  obtain ⟨mac, hslice, h⟩ := ok_bind h
  obtain ⟨first, hfirst, h⟩ := ok_bind h
  have hip := slice_start (a := ipOff) htail
  have hmac : mac.start = carrier.start := slice_start (a := 0) (b := 6) hslice
  unfold View.index at hfirst
  split_ifs at hfirst
  cases hfirst
  rw [Nat.add_zero, hip] at h
  have hset : ∀ {lo : ℕ} {hw : List UInt8}, setAddresses mem ip mac lo addr hw = .ok (mem', none) →
      mem' = store (store mem (carrier.start + ipOff + lo) addr) carrier.start hw := by
    intro lo hw hset
    obtain ⟨mem₁, hdst, hset⟩ := ok_bind hset
    obtain ⟨mem₂, hmem, hset⟩ := ok_bind hset
    cases hset
    rw [copyTo_eq hmem, copyTo_eq hdst, hip, hmac, Nat.add_zero]
  split_ifs at h with h4 hlen h6 hlen
  · cases h
  · exact ⟨4, 16, h4, .inl ⟨rfl, rfl, not_not.1 hlen⟩, hset h⟩
  · cases h
  · exact ⟨6, 24, h6, .inr ⟨rfl, rfl, not_not.1 hlen⟩, hset h⟩
  · cases h

end

/-- Only the two addresses of the packet change, if and only if there is an Ethernet header and
what lies before it holds the hardware address already, so that nothing does when the carrier
begins with it. -/
theorem multicast_touches (mem mem' : ℕ → UInt8) (carrier : View) (ipOff : ℕ) (addr : List UInt8)
    (hoff : ipOff = 0 ∨ 14 ≤ ipOff)
    (h : setMulticast mem carrier ipOff addr = .ok (mem', none)) :
    (∀ i, mem' i ≠ mem i → InEthernet (carrier.start + ipOff) ipOff i ∨
      InDestination mem (carrier.start + ipOff) i) ↔
    14 ≤ ipOff ∧ ∀ j < 6, j + 14 < ipOff → mem (carrier.start + j) =
      (multicastMAC ((mem (carrier.start + ipOff)).toNat / 16) addr).getD j 0 := by
  obtain ⟨version, lo, hversion, hkind, rfl⟩ := setMulticast_eq h
  have hlen := length_multicastMAC version addr
  rw [hversion]
  have hfront : ∀ j < 6, store (store mem (carrier.start + ipOff + lo) addr) carrier.start
      (multicastMAC version addr) (carrier.start + j) = (multicastMAC version addr).getD j 0 := by
    intro j hj
    rw [store, if_pos ⟨by omega, by omega⟩, Nat.add_sub_cancel_left]
  have hnot : ∀ j < 6, ¬ InDestination mem (carrier.start + ipOff) (carrier.start + j) := by
    unfold InDestination
    omega
  constructor
  · intro hall
    have hether : 14 ≤ ipOff := by
      rcases hoff with rfl | hoff
      · -- the version of the header itself is overwritten
        refine absurd (hall (carrier.start + 0) ?_) ?_
        · rw [hfront 0 (by omega)]
          intro heq
          rw [← heq] at hversion
          rcases hkind with ⟨rfl, -⟩ | ⟨rfl, -⟩ <;> simp [multicastMAC] at hversion
        · rintro (⟨h14, -⟩ | hdst)
          · omega
          · exact hnot 0 (by omega) hdst
      · exact hoff
    refine ⟨hether, fun j hj hjo => ?_⟩
    by_contra hne
    rcases hall (carrier.start + j) (by rw [hfront j hj]; exact Ne.symm hne) with hin | hin
    · unfold InEthernet at hin
      omega
    · exact hnot j hj hin
  · rintro ⟨hether, hsame⟩ i hi
    by_cases hmac : carrier.start ≤ i ∧ i < carrier.start + 6
    · obtain ⟨j, rfl⟩ := Nat.exists_eq_add_of_le hmac.1
      left
      unfold InEthernet
      by_contra hout
      exact hi ((hfront j (by omega)).trans (hsame j (by omega) (by omega)).symm)
    right
    rw [store_outside _ (by omega)] at hi
    unfold InDestination
    by_contra hout
    exact hi (store_outside mem (by omega))

theorem multicast_touches_destination : ∃ mem',
    setMulticast (fun _ => 0x45) ⟨0, 100, 100, le_rfl⟩ 14 [224, 0, 0, 251] = .ok (mem', none) ∧
      ∀ i, mem' i ≠ 0x45 → InEthernet 14 14 i ∨ InDestination (fun _ => 0x45) 14 i := by
  have htouch := multicast_touches (fun _ => 0x45) _ ⟨0, 100, 100, le_rfl⟩ 14 [224, 0, 0, 251]
    (.inr le_rfl) rfl
  refine ⟨_, rfl, ?_⟩
  simpa using htouch.2 ⟨le_rfl, fun j _ hj => absurd hj (by omega)⟩

inductive QuerierState where
  | idle
  | sendQuery
  | awaitResponse
  | failed
  | done
deriving DecidableEq

structure Client where
  closed : Bool := false
  ip : List UInt8
  qstate : QuerierState := .idle
  qqst : List Question := []
  rans : List Resource := []

inductive Err where
  | netClosed
  | shortBuffer
  | invalidName

/-- A panic of the carrier's bounds, of the encoder, or over the length of a query. -/
inductive Panic where
  | view (fault : Fault)
  | encoder (stop : Stop)
  | badLength

/-- A message goes to the frame; of one that is not completed, or is moved to larger memory, the
frame keeps what `spill` says. -/
def appendMessage (alloc : Allocator) (spill : Effect) (mem : ℕ → UInt8) (msg : Message)
    (flags : ℕ) (frame : View) : Except Panic ((ℕ → UInt8) × ℕ × Option Err) := do
  let msglen ← msg.len.mapError .encoder
  if frame.len < msglen then return (mem, 0, some .shortBuffer)
  match msg.appendTo alloc ⟨[], frame.cap, Nat.zero_le _⟩ 0 flags with
  | .error .invalidName => return (spill mem, 0, some .invalidName)
  | .error stop => .error (.encoder stop)
  | .ok data =>
    return (if data.cap = frame.cap then store mem frame.start data.bytes else spill mem,
      data.bytes.length, none)

namespace Client

section
variable (alloc : Allocator) (spill : Effect) (mem : ℕ → UInt8) (c : Client)

def encapsQuery (frame : View) : Except Panic ((ℕ → UInt8) × Client × ℕ × Option Err) := do
  let msg : Message := { questions := c.qqst }
  match ← appendMessage alloc spill mem msg 0 frame with
  | (mem, _, some err) => return (mem, { c with qstate := .failed }, 0, some err)
  | (mem, n, none) =>
    if n ≠ (← msg.len.mapError .encoder) then .error .badLength
    return (mem, { c with qstate := .awaitResponse }, n, none)

def encapsResponse (frame : View) : Except Panic ((ℕ → UInt8) × Client × ℕ × Option Err) := do
  match ← appendMessage alloc spill mem { answers := c.rans } (2 ^ 15 + 2 ^ 10) frame with
  | (mem, _, some err) => return (mem, c, 0, some err)
  | (mem, n, none) => return (mem, { c with rans := [] }, n, none)

def encapsulate (carrierData : View) (offsetToIP offsetToFrame : ℤ) :
    Except Panic ((ℕ → UInt8) × Client × ℕ × Option Err) := do
  if c.closed then return (mem, c, 0, some .netClosed)
  let (mem, c, n, err) ←
    if c.rans ≠ [] then do
      encapsResponse alloc spill mem c (← (carrierData.tail offsetToFrame).mapError .view)
    else if c.qstate = .sendQuery then do
      encapsQuery alloc spill mem c (← (carrierData.tail offsetToFrame).mapError .view)
    else pure (mem, c, 0, none)
  if n = 0 ∨ offsetToIP < 0 then return (mem, c, n, err)
  let (mem, _) ← (setMulticast mem carrierData offsetToIP c.ip).mapError .view
  return (mem, c, n, err)

end

end Client

def browser : Client where
  ip := [224, 0, 0, 251]
  qstate := .sendQuery
  qqst := [{ name := [1, 97, 0], type := 12, class_ := 1 }]

/-- The datagram of the client on a stack without Ethernet, with its two ports. -/
def browse : Effect := fun mem =>
  match browser.encapsulate ⟨id, fun _ => le_rfl⟩ id (store mem 20 [20, 233, 20, 233])
      ⟨0, 100, 100, le_rfl⟩ 0 28 with
  | .ok r => r.1
  | .error _ => mem

/-- Without an Ethernet header the version of the IP header is gone, and a peer that takes
multicast refuses the query. -/
theorem multicast_breaks_header :
    (setMulticast (fun _ => 0x45) ⟨0, 100, 100, le_rfl⟩ 0 [224, 0, 0, 251]).map (·.1 0) = .ok 1 ∧
    ((IpEgress.encapsulate4 (fun _ => 0) sender4 ⟨0, 100, 100, le_rfl⟩ 0 [{ n := 27 }] browse).bind
      fun sent => (IpIngress.demux4 sent.mem
        { sender4.toStackIp4 with acceptMulticast := true } ⟨0, 47, 100, by decide⟩ 0 {}).map
          fun d => (sent.n, d.calls.length, d.err.isSome)) = .ok (47, 0, true) :=
  ⟨by decide +kernel, by decide +kernel⟩

end Lneto.MulticastAddresses
