import Lneto.SubnetTable
import Lneto.AddressMaps

/-!
Queries and their answers. The callback of the ARP handler is that of the subnet
table, which writes the answer into the buffer of the node that waits. Both
tables take their first slot for an address, so that one reply answers one slot
of each.
-/
namespace Lneto.ResolveAnswers

open AddressCache ArpHandler SubnetTable GuardedRuns List Handler Frame
open Ipv4Prefix (Prefix4)

structure Resolver where
  arp : Handler
  table : Table
  heap : Heap
  /-- The addresses with a query that asked for the callback since it last ran for them. -/
  asked : List Bytes := []

inductive ResolveOp where
  | cacheSeed (protoAddr hwAddr : Bytes)
  | startQuery (proto : Bytes) (triggerCallback : Bool)
  | tableQuery (id : ℕ) (ip : Bytes)
  | hwDynamicResolve (id : ℕ) (addr : Bytes)
  | setSubnet (subnet4 : Prefix4)
  | learn (frame : EthFrame)
  | demux (ethFrame : Bytes) (frameOffset : ℕ)
  | encapsulate (len offsetToFrame : ℕ)

namespace Resolver

def tableQuery (s : Resolver) (id : ℕ) (ip : Bytes) : Except Fault Resolver := do
  let (table, heap, arp, err) ← s.table.startQuery s.heap s.arp id ip
  let known := (s.table.scanPassive fun v => v.ip == ip).toOption ≠ some none
  return { table, heap, arp, asked := if err ≠ none ∨ known then s.asked else ip :: s.asked }

/-- The buffer is new; the query is left out if the cache has the answer. -/
def hwDynamicResolve (s : Resolver) (id : ℕ) (addr : Bytes) : Except Fault Resolver :=
  if !s.table.subnet4.contains addr then .ok s
  else do
    let s := { s with heap := Function.update s.heap id (List.replicate 6 0) }
    match ← s.arp.cacheLookup addr with
    | .ok hw => return { s with heap := Function.update s.heap id (copyInto (s.heap id) hw) }
    | .error _ => s.tableQuery id addr

/-- A received frame, with the callback bound to the table. -/
def demux (s : Resolver) (ethFrame : Bytes) (frameOffset : ℕ) : Except Fault Resolver := do
  let (arp, _, resolved) ← s.arp.demux ethFrame frameOffset
  match resolved with
  | none => return { s with arp }
  | some r =>
    let (table, heap) := s.table.onResolve s.heap r.mac r.proto
    return { table, heap, arp, asked := s.asked.filter (· ≠ r.proto) }

end Resolver

def step (s : Resolver) : ResolveOp → Except Fault Resolver
  | .cacheSeed protoAddr hwAddr => do
    let (arp, _) ← s.arp.cacheSeed protoAddr hwAddr
    return { s with arp }
  | .startQuery proto triggerCallback => do
    let (arp, err) ← s.arp.startQuery proto triggerCallback
    let asked := if err = none ∧ triggerCallback = true then proto :: s.asked else s.asked
    return { s with arp, asked }
  | .tableQuery id ip => s.tableQuery id ip
  | .hwDynamicResolve id addr => s.hwDynamicResolve id addr
  | .setSubnet subnet4 => .ok { s with table := { s.table with subnet4 } }
  | .learn frame => do
    let (table, heap) ← s.table.learnFromIngressEthernet s.heap frame
    return { s with table, heap }
  | .demux ethFrame frameOffset => s.demux ethFrame frameOffset
  | .encapsulate len offsetToFrame => do
    let (arp, _) ← s.arp.encapsulate len offsetToFrame
    return { s with arp }

def ValidReply (h : Handler) (ethFrame : Bytes) (frameOffset : ℕ) : Prop :=
  frameOffset ≤ ethFrame.length ∧ h.accepts (ethFrame.drop frameOffset) = none ∧
    Frame.operation (ethFrame.drop frameOffset) = opReply

def Holds (buf mac : Bytes) : Prop := copyInto buf mac = buf

structure AnsweredBy (s s' : Resolver) (p hw : Bytes) : Prop where
  complete : ∀ e ∈ s'.arp.cache, e.isFor p = true → e.flags.incomplete = false
  fired : p ∉ s'.asked
  written : ∀ v ∈ s.table.resolves4.drop s.table.passivePeers, v.ip = p →
    ∀ id, v.mac = .borrowed id → Holds (s'.heap id) hw

def Answered (s : Resolver) : ResolveOp → Prop
  | .demux ethFrame frameOffset => ValidReply s.arp ethFrame frameOffset →
    ∃ s', step s (.demux ethFrame frameOffset) = .ok s' ∧
      AnsweredBy s s' (Frame.senderProto (ethFrame.drop frameOffset))
        (Frame.senderHW (ethFrame.drop frameOffset))
  | _ => True

/-- The first slot for the address has the callback flag. -/
def Fires (h : Handler) (p : Bytes) : Prop :=
  h.onresolve = true ∧ ∃ i, h.cache.findIdx? (Entry.isFor p) = some i ∧
    (h.cache.entry i).flags.resolveTriggersCallback = true

/-- The first pending slot for the address has the buffer. -/
def FirstWaits (table : Table) (p : Bytes) (id : ℕ) : Prop :=
  p.length = 4 ∧ ∃ i, table.pendingFor p = some i ∧ (table.slot i).mac = .borrowed id

/-- One slot of each table is all there is to answer. -/
structure Settles (s : Resolver) (p hw : Bytes) : Prop where
  fits : p.length ≤ 16 ∨ s.arp.cache.Idle
  single : ∀ (j : ℕ) (e : Entry), s.arp.cache[j]? = some e → e.isFor p = true →
    s.arp.cache.findIdx? (Entry.isFor p) ≠ some j → e.flags.incomplete = false
  flagged : p ∈ s.asked → Fires s.arp p
  waiting : ∀ v ∈ s.table.resolves4.drop s.table.passivePeers, v.ip = p →
    ∀ id, v.mac = .borrowed id → Fires s.arp p ∧ FirstWaits s.table p id ∨ Holds (s.heap id) hw

def Settled (s : Resolver) : ResolveOp → Prop
  | .demux ethFrame frameOffset => ValidReply s.arp ethFrame frameOffset →
    Settles s (Frame.senderProto (ethFrame.drop frameOffset))
      (Frame.senderHW (ethFrame.drop frameOffset))
  | _ => True

theorem length_senderHW {h : Handler} {b : Bytes} (haccepts : h.accepts b = none) :
    (senderHW b).length = 6 := by
  unfold accepts at haccepts
  split_ifs at haccepts with h1 h2 h3 h4
  · exact absurd haccepts h1
  · exact absurd haccepts h2
  have hlen : hwlen b = 6 := by tauto
  have hsize : ¬b.length < 8 + 2 * (hwlen b + protolen b) := by
    intro hlt
    apply h2
    rw [validateSize, if_pos hlt]
    simp
  rw [senderHW, part, length_take, length_drop, hlen]
  omega

/-- The handler after the first slot for the sender was answered. -/
def settleSlot (h : Handler) (i : ℕ) (hw : Bytes) : Handler :=
  { h with cache := h.cache.set i (Handler.answered (h.cache.entry i) hw) }

theorem demux_reply {s : Resolver} {ethFrame : Bytes} {frameOffset : ℕ}
    (hreply : ValidReply s.arp ethFrame frameOffset) : s.demux ethFrame frameOffset = (do
      let (arp, resolved) ← s.arp.onReply (ethFrame.drop frameOffset)
      match resolved with
      | none => return { s with arp }
      | some r =>
        let (table, heap) := s.table.onResolve s.heap r.mac r.proto
        return { table, heap, arp, asked := s.asked.filter (· ≠ r.proto) }) := by
  obtain ⟨hlen, haccepts, hop⟩ := hreply
  unfold Resolver.demux demux
  rw [if_neg (not_lt.2 hlen)]
  simp only [haccepts, hop, ne_eq, not_true_eq_false, if_false, if_true, bind, Except.bind]
  cases s.arp.onReply (ethFrame.drop frameOffset) with
  | error | ok => rfl

section Reply
variable {s : Resolver} {ethFrame : Bytes} {frameOffset : ℕ} {p hw : Bytes}

section
variable (hreply : ValidReply s.arp ethFrame frameOffset)
  (hp : senderProto (ethFrame.drop frameOffset) = p)
  (hhw : senderHW (ethFrame.drop frameOffset) = hw) (hfits : p.length ≤ 16 ∨ s.arp.cache.Idle)
  {i : ℕ} (hfirst : s.arp.cache.findIdx? (Entry.isFor p) = some i)
include hreply hp hhw hfits hfirst

theorem demux_silent (hfires : ¬Fires s.arp p) :
    s.demux ethFrame frameOffset = .ok { s with arp := settleSlot s.arp i hw } := by
  have hflag : ((answered (s.arp.cache.entry i) hw).flags.resolveTriggersCallback &&
      s.arp.onresolve) = false := by
    rw [Bool.and_eq_false_iff]
    by_contra hboth
    rw [not_or, Bool.not_eq_false, Bool.not_eq_false] at hboth
    exact hfires ⟨hboth.2, i, hfirst, hboth.1⟩
  rw [demux_reply hreply, onReply, hp, AddressMaps.lookup_ok hfits, hfirst, hhw]
  simp only [ok_then, pure, Except.pure, hflag]
  rfl

theorem demux_fires (hfires : Fires s.arp p) : s.demux ethFrame frameOffset = .ok {
        arp := settleSlot s.arp i hw
        table := (s.table.onResolve s.heap hw p).1
        heap := (s.table.onResolve s.heap hw p).2
        asked := s.asked.filter (· ≠ p) } := by
  obtain ⟨hbound, j, hj, hflag⟩ := hfires
  obtain rfl : i = j := Option.some.inj (hfirst.symm.trans hj)
  have hboth : ((answered (s.arp.cache.entry i) hw).flags.resolveTriggersCallback &&
      s.arp.onresolve) := by
    rw [hbound, Bool.and_true]
    exact hflag
  have hsix : hw.length = 6 := hhw ▸ length_senderHW hreply.2.1
  have hmac : (answered (s.arp.cache.entry i) hw).mac.bytes = hw := Mac6.bytes_copy hsix _
  rw [demux_reply hreply, onReply, hp, AddressMaps.lookup_ok hfits, hfirst, hhw]
  simp only [ok_then, pure, Except.pure, hboth, if_true, hmac]
  rfl

end

theorem complete_iff {slots : Cache} {i : ℕ} (hfirst : slots.findIdx? (Entry.isFor p) = some i) :
    (∀ e ∈ slots.set i (answered (slots.entry i) hw), e.isFor p → e.flags.incomplete = false) ↔
      ∀ (j : ℕ) (e : Entry), slots[j]? = some e → e.isFor p →
        slots.findIdx? (Entry.isFor p) ≠ some j → e.flags.incomplete = false := by
  constructor
  · intro hall j e he hfor hne
    refine hall e ?_ hfor
    have hij : i ≠ j := fun heq => hne (heq ▸ hfirst)
    exact mem_of_getElem? ((List.getElem?_set_ne hij).trans he)
  intro hall e he hfor
  obtain ⟨j, hj⟩ := List.getElem?_of_mem he
  by_cases hij : i = j
  · subst hij
    have hlt : i < slots.length := by
      obtain ⟨hlt, -⟩ := List.getElem?_eq_some_iff.1 hj
      simpa using hlt
    rw [List.getElem?_set_self hlt] at hj
    cases hj
    rfl
  · rw [List.getElem?_set_ne hij] at hj
    exact hall j e hj hfor fun heq => hij (Option.some.inj (hfirst.symm.trans heq))

theorem copyInto_copyInto (dst src : Bytes) :
    copyInto (copyInto dst src) src = copyInto dst src := by
  rw [copyInto, length_copyInto]
  unfold copyInto
  congr 1
  by_cases h : src.length ≤ dst.length
  · rw [take_of_length_le h, drop_left]
  · rw [drop_eq_nil_of_le (by omega : dst.length ≤ src.length), append_nil]
    exact drop_eq_nil_of_le (by simp)

theorem holds_onResolve_iff {a : Table} {heap : Heap} {id : ℕ} :
    Holds ((a.onResolve heap hw p).2 id) hw ↔ FirstWaits a p id ∨ Holds (heap id) hw := by
  unfold Table.onResolve FirstWaits
  by_cases hlen : p.length = 4
  · rw [if_neg (not_not.2 hlen)]
    cases a.pendingFor p with
    | none => simp
    | some k =>
    cases hmac : (a.slot k).mac with
    | null | owned => simp [MacSlice.copy, hmac]
    | borrowed waiting =>
    by_cases hid : id = waiting
    · subst hid
      simp [MacSlice.copy, hmac, hlen, Holds, copyInto_copyInto]
    · simp [MacSlice.copy, hmac, Function.update_of_ne hid, Ne.symm hid]
  · simp [hlen]

theorem answered_iff (hreply : ValidReply s.arp ethFrame frameOffset)
    (hp : senderProto (ethFrame.drop frameOffset) = p)
    (hhw : senderHW (ethFrame.drop frameOffset) = hw) :
    (∃ s', step s (.demux ethFrame frameOffset) = .ok s' ∧ AnsweredBy s s' p hw) ↔
      Settles s p hw := by
  by_cases hfits : p.length ≤ 16 ∨ s.arp.cache.Idle
  · simp only [step]
    cases hfirst : s.arp.cache.findIdx? (Entry.isFor p) with
    | none =>
      have hfires : ¬Fires s.arp p := by
        rintro ⟨-, i, hi, -⟩
        rw [hfirst] at hi
        cases hi
      have hnone : ∀ e ∈ s.arp.cache, e.isFor p = false := findIdx?_eq_none_iff.1 hfirst
      have hsame : s.demux ethFrame frameOffset = .ok s := by
        rw [demux_reply hreply, onReply, hp, AddressMaps.lookup_ok hfits, hfirst]
        rfl
      rw [hsame]
      constructor
      · rintro ⟨s', heq, hans⟩
        cases heq
        refine ⟨hfits, ?_, fun hasked => absurd hasked hans.fired, ?_⟩
        · intro j e he hfor
          rw [hnone e (mem_of_getElem? he)] at hfor
          cases hfor
        · exact fun v hv hip id hid => .inr (hans.written v hv hip id hid)
      intro hset
      refine ⟨s, rfl, ?_, fun hasked => hfires (hset.flagged hasked), ?_⟩
      · intro e he hfor
        rw [hnone e he] at hfor
        cases hfor
      · intro v hv hip id hid
        exact (hset.waiting v hv hip id hid).resolve_left fun hboth => hfires hboth.1
    | some i =>
    by_cases hfires : Fires s.arp p
    · rw [demux_fires hreply hp hhw hfits hfirst hfires]
      constructor
      · rintro ⟨s', heq, hans⟩
        cases heq
        refine ⟨hfits, (complete_iff hfirst).1 hans.complete, fun _ => hfires, ?_⟩
        intro v hv hip id hid
        exact (holds_onResolve_iff.1 (hans.written v hv hip id hid)).imp_left (⟨hfires, ·⟩)
      intro hset
      refine ⟨_, rfl, (complete_iff hfirst).2 hset.single, by simp, ?_⟩
      intro v hv hip id hid
      exact holds_onResolve_iff.2 ((hset.waiting v hv hip id hid).imp_left And.right)
    rw [demux_silent hreply hp hhw hfits hfirst hfires]
    constructor
    · rintro ⟨s', heq, hans⟩
      cases heq
      refine ⟨hfits, (complete_iff hfirst).1 hans.complete,
        fun hasked => absurd hasked hans.fired, ?_⟩
      exact fun v hv hip id hid => .inr (hans.written v hv hip id hid)
    intro hset
    refine ⟨_, rfl, (complete_iff hfirst).2 hset.single,
      fun hasked => hfires (hset.flagged hasked), ?_⟩
    intro v hv hip id hid
    exact (hset.waiting v hv hip id hid).resolve_left fun hboth => hfires hboth.1
  · -- an address that is longer than a slot panics in the lookup
    constructor
    · rintro ⟨s', heq, -⟩
      have hlong : 16 < p.length := not_le.1 fun hle => hfits (.inl hle)
      rw [step, demux_reply hreply, onReply, hp,
        AddressMaps.lookup_fault hlong fun hidle => hfits (.inr hidle)] at heq
      cases heq
    · exact fun hset => absurd hset.fits hfits

end Reply

/-- Every reply of a run answers everything for its sender iff there was always one slot of each
table. -/
theorem replies_answer_iff (s : Resolver) (ops : List ResolveOp) :
    Guarded step Answered s ops ↔ Guarded step Settled s ops := by
  refine guarded_congr (fun s op => ?_) ops s
  cases op with
  | demux ethFrame frameOffset => exact forall_congr' fun hreply => answered_iff hreply rfl rfl
  | cacheSeed | startQuery | tableQuery | hwDynamicResolve | setSubnet | learn | encapsulate =>
    exact Iff.rfl

def neighbor : Bytes := [10, 0, 0, 9]
def neighborMAC : Bytes := [2, 0, 0, 0, 0, 9]

def neighborFrame (op : UInt8) : Bytes :=
  [0, 1, 8, 0, 6, 4, 0, op] ++ neighborMAC ++ neighbor ++ [2, 0, 0, 0, 0, 1] ++ [10, 0, 0, 1]

def ready : Resolver where
  arp := { cache := List.replicate 4 {}, ourProtoAddr := [10, 0, 0, 1]
           ourHWAddr := [2, 0, 0, 0, 0, 1], htype := 1, protoType := typeIPv4, onresolve := true }
  table := { resolves4 := List.replicate 4 {} }
  heap := fun _ => List.replicate 6 0

def seenAfter {α : Type} (ops : List ResolveOp) (see : Resolver → α) : Option α :=
  (exec step ready ops).toOption.map see

/-- One reply fills the first of two buffers and leaves a slot incomplete; a slot from the peer's
own request takes the reply without the callback. -/
theorem reply_answers_first :
    seenAfter [.tableQuery 0 neighbor, .tableQuery 1 neighbor, .demux (neighborFrame 2) 0]
        (fun s => (s.heap 0, s.heap 1, s.arp.cache.any fun e => e.isFor neighbor &&
          e.flags.incomplete)) = some (neighborMAC, List.replicate 6 0, true) ∧
      seenAfter [.demux (neighborFrame 1) 0, .tableQuery 0 neighbor, .demux (neighborFrame 2) 0]
        (fun s => (s.heap 0, s.asked)) = some (List.replicate 6 0, [neighbor]) := by
  decide +kernel

end Lneto.ResolveAnswers
