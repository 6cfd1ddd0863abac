import Lneto.SubnetTable

/-!
Peers learned from incoming frames. Beside the table runs the list of what was
observed since the last reset, and in runs that stay clear of the address
0.0.0.0 and of reused slots the front of the table is a copy of that list.
-/
namespace Lneto.PassivePeers

open AddressCache ArpHandler SubnetTable GuardedRuns List Option
open Ipv4Prefix (Prefix4)
open Table

variable {i n : ℕ} {frame : EthFrame} {learned : List (Bytes × Bytes)}

structure Peers where
  table : Table := {}
  heap : Heap
  /-- The addresses learned since the last reset, each with its latest hardware address. -/
  learned : List (Bytes × Bytes) := []

variable {s : Peers}

inductive PeerOp where
  | reset (arpentries : ℤ) (passivePeers : ℕ)
  | setSubnet (subnet4 : Prefix4)
  | learn (frame : EthFrame)
  | startQuery (h : Handler) (id : ℕ) (ip : Bytes)
  | onResolve (mac ip : Bytes)
  | patch (frame : EthFrame)
  /-- A caller writes to its own buffer. -/
  | write (id : ℕ) (bytes : Bytes)

def addressesOf (frame : EthFrame) : Option (Bytes × Bytes) :=
  (getIPAddr (frame.mem.drop 14)).toOption.join

def seenFrom (frame : EthFrame) : Option Bytes :=
  if 34 < frame.len ∧ frame.ethertype = typeIPv4 then
    ((addressesOf frame).map Prod.fst).filter fun src => src.length = 4
  else none

/-- A learned address is followed; a new one must lie in the subnet and find a free slot. -/
def Peers.record (s : Peers) (src mac : Bytes) : List (Bytes × Bytes) :=
  match s.learned.findIdx? (·.1 == src) with
  | some i => s.learned.set i (src, mac)
  | none =>
    if s.table.subnet4.contains src ∧ s.learned.length < s.table.passivePeers then
      s.learned ++ [(src, mac)]
    else s.learned

def Peers.observe (s : Peers) (frame : EthFrame) : List (Bytes × Bytes) :=
  match seenFrom frame with
  | none => s.learned
  | some src => s.record src frame.source

def step (s : Peers) : PeerOp → Except Fault Peers
  | .reset arpentries passivePeers =>
    .ok { s with table := s.table.reset arpentries passivePeers, learned := [] }
  | .setSubnet subnet4 => .ok { s with table := { s.table with subnet4 } }
  | .learn frame => do
    let (table, heap) ← s.table.learnFromIngressEthernet s.heap frame
    return { table, heap, learned := s.observe frame }
  | .startQuery h id ip => do
    let (table, heap, _) ← s.table.startQuery s.heap h id ip
    return { s with table, heap }
  | .onResolve mac ip =>
    .ok { s with table := (s.table.onResolve s.heap mac ip).1
                 heap := (s.table.onResolve s.heap mac ip).2 }
  | .patch frame => (s.table.patchEgressMAC s.heap frame).map fun _ => s
  | .write id bytes => .ok { s with heap := Function.update s.heap id bytes }

def patched (learned : List (Bytes × Bytes)) (frame : EthFrame) : Bytes :=
  if frame.ethertype = typeIPv4 ∧ frame.isBroadcast = false then
    match (addressesOf frame).bind fun a => learned.find? (·.1 == a.2) with
    | some peer => peer.2 ++ frame.mem.drop 6
    | none => frame.mem
  else frame.mem

/-- A header of version 6 lies in the memory of the frame as a whole. -/
def InMemory (frame : EthFrame) : Prop :=
  (frame.mem.getD 14 0).toNat / 16 = 6 → 54 ≤ frame.mem.length

def Clear (s : Peers) : PeerOp → Prop
  -- a table that exists has that many slots at its front, all of them free
  | .reset arpentries passivePeers =>
    if s.table.resolves4 = [] then 0 ≤ arpentries
    else passivePeers ≤ s.table.resolves4.length ∧
      ∀ v ∈ s.table.resolves4.take passivePeers, v.ip = zeroIP ∧ v.mac = .null
  -- 0.0.0.0 is not learned, and what was learned does not change outside of the subnet
  | .learn frame =>
    34 < frame.len → frame.ethertype = typeIPv4 → InMemory frame ∧
      ∀ src ∈ seenFrom frame, s.table.passivePeers ≠ 0 →
        if s.table.subnet4.contains src then src ≠ zeroIP
        else ∀ peer ∈ s.learned, peer.1 = src → peer.2 = frame.source
  -- there is a slot for the query
  | .startQuery h _ ip =>
    ip.length = 4 → (∃ v ∈ s.table.resolves4.take s.table.passivePeers, v.ip = ip) ∨
      h.ourProtoAddr.length ≠ 4 ∨
      h.cache ≠ [] ∧ s.table.passivePeers < s.table.resolves4.length
  -- a frame to 0.0.0.0 finds no free slot
  | .patch frame =>
    34 ≤ frame.len → frame.ethertype = typeIPv4 → frame.isBroadcast = false →
      s.table.passivePeers ≠ 0 → InMemory frame ∧
        ∀ a ∈ addressesOf frame, a.2 = zeroIP →
          s.learned.length = s.table.passivePeers
  | .setSubnet _ | .onResolve _ _ | .write _ _ => True

instance (frame : EthFrame) : Decidable (InMemory frame) := inferInstanceAs (Decidable (_ → _))

instance (s : Peers) (op : PeerOp) : Decidable (Clear s op) :=
  match op with
  | .reset _ _ => by unfold Clear; infer_instance
  | .learn _ => inferInstanceAs (Decidable (_ → _ → _ ∧ ∀ src ∈ _, _))
  | .startQuery _ _ _ => inferInstanceAs (Decidable (_ → _ ∨ _))
  | .patch _ => inferInstanceAs (Decidable (_ → _ → _ → _ → _ ∧ ∀ a ∈ _, _))
  | .setSubnet _ | .onResolve _ _ | .write _ _ => isTrue trivial

def face (v : Slot) : Bytes × MacSlice := (v.ip, v.mac)

/-- The front part that the list of learned addresses stands for. -/
def layout (learned : List (Bytes × Bytes)) (passivePeers : ℕ) : List (Bytes × MacSlice) :=
  learned.map (fun e => (e.1, MacSlice.owned e.2)) ++
    List.replicate (passivePeers - learned.length) (zeroIP, .null)

structure Inv (s : Peers) : Prop where
  allocated : s.table.passivePeers ≤ s.table.resolves4.length
  bounded : s.learned.length ≤ s.table.passivePeers
  front : (s.table.resolves4.take s.table.passivePeers).map face =
    layout s.learned s.table.passivePeers
  wellFormed : ∀ e ∈ s.learned, e.1 ≠ zeroIP ∧ e.1.length = 4 ∧ e.2.length = 6

theorem layout_set (hi : i < learned.length) (e : Bytes × Bytes) :
    layout (learned.set i e) n = (layout learned n).set i (e.1, .owned e.2) := by
  unfold layout
  rw [length_set, set_append_left _ _ (by simpa using hi), map_set]

theorem layout_append (h : learned.length < n) (e : Bytes × Bytes) :
    layout (learned ++ [e]) n = (layout learned n).set learned.length (e.1, .owned e.2) := by
  obtain ⟨k, hk⟩ : ∃ k, n - learned.length = k + 1 := ⟨n - learned.length - 1, by omega⟩
  have hk' : n - (learned ++ [e]).length = k := by
    rw [length_append, length_singleton]
    omega
  unfold layout
  rw [hk, hk', set_append_right _ _ (by simp)]
  simp [replicate_succ]

theorem findIdx?_layout (want : Bytes → Bool) : (layout learned n).findIdx? (fun x => want x.1) =
      (learned.findIdx? fun e => want e.1).or
        (if learned.length < n ∧ want zeroIP then some learned.length else none) := by
  unfold layout
  rw [findIdx?_append, findIdx?_map, findIdx?_replicate, length_map]
  congr 1
  by_cases hlt : learned.length < n
  · have hpos : 0 < n - learned.length := by omega
    by_cases hwant : want zeroIP
    · simp [hlt, hwant, hpos]
    · simp [hwant]
  · have hzero : ¬0 < n - learned.length := by omega
    simp [hlt, hzero]

section
variable (h : Inv s)
include h

theorem scanPassive_eq (want : Bytes → Bool) :
    s.table.scanPassive (fun v => want v.ip) = .ok ((s.learned.findIdx? fun e => want e.1).or
        (if s.learned.length < s.table.passivePeers ∧ want zeroIP then some s.learned.length
          else none)) := by
  have hfind : (s.table.resolves4.take s.table.passivePeers).findIdx? (fun v => want v.ip) =
      (layout s.learned s.table.passivePeers).findIdx? (fun x => want x.1) := by
    rw [← h.front, findIdx?_map]
    rfl
  unfold scanPassive
  rw [hfind, findIdx?_layout]
  cases ((s.learned.findIdx? fun e => want e.1).or
    (if s.learned.length < s.table.passivePeers ∧ want zeroIP then some s.learned.length
      else none)) with
  | some i => rfl
  | none => exact if_neg (not_lt.2 h.allocated)

theorem face_slot (hi : i < s.table.passivePeers) :
    (layout s.learned s.table.passivePeers)[i]? = some (face (s.table.slot i)) := by
  have hlen : i < s.table.resolves4.length := hi.trans_le h.allocated
  rw [← h.front, getElem?_map, getElem?_take_of_lt hi, slot, getElem?_eq_getElem hlen]
  rfl

theorem slot_learned (hi : i < s.learned.length) :
    face (s.table.slot i) = (s.learned[i].1, .owned s.learned[i].2) := by
  have hslot := face_slot h (hi.trans_le h.bounded)
  rw [layout, getElem?_append_left (by simpa using hi), getElem?_map,
    getElem?_eq_getElem hi] at hslot
  exact (some.inj hslot).symm

theorem slot_free (hlt : s.learned.length < s.table.passivePeers) :
    face (s.table.slot s.learned.length) = (zeroIP, .null) := by
  have hslot := face_slot h hlt
  rw [layout, getElem?_append_right (by simp), length_map, Nat.sub_self,
    getElem?_replicate, if_pos (by omega)] at hslot
  exact (some.inj hslot).symm

theorem Inv.write_front {v : Slot} {e : Bytes × Bytes} (hv : face v = (e.1, .owned e.2))
    (hlayout : layout learned s.table.passivePeers = (layout s.learned s.table.passivePeers).set i
      (e.1, .owned e.2)) (hbounded : learned.length ≤ s.table.passivePeers)
    (hwf : ∀ e ∈ learned, e.1 ≠ zeroIP ∧ e.1.length = 4 ∧ e.2.length = 6) (heap : Heap) :
    Inv { table := s.table.setSlot i v, heap, learned } where
  allocated := by simpa [setSlot] using h.allocated
  bounded := hbounded
  front := by
    simp only [setSlot]
    rw [take_set, map_set, h.front, hv, hlayout]
  wellFormed := hwf

theorem Inv.write_back {table : Table} {heap : Heap}
    (hpeers : table.passivePeers = s.table.passivePeers)
    (hlen : table.resolves4.length = s.table.resolves4.length)
    (htake : table.resolves4.take table.passivePeers = s.table.resolves4.take s.table.passivePeers)
    : Inv { s with table, heap } where
  allocated := by
    simp only [hpeers, hlen]
    exact h.allocated
  bounded := by
    simp only [hpeers]
    exact h.bounded
  front := by
    simp only [htake]
    rw [h.front, hpeers]
  wellFormed := h.wellFormed

theorem Inv.with_heap (heap : Heap) : Inv { s with heap } :=
  h.write_back rfl rfl rfl

end

theorem findIdx?_same {α : Type} {p q : α → Bool} {l : List α} (h : ∀ x ∈ l, p x = q x) :
    l.findIdx? p = l.findIdx? q := by
  induction l with
  | nil => rfl
  | cons x l ih =>
    rw [findIdx?_cons, findIdx?_cons, h x mem_cons_self, ih fun y hy => h y (mem_cons_of_mem x hy)]

theorem learnPassive_subnet (h : Inv s) {src mac : Bytes} (hpeers : s.table.passivePeers ≠ 0)
    (hsrc : src.length = 4) (hin : s.table.subnet4.contains src) (hzero : src ≠ zeroIP)
    (hmac : mac.length = 6) :
    ∃ table heap, s.table.learnPassive s.heap src mac = .ok (table, heap) ∧
      Inv { table, heap, learned := s.record src mac } := by
  have hkeys : (s.learned.findIdx? fun e => e.1 == src || e.1 == zeroIP) =
      s.learned.findIdx? (·.1 == src) := by
    apply findIdx?_same
    intro e he
    simp [(h.wellFormed e he).1]
  have hscan := scanPassive_eq h fun ip => ip == src || ip == zeroIP
  rw [hkeys] at hscan
  unfold learnPassive Peers.record
  rw [if_neg (by simp [hpeers, hsrc]), if_neg (by simp [hin]), hscan]
  cases hfind : s.learned.findIdx? (·.1 == src) with
  | some i =>
    obtain ⟨hi, hkey, -⟩ := findIdx?_eq_some_iff_getElem.1 hfind
    have hface := slot_learned h hi
    have hip : (s.table.slot i).ip = src := (congrArg Prod.fst hface).trans (beq_iff_eq.1 hkey)
    have hold : (s.table.slot i).mac = .owned s.learned[i].2 := congrArg Prod.snd hface
    have hlen := (h.wellFormed _ (getElem_mem hi)).2.2
    have hcopy := copyInto_full (hlen.trans hmac.symm)
    refine ⟨s.table.setSlot i { s.table.slot i with mac := .owned mac }, s.heap, ?_, ?_⟩
    · simp [ok_then, pure, Except.pure, hip, hold, MacSlice.copy, hcopy]
    refine h.write_front (e := (src, mac)) ?_ (layout_set hi _) ?_ ?_ _
    · simp [face, hip]
    · simpa using h.bounded
    intro e he
    rcases mem_or_eq_of_mem_set he with hmem | rfl
    · exact h.wellFormed e hmem
    · exact ⟨hzero, hsrc, hmac⟩
  | none =>
  by_cases hlt : s.learned.length < s.table.passivePeers
  · have hface := slot_free h hlt
    have hip : (s.table.slot s.learned.length).ip = zeroIP := congrArg Prod.fst hface
    have hold : (s.table.slot s.learned.length).mac = .null := congrArg Prod.snd hface
    refine ⟨s.table.setSlot s.learned.length
      { s.table.slot s.learned.length with ip := src, mac := .owned mac }, s.heap, ?_, ?_⟩
    · simp [ok_then, pure, Except.pure, hlt, hip, hold, hzero.symm, MacSlice.append, MacSlice.bytes]
    rw [if_pos ⟨hin, hlt⟩]
    refine h.write_front (e := (src, mac)) rfl (layout_append hlt _) ?_ ?_ _
    · rw [length_append, length_singleton]
      omega
    intro e he
    rcases mem_append.1 he with hmem | hmem
    · exact h.wellFormed e hmem
    · rw [mem_singleton.1 hmem]
      exact ⟨hzero, hsrc, hmac⟩
  · refine ⟨s.table, s.heap, by simp [ok_then, pure, Except.pure, hlt], ?_⟩
    rw [if_neg fun hc => hlt hc.2]
    exact h

theorem learnPassive_other (h : Inv s) {src mac : Bytes}
    (hout : s.table.passivePeers = 0 ∨ s.table.subnet4.contains src = false)
    (hsame : s.table.passivePeers ≠ 0 → ∀ peer ∈ s.learned, peer.1 = src → peer.2 = mac) :
    s.table.learnPassive s.heap src mac = .ok (s.table, s.heap) ∧ s.record src mac = s.learned := by
  constructor
  · unfold learnPassive
    rcases hout with hzero | hout
    · rw [if_pos (.inl hzero)]
    split_ifs with h1 h2
    · rfl
    · rfl
    · exact absurd (by simp [hout]) h2
  unfold Peers.record
  cases hfind : s.learned.findIdx? (·.1 == src) with
  | some i =>
    obtain ⟨hi, hkey, -⟩ := findIdx?_eq_some_iff_getElem.1 hfind
    have hbound := h.bounded
    have hold := hsame (by omega) _ (getElem_mem hi) (beq_iff_eq.1 hkey)
    have hentry : s.learned[i] = (src, mac) := Prod.ext (beq_iff_eq.1 hkey) hold
    simp only [← hentry]
    exact set_getElem_self hi
  | none =>
  refine if_neg ?_
  rintro ⟨hin, hlt⟩
  rcases hout with hzero | hout
  · omega
  · rw [hin] at hout
    cases hout

theorem getIPAddr_ok (hlen : 34 ≤ frame.len) (hmem : InMemory frame) :
    getIPAddr (frame.mem.drop 14) = .ok (addressesOf frame) := by
  have hfits := frame.fits
  have hsize : (frame.mem.drop 14).length = frame.mem.length - 14 := length_drop
  have hfirst : (frame.mem.drop 14).head? = some (frame.mem.getD 14 0) := by
    rw [head?_drop, getD_eq_getElem?_getD, getElem?_eq_getElem (by omega)]
    rfl
  obtain ⟨r, hr⟩ : ∃ r, getIPAddr (frame.mem.drop 14) = .ok r := by
    unfold InMemory at hmem
    unfold getIPAddr
    split
    · rename_i hnil
      rw [hnil] at hfirst
      cases hfirst
    rename_i b0 rest hcons
    rw [hcons] at hfirst
    cases hfirst
    split_ifs
    · omega
    · exact ⟨_, rfl⟩
    · omega
    all_goals exact ⟨_, rfl⟩
  rw [addressesOf, hr]
  rfl

theorem length_source (hlen : 34 ≤ frame.len) : frame.source.length = 6 := by
  have hfits := frame.fits
  rw [EthFrame.source, length_take, length_drop]
  omega

theorem step_learn (h : Inv s) (hclear : Clear s (.learn frame)) :
    ∃ s', step s (.learn frame) = .ok s' ∧ Inv s' := by
  have hsame : ∀ src, s.table.learnPassive s.heap src frame.source = .ok (s.table, s.heap) →
      ∃ s', (do
        let (table, heap) ← s.table.learnPassive s.heap src frame.source
        return { table, heap, learned := s.learned } : Except Fault Peers) = .ok s' ∧ Inv s' := by
    intro src hlearn
    rw [hlearn]
    exact ⟨s, rfl, h⟩
  have hshort : ∀ src : Bytes, src.length ≠ 4 →
      s.table.learnPassive s.heap src frame.source = .ok (s.table, s.heap) :=
    fun src hsrc => if_pos (.inr hsrc)
  simp only [step, learnFromIngressEthernet, Peers.observe, seenFrom]
  by_cases hcond : 34 < frame.len ∧ frame.ethertype = typeIPv4
  · obtain ⟨hmem, hseen⟩ := hclear hcond.1 hcond.2
    rw [if_pos hcond, if_pos hcond, getIPAddr_ok hcond.1.le hmem]
    simp only [ok_then]
    rw [seenFrom, if_pos hcond] at hseen
    cases haddr : addressesOf frame with
    | none => exact hsame [] (hshort [] (by simp))
    | some a =>
    by_cases hsrc : a.1.length = 4
    · rw [haddr] at hseen
      have hclear := hseen a.1 (by simp [hsrc])
      simp only [map_some, filter_some, hsrc, decide_true, if_true]
      by_cases hlearn : s.table.passivePeers ≠ 0 ∧ s.table.subnet4.contains a.1
      · have hne := hclear hlearn.1
        rw [if_pos hlearn.2] at hne
        obtain ⟨table, heap, heq, hinv⟩ := learnPassive_subnet h hlearn.1 hsrc hlearn.2 hne
          (length_source hcond.1.le)
        simp only [heq]
        exact ⟨_, rfl, hinv⟩
      have hout : s.table.passivePeers = 0 ∨ s.table.subnet4.contains a.1 = false := by
        by_cases hpeers : s.table.passivePeers = 0
        · exact .inl hpeers
        · exact .inr (by simpa [hpeers] using hlearn)
      have hkept : s.table.passivePeers ≠ 0 →
          ∀ peer ∈ s.learned, peer.1 = a.1 → peer.2 = frame.source := by
        intro hpeers
        have hnot := hclear hpeers
        rwa [if_neg (by simp [hout.resolve_left hpeers])] at hnot
      obtain ⟨heq, hrecord⟩ := learnPassive_other h hout hkept
      simp only [hrecord]
      exact hsame a.1 heq
    · simp only [map_some, filter_some, hsrc, decide_false]
      exact hsame a.1 (hshort a.1 hsrc)
  · rw [if_neg hcond, if_neg hcond]
    exact ⟨s, rfl, h⟩

theorem oldest_bounds (heap : Heap) (n : ℕ) (slots : List Slot) : ∀ (i best age : ℕ), n ≤ i →
    n ≤ best → best < i + slots.length → n ≤ oldest heap i slots (best, age) ∧
        oldest heap i slots (best, age) < i + slots.length := by
  induction slots with
  | nil => exact fun i best age _ hlow hhigh => ⟨hlow, hhigh⟩
  | cons v rest ih =>
  intro i best age hi hlow hhigh
  rw [length_cons] at hhigh ⊢
  unfold oldest
  split
  · omega
  have hnext : i + (rest.length + 1) = i + 1 + rest.length := by omega
  rw [hnext]
  split
  · exact ih (i + 1) i v.age (by omega) hi (by omega)
  · exact ih (i + 1) best age (by omega) hlow (by omega)

theorem register_ok {a : Table} (h : a.passivePeers < a.resolves4.length) (heap : Heap) (id : ℕ)
    (addr : Bytes) : ∃ a', a.register heap id addr = .ok a' ∧ a'.passivePeers = a.passivePeers ∧
      a'.resolves4.length = a.resolves4.length ∧
      a'.resolves4.take a'.passivePeers = a.resolves4.take a.passivePeers := by
  have hdrop : (a.resolves4.drop a.passivePeers).length = a.resolves4.length - a.passivePeers :=
    length_drop
  obtain ⟨hlow, hhigh⟩ := oldest_bounds heap a.passivePeers (a.resolves4.drop a.passivePeers)
    a.passivePeers a.passivePeers (a.slot a.passivePeers).age le_rfl le_rfl (by omega)
  have htake : (a.resolves4.take a.passivePeers).length = a.passivePeers := by
    rw [length_take]
    omega
  have hgrow : (growAges (a.resolves4.drop a.passivePeers)).length =
      a.resolves4.length - a.passivePeers := by
    rw [growAges, length_map, hdrop]
  unfold register
  simp only [length_append, htake, hgrow]
  rw [if_pos (by omega)]
  refine ⟨_, rfl, rfl, ?_, ?_⟩
  · simp only [length_set, length_append, htake, hgrow]
    omega
  rw [take_set_of_le hlow, take_append_of_le_length htake.ge, take_take, min_self]

theorem step_startQuery (h : Inv s) {handler : Handler} {id : ℕ} {ip : Bytes}
    (hclear : Clear s (.startQuery handler id ip)) :
    ∃ s', step s (.startQuery handler id ip) = .ok s' ∧ Inv s' := by
  simp only [step, startQuery]
  by_cases hip : ip.length = 4
  · rw [if_neg (not_not.2 hip), scanPassive_eq h fun a => a == ip]
    cases hfind : (s.learned.findIdx? fun e => e.1 == ip).or
        (if s.learned.length < s.table.passivePeers ∧ (zeroIP == ip) then
          some s.learned.length else none) with
    | some i => exact ⟨_, rfl, h.with_heap _⟩
    | none =>
      -- the address is in no slot of the front part
      have hmiss : ¬∃ v ∈ s.table.resolves4.take s.table.passivePeers, v.ip = ip := by
        rintro ⟨v, hv, hvip⟩
        have hscan := scanPassive_eq h fun a => a == ip
        rw [hfind, scanPassive] at hscan
        cases hidx : (s.table.resolves4.take s.table.passivePeers).findIdx? (·.ip == ip) with
        | some i =>
          rw [hidx] at hscan
          cases hscan
        | none =>
          have := findIdx?_eq_none_iff.1 hidx v hv
          simp [hvip] at this
      rcases (hclear hip).resolve_left hmiss with hproto | ⟨hcache, hroom⟩
      · have hquery : handler.startQuery ip true = .ok (handler, some .mismatchLen) :=
          if_pos fun heq => hproto (heq.symm.trans hip)
        simp only [ok_then, hquery]
        exact ⟨s, rfl, h⟩
      obtain ⟨table, hreg, hpeers, hlen, htake⟩ := register_ok hroom s.heap id ip
      have hlt := Cache.nextSlot_lt hcache
      obtain ⟨r, hr⟩ : ∃ r, handler.startQuery ip true = .ok r := by
        unfold Handler.startQuery
        rw [Cache.acquireNext, if_pos hlt]
        split_ifs
        · exact ⟨_, rfl⟩
        · exact ⟨_, rfl⟩
      obtain ⟨handler', err⟩ := r
      simp only [ok_then, hr]
      cases err with
      | some err => exact ⟨s, rfl, h⟩
      | none =>
        simp only [hreg]
        exact ⟨_, rfl, h.write_back hpeers hlen htake⟩
  · rw [if_pos hip]
    exact ⟨s, rfl, h⟩

theorem onResolve_front (a : Table) (heap : Heap) (mac ip : Bytes) :
    (a.onResolve heap mac ip).1.passivePeers = a.passivePeers ∧
      (a.onResolve heap mac ip).1.resolves4.length = a.resolves4.length ∧
      (a.onResolve heap mac ip).1.resolves4.take (a.onResolve heap mac ip).1.passivePeers =
        a.resolves4.take a.passivePeers := by
  unfold onResolve
  split
  · exact ⟨rfl, rfl, rfl⟩
  cases hpend : a.pendingFor ip with
  | none => exact ⟨rfl, rfl, rfl⟩
  | some i =>
  obtain ⟨j, -, hj⟩ := map_eq_some_iff.1 hpend
  refine ⟨rfl, by simp [setSlot], ?_⟩
  simp only [setSlot]
  rw [take_set_of_le (by omega)]

theorem scan_destination (h : Inv s) {dst : Bytes}
    (hzero : dst = zeroIP → s.learned.length = s.table.passivePeers) :
    s.table.scanPassive (fun v => v.ip == dst) = .ok (s.learned.findIdx? (·.1 == dst)) := by
  rw [scanPassive_eq h fun ip => ip == dst, if_neg, or_none]
  rintro ⟨hlt, hdst⟩
  have := hzero (beq_iff_eq.1 hdst).symm
  omega

theorem patch_eq (h : Inv s) (hlen : 34 ≤ frame.len) (hclear : Clear s (.patch frame)) :
    s.table.patchEgressMAC s.heap frame = .ok (patched s.learned frame) := by
  unfold patchEgressMAC patched
  by_cases htype : frame.ethertype = typeIPv4
  · by_cases hbroad : frame.isBroadcast = false
    · by_cases hpeers : s.table.passivePeers = 0
      · have hempty : s.learned = [] := length_eq_zero_iff.1 (by have := h.bounded; omega)
        rw [if_pos (.inl hpeers), if_pos ⟨htype, hbroad⟩, hempty]
        simp
      obtain ⟨hmem, hdst⟩ := hclear hlen htype hbroad hpeers
      rw [if_neg (by simp [hpeers, htype]; omega), if_neg (by simp [hbroad]),
        if_pos ⟨htype, hbroad⟩, getIPAddr_ok hlen hmem]
      simp only [bind, Except.bind]
      cases haddr : addressesOf frame with
      | none => rfl
      | some a =>
      have hscan := scan_destination h (hdst a haddr)
      simp only [hscan, bind_some, find?_eq_bind_findIdx?_getElem?]
      cases hfind : s.learned.findIdx? (·.1 == a.2) with
      | none => rfl
      | some i =>
      obtain ⟨hi, -, -⟩ := findIdx?_eq_some_iff_getElem.1 hfind
      have hmac : (s.table.slot i).mac = .owned s.learned[i].2 :=
        congrArg Prod.snd (slot_learned h hi)
      have hsix := (h.wellFormed _ (getElem_mem hi)).2.2
      simp [hmac, MacSlice.bytes, hsix, hi, pure, Except.pure, take_of_length_le hsix.le]
    have hplain : ¬(frame.ethertype = typeIPv4 ∧ frame.isBroadcast = false) := fun hc => hbroad hc.2
    have hall : frame.isBroadcast := by simpa using hbroad
    rw [if_neg hplain]
    simp only [hall, if_true, ite_self]
  · rw [if_pos (.inr (.inr htype)), if_neg fun hc => htype hc.1]

theorem step_clear (s : Peers) (op : PeerOp) (h : Inv s) (hclear : Clear s op) :
    ∃ s', step s op = .ok s' ∧ Inv s' := by
  cases op with
  | reset arpentries passivePeers =>
    obtain ⟨hlen, hfree⟩ : passivePeers ≤
        (s.table.reset arpentries passivePeers).resolves4.length ∧
        ∀ v ∈ (s.table.reset arpentries passivePeers).resolves4.take passivePeers,
          v.ip = zeroIP ∧ v.mac = .null := by
      unfold Clear at hclear
      unfold Table.reset
      split_ifs at hclear ⊢ with hnil
      · refine ⟨by simp only [length_replicate]; omega, fun v hv => ?_⟩
        rw [eq_of_mem_replicate (mem_of_mem_take hv)]
        exact ⟨rfl, rfl⟩
      · exact hclear
    refine ⟨_, rfl, hlen, Nat.zero_le _, ?_, fun e he => by cases he⟩
    refine eq_replicate_iff.2 ⟨?_, fun b hb => ?_⟩
    · rw [length_map, length_take]
      exact min_eq_left hlen
    obtain ⟨v, hv, rfl⟩ := mem_map.1 hb
    obtain ⟨hip, hmac⟩ := hfree v hv
    rw [face, hip, hmac]
  | setSubnet subnet4 => exact ⟨_, rfl, h.write_back rfl rfl rfl⟩
  | learn frame => exact step_learn h hclear
  | startQuery handler id ip => exact step_startQuery h hclear
  | onResolve mac ip =>
    obtain ⟨hpeers, hlen, htake⟩ := onResolve_front s.table s.heap mac ip
    exact ⟨_, rfl, h.write_back hpeers hlen htake⟩
  | patch frame =>
    by_cases hlen : 34 ≤ frame.len
    · refine ⟨s, ?_, h⟩
      rw [step, patch_eq h hlen hclear]
      rfl
    refine ⟨s, ?_, h⟩
    rw [step, patchEgressMAC, if_pos (.inr (.inl (not_le.1 hlen)))]
    rfl
  | write id bytes => exact ⟨_, rfl, h.with_heap _⟩

theorem inv_start (heap : Heap) : Inv { heap } where
  allocated := le_rfl
  bounded := le_rfl
  front := rfl
  wellFormed := fun e he => by cases he

/-- A run of clear calls does not panic, and afterwards a clear frame leaves with the latest
hardware address learned for its destination, and otherwise as it was. -/
theorem clear_runs_patch (heap : Heap) (ops : List PeerOp)
    (hclear : Guarded step Clear { heap } ops) : ∃ s, exec step { heap } ops = .ok s ∧
      ∀ frame, 34 ≤ frame.len → Clear s (.patch frame) →
        s.table.patchEgressMAC s.heap frame = .ok (patched s.learned frame) := by
  obtain ⟨s, hrun, hinv⟩ := exec_safe step_clear ops { heap } (inv_start heap) hclear
  exact ⟨s, hrun, fun frame hlen hpatch => patch_eq hinv hlen hpatch⟩

def hostFrame (dstMAC srcMAC : UInt8) (src dst : Bytes) : EthFrame where
  mem := List.replicate 6 dstMAC ++ List.replicate 6 srcMAC ++ [8, 0, 0x45] ++
    List.replicate 11 0 ++ src.take 4 ++ dst.take 4 ++ List.replicate 9 0
  len := 35
  fits := by simp; omega

def localNet : Prefix4 := .ofAddr 0x0a000000 24

def zeroHeap : Heap := fun _ => List.replicate 6 0

def learnOnce : List PeerOp :=
  [.reset 4 2, .setSubnet localNet, .learn (hostFrame 2 1 [10, 0, 0, 1] [10, 0, 0, 2])]

theorem clear_runs_patch_learned : ∃ s, exec step { heap := zeroHeap } learnOnce = .ok s ∧
      s.table.patchEgressMAC s.heap (hostFrame 9 2 [10, 0, 0, 2] [10, 0, 0, 1]) =
        .ok (hostFrame 1 2 [10, 0, 0, 2] [10, 0, 0, 1]).mem := by
  obtain ⟨s, hrun, hpatch⟩ := clear_runs_patch zeroHeap learnOnce (by decide +kernel)
  have hlearned : s.learned = [([10, 0, 0, 1], List.replicate 6 1)] :=
    ok_observe hrun (by decide +kernel)
  have hclear : decide (Clear s (.patch (hostFrame 9 2 [10, 0, 0, 2] [10, 0, 0, 1]))) = true :=
    ok_observe hrun (f := fun s => decide (Clear s (.patch _))) (by decide +kernel)
  refine ⟨s, hrun, ?_⟩
  rw [hpatch _ (by decide) (of_decide_eq_true hclear), hlearned]
  decide +kernel

def mislabeled : EthFrame where
  mem := List.replicate 12 2 ++ [8, 0, 0x60] ++ List.replicate 20 0
  len := 35
  fits := by simp

def faultOf (ops : List PeerOp) : Option Fault :=
  match exec step { heap := zeroHeap } ops with
  | .ok _ => none
  | .error fault => some fault

/-- More peers after a reset, a frame to 0.0.0.0, a short frame of version 6 and a query without
slots panic; an address outlives a reset. -/
theorem table_unsafe :
    faultOf [.reset 1 1, .reset 1 3, .patch (hostFrame 9 2 [10, 0, 0, 2] [10, 0, 0, 1])] =
        some .indexOutOfRange ∧
      faultOf [.reset 4 2, .patch (hostFrame 9 2 [10, 0, 0, 2] zeroIP)] = some .sliceBounds ∧
      faultOf [.reset 4 2, .learn mislabeled] = some .sliceBounds ∧
      faultOf [.reset 0 1, .startQuery { cache := [{}], ourProtoAddr := [10, 0, 0, 2] } 0
        [10, 0, 0, 1]] = some .indexOutOfRange ∧
      ((exec step { heap := zeroHeap } (learnOnce ++ [.reset 4 2])).toOption.map fun s =>
        (s.learned, (s.table.patchEgressMAC s.heap
          (hostFrame 9 2 [10, 0, 0, 2] [10, 0, 0, 1])).toOption)) =
        some ([], some (hostFrame 1 2 [10, 0, 0, 2] [10, 0, 0, 1]).mem) := by
  decide +kernel

end Lneto.PassivePeers
