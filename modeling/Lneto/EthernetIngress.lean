import Lneto.StackNodes
import Lneto.Views

/-!
Received ethernet frames. A frame is checked for destination and size and its
payload handed to the node of its type. The size field is compared with the
whole frame, but the payload is cut behind the header.
-/
namespace Lneto.EthernetIngress

open StackNodes hiding Fault
open Views View

/-- The errors of the ingress path; `joined` are several errors of one validator. -/
inductive Err where
  | truncatedFrame
  | invalidLengthField
  | invalidField
  | packetDrop
  | badCRC
  | joined (errs : List Err)
  | node (err : NodeErr)
deriving Repr

structure Validator where
  accum : List Err := []
  evilBit : Bool := false
  allowMultiErrors : Bool := false

namespace Validator

def resetErr (v : Validator) : Validator := { v with accum := [] }

def hasError (v : Validator) : Bool := !v.accum.isEmpty

def errPop (v : Validator) : Option Err × Validator :=
  match v.accum with
  | [] => (none, v)
  | [err] => (some err, v.resetErr)
  | errs => (some (.joined errs), v.resetErr)

def addError (v : Validator) (err : Err) : Validator :=
  if v.hasError && !v.allowMultiErrors then v else { v with accum := v.accum ++ [err] }

theorem hasError_ite (v : Validator) (c : Bool) (err : Err) :
    (if c then v.addError err else v).hasError = (c || v.hasError) := by
  cases c with
  | false => rfl
  | true =>
    rw [if_pos rfl, addError]
    split_ifs with h
    · exact (Bool.and_eq_true _ _ ▸ h).1
    · simp [hasError]

theorem isSome_errPop (v : Validator) : v.errPop.1.isSome = v.hasError := by
  unfold errPop hasError
  rcases v.accum with _ | ⟨err, _ | ⟨err', errs⟩⟩ <;> rfl

end Validator

/-- A node gets a view of the received bytes and the offset of its own frame. -/
structure Call where
  node : ℕ
  data : View
  offset : ℤ
deriving DecidableEq, Repr

structure Delivery where
  table : Table
  calls : List Call := []
  err : Option Err := none

def demuxTo (t : Table) (i : ℕ) (data : View) (offset : ℤ) (reply : Reply) : Delivery :=
  { table := (t.demuxNode (some i) reply).1
    calls := [{ node := i, data := data, offset := offset }]
    err := (t.demuxNode (some i) reply).2.map .node }

/-- The node of a protocol is called; without one the packet is dropped. -/
def demuxByProto (t : Table) (data : View) (offset : ℤ) (proto : ℕ) (reply : Reply) : Delivery :=
  match t.h.nodeByProto t.ids (BitVec.ofNat 16 proto) with
  | some i => demuxTo t i data offset reply
  | none => { table := t, err := some .packetDrop }

theorem demuxByProto_calls (t : Table) (data : View) (offset : ℤ) (proto : ℕ) (reply : Reply) :
    ∀ c ∈ (demuxByProto t data offset proto reply).calls, c.data = data := by
  unfold demuxByProto
  split
  · intro c hc
    obtain rfl := List.mem_singleton.1 hc
    rfl
  · simp

def sizeHeaderNoVLAN : ℕ := 14

def typeVLAN : ℕ := 0x8100

def isSize (et : ℕ) : Bool := et ≤ 1500

section Frame
variable (mem : ℕ → UInt8)

def newFrame (buf : View) : Except Err View :=
  if buf.len < sizeHeaderNoVLAN then .error .truncatedFrame else .ok buf

def etherTypeOrSize (efrm : View) : Except Fault ℕ := efrm.uint16 mem 12

def isVLAN (efrm : View) : Except Fault Bool := do
  let et ← etherTypeOrSize mem efrm
  return et == typeVLAN

def headerLength (efrm : View) : Except Fault ℕ := do
  if ← isVLAN mem efrm then return 18
  return sizeHeaderNoVLAN

def payload (efrm : View) : Except Fault View := do
  let hl ← headerLength mem efrm
  let et ← etherTypeOrSize mem efrm
  if isSize et then efrm.slice hl (hl + et) else efrm.tail hl

def destinationHardwareAddr (efrm : View) : Except Fault (List UInt8) := do
  let dst ← efrm.slice 0 6
  return dst.bytes mem

def isBroadcast (efrm : View) : Except Fault Bool := do
  let b0 ← efrm.index mem 0
  let b1 ← efrm.index mem 1
  let b2 ← efrm.index mem 2
  let b3 ← efrm.index mem 3
  let b4 ← efrm.index mem 4
  let b5 ← efrm.index mem 5
  return b0 == 0xff && b1 == 0xff && b2 == 0xff && b3 == 0xff && b4 == 0xff && b5 == 0xff

def validateSize (efrm : View) (v : Validator) : Except Fault Validator := do
  let sz ← etherTypeOrSize mem efrm
  let v := if isSize sz && efrm.len < sz then v.addError .invalidLengthField else v
  return if sz == typeVLAN && efrm.len < 18 then v.addError .truncatedFrame else v

end Frame

structure StackEthernet where
  handlers : Table
  mac : List UInt8
  acceptMulticast : Bool

/-- A frame for this stack: broadcast, its own address, or multicast if accepted. -/
def forUs (ls : StackEthernet) (broadcast : Bool) (dstaddr : List UInt8) : Bool :=
  broadcast || ls.mac == dstaddr || ls.acceptMulticast && dstaddr.headD 0 &&& 1 != 0

def demux (mem : ℕ → UInt8) (ls : StackEthernet) (carrierData : View) (frameOffset : ℤ)
    (reply : Reply) : Except Fault Delivery := do
  let pkt ← carrierData.tail frameOffset
  match newFrame pkt with
  | .error err => return { table := ls.handlers, err := some err }
  | .ok efrm =>
    let etype ← etherTypeOrSize mem efrm
    let dstaddr ← destinationHardwareAddr mem efrm
    let broadcast ← isBroadcast mem efrm
    if forUs ls broadcast dstaddr then
      let vld ← validateSize mem efrm {}
      if vld.hasError then return { table := ls.handlers, err := vld.errPop.1 }
      let data ← payload mem efrm
      return demuxByProto ls.handlers data 0 etype reply
    else return { table := ls.handlers, err := some .packetDrop }

section Fields
variable (mem : ℕ → UInt8)

def typeAt (start : ℕ) : ℕ := word (mem (start + 12)) (mem (start + 13))

def destinationAt (start : ℕ) : List UInt8 := (List.range 6).map fun i => mem (start + i)

variable {mem} {efrm : View}

section
variable (h : 14 ≤ efrm.len)
include h

theorem etherTypeOrSize_ok : etherTypeOrSize mem efrm = .ok (typeAt mem efrm.start) := uint16_ok h

theorem headerLength_ok :
    headerLength mem efrm = .ok (if typeAt mem efrm.start = typeVLAN then 18 else 14) := by
  unfold headerLength isVLAN
  rw [etherTypeOrSize_ok h]
  by_cases hv : typeAt mem efrm.start = typeVLAN
  · simp [hv, ok_then, pure, Except.pure]
  · simp [hv, ok_then, pure, Except.pure, sizeHeaderNoVLAN]

theorem destinationHardwareAddr_ok :
    destinationHardwareAddr mem efrm = .ok (destinationAt mem efrm.start) := by
  have hfits := efrm.fits
  have hslice : efrm.slice 0 6 = .ok ⟨efrm.start + 0, 6 - 0, efrm.cap - 0, by omega⟩ :=
    @slice_ok efrm 0 6 (by omega) (by omega)
  unfold destinationHardwareAddr
  rw [hslice]
  rfl

theorem isBroadcast_ok :
    isBroadcast mem efrm = .ok (destinationAt mem efrm.start == List.replicate 6 0xff) := by
  have hi : ∀ i < 6, efrm.index mem i = .ok (mem (efrm.start + i)) :=
    fun i hi => index_ok (by omega)
  unfold isBroadcast
  rw [hi 0 (by omega), hi 1 (by omega), hi 2 (by omega), hi 3 (by omega), hi 4 (by omega),
    hi 5 (by omega)]
  simp [ok_then, pure, Except.pure, destinationAt, List.range_succ, List.replicate, Bool.and_assoc]

theorem validateSize_ok : ∃ vld, validateSize mem efrm {} = .ok vld ∧
      (vld.hasError = false ↔ (typeAt mem efrm.start ≤ 1500 → typeAt mem efrm.start ≤ efrm.len) ∧
        (typeAt mem efrm.start = typeVLAN → 18 ≤ efrm.len)) := by
  unfold validateSize
  rw [etherTypeOrSize_ok h]
  refine ⟨_, rfl, ?_⟩
  rw [Validator.hasError_ite, Validator.hasError_ite]
  simp only [isSize, Validator.hasError, List.isEmpty_nil, Bool.not_true, Bool.or_false,
    Bool.or_eq_false_iff, Bool.and_eq_false_iff, decide_eq_false_iff_not, beq_eq_false_iff_ne]
  omega

theorem payload_eq : payload mem efrm =
      if typeAt mem efrm.start ≤ 1500 then efrm.slice 14 (14 + typeAt mem efrm.start)
      else efrm.tail (if typeAt mem efrm.start = typeVLAN then 18 else 14) := by
  unfold payload
  rw [headerLength_ok h, etherTypeOrSize_ok h]
  by_cases hsize : typeAt mem efrm.start ≤ 1500
  · have hno : typeAt mem efrm.start ≠ typeVLAN := by
      unfold typeVLAN
      omega
    simp [ok_then, isSize, hsize, hno]
  · simp [ok_then, isSize, hsize]

theorem payload_inside (hvlan : typeAt mem efrm.start = typeVLAN → 18 ≤ efrm.len)
    (hroom : typeAt mem efrm.start ≤ 1500 → 14 + typeAt mem efrm.start ≤ efrm.len) :
    ∃ data, payload mem efrm = .ok data ∧ data.Inside efrm := by
  rw [payload_eq h]
  split_ifs with hsize hv
  · exact slice_inside (Nat.le_add_right 14 _) (hroom hsize)
  · exact tail_inside (hvlan hv)
  · exact tail_inside h

end

theorem payload_room {data : View} (h : 14 ≤ efrm.len) (hcap : efrm.cap = efrm.len)
    (hdata : payload mem efrm = .ok data) (hsize : typeAt mem efrm.start ≤ 1500) :
    14 + typeAt mem efrm.start ≤ efrm.len := by
  rw [payload_eq h, if_pos hsize] at hdata
  by_contra hlong
  rw [slice_fault (by omega)] at hdata
  cases hdata

end Fields

section Demux
variable {mem : ℕ → UInt8} {ls : StackEthernet} {carrierData efrm : View} {frameOffset : ℤ}
  {reply : Reply}

/-- A frame is dropped without a call, or its payload is handed over. -/
theorem demux_cases (hpkt : carrierData.tail frameOffset = .ok efrm) (h : 14 ≤ efrm.len) :
    (∃ err, demux mem ls carrierData frameOffset reply = .ok { table := ls.handlers, err := err } ∧
      ¬ (forUs ls (destinationAt mem efrm.start == List.replicate 6 0xff)
          (destinationAt mem efrm.start) ∧
        (typeAt mem efrm.start ≤ 1500 → typeAt mem efrm.start ≤ efrm.len) ∧
        (typeAt mem efrm.start = typeVLAN → 18 ≤ efrm.len))) ∨
    (demux mem ls carrierData frameOffset reply =
        (payload mem efrm).map
          (fun data => demuxByProto ls.handlers data 0 (typeAt mem efrm.start) reply) ∧
      forUs ls (destinationAt mem efrm.start == List.replicate 6 0xff)
        (destinationAt mem efrm.start) ∧
      (typeAt mem efrm.start ≤ 1500 → typeAt mem efrm.start ≤ efrm.len) ∧
      (typeAt mem efrm.start = typeVLAN → 18 ≤ efrm.len)) := by
  have hnew : newFrame efrm = .ok efrm := if_neg (not_lt.2 h)
  obtain ⟨vld, hvld, hgood⟩ := @validateSize_ok mem efrm h
  unfold demux
  simp only [hpkt, hnew, etherTypeOrSize_ok h, destinationHardwareAddr_ok h, isBroadcast_ok h,
    hvld, ok_then, pure, Except.pure]
  by_cases hus : forUs ls (destinationAt mem efrm.start == List.replicate 6 0xff)
      (destinationAt mem efrm.start)
  · rw [if_pos hus]
    cases herr : vld.hasError with
    | true =>
      rw [herr, Bool.true_eq_false, false_iff] at hgood
      exact .inl ⟨_, rfl, fun hall => hgood hall.2⟩
    | false =>
    refine .inr ⟨?_, hus, hgood.1 herr⟩
    cases payload mem efrm with
    | error | ok => rfl
  · rw [if_neg hus]
    exact .inl ⟨_, rfl, fun hall => hus hall.1⟩

end Demux

/-- A frame of the stack whose size field is in the frame but not behind its header. -/
def Overruns (mem : ℕ → UInt8) (ls : StackEthernet) (start len : ℕ) : Prop :=
  14 ≤ len ∧
  forUs ls (destinationAt mem start == List.replicate 6 0xff) (destinationAt mem start) = true ∧
  typeAt mem start ≤ 1500 ∧ typeAt mem start ≤ len ∧ len < 14 + typeAt mem start

theorem demux_frame_iff {mem : ℕ → UInt8} {ls : StackEthernet} {carrierData efrm : View}
    {frameOffset : ℤ} {reply : Reply} (hpkt : carrierData.tail frameOffset = .ok efrm)
    (hcap : efrm.cap = efrm.len) : (∃ d, demux mem ls carrierData frameOffset reply = .ok d ∧
      ∀ c ∈ d.calls, c.data.Inside efrm) ↔ ¬ Overruns mem ls efrm.start efrm.len := by
  by_cases hshort : efrm.len < 14
  · have hdrop : demux mem ls carrierData frameOffset reply =
        .ok { table := ls.handlers, err := some .truncatedFrame } := by
      unfold demux
      rw [hpkt]
      simp [newFrame, sizeHeaderNoVLAN, hshort, ok_then, pure, Except.pure]
    rw [hdrop]
    refine ⟨fun _ hover => ?_, fun _ => ⟨_, rfl, by simp⟩⟩
    have := hover.1
    omega
  have h : 14 ≤ efrm.len := not_lt.1 hshort
  rcases @demux_cases mem ls carrierData efrm frameOffset reply hpkt h with
    ⟨err, hdrop, hno⟩ | ⟨hhand, hus, hsize, hvlan⟩
  · rw [hdrop]
    refine ⟨fun _ hover => hno ⟨hover.2.1, fun _ => hover.2.2.2.1, fun hv => ?_⟩,
      fun _ => ⟨_, rfl, by simp⟩⟩
    have hle := hover.2.2.1
    rw [hv, typeVLAN] at hle
    omega
  rw [hhand]
  constructor
  · rintro ⟨d, hd, -⟩ ⟨-, -, hle, -, hover⟩
    cases hdata : payload mem efrm with
    | error fault =>
      rw [hdata] at hd
      cases hd
    | ok data =>
      have hroom := payload_room h hcap hdata hle
      omega
  intro hfine
  have hroom : typeAt mem efrm.start ≤ 1500 → 14 + typeAt mem efrm.start ≤ efrm.len := by
    intro hle
    by_contra hlong
    exact hfine ⟨h, hus, hle, hsize hle, not_le.1 hlong⟩
  obtain ⟨data, hdata, hinside⟩ := payload_inside h hvlan hroom
  rw [hdata]
  refine ⟨_, rfl, fun c hc => ?_⟩
  rw [demuxByProto_calls _ data _ _ _ c hc]
  exact hinside

/-- Every frame is received without a panic, and only parts of it passed on, exactly
when its size field does not overrun it. -/
theorem demux_total_iff (mem : ℕ → UInt8) (ls : StackEthernet) (carrierData : View)
    (hcap : carrierData.cap = carrierData.len) (frameOffset : ℕ)
    (hoff : frameOffset ≤ carrierData.len) (reply : Reply) :
    (∃ d frame, demux mem ls carrierData frameOffset reply = .ok d ∧
      carrierData.tail frameOffset = .ok frame ∧ ∀ c ∈ d.calls, c.data.Inside frame) ↔
    ¬ Overruns mem ls (carrierData.start + frameOffset) (carrierData.len - frameOffset) := by
  obtain ⟨efrm, hpkt, hstart, hlen, hcap'⟩ := tail_view hoff
  rw [← hstart, ← hlen, ← demux_frame_iff hpkt (by omega)]
  constructor
  · rintro ⟨d, frame, hd, hframe, hcalls⟩
    rw [hpkt] at hframe
    cases hframe
    exact ⟨d, hd, hcalls⟩
  · rintro ⟨d, hd, hcalls⟩
    exact ⟨d, efrm, hd, hpkt, hcalls⟩

def sized (size : UInt8) : ℕ → UInt8 := fun i => if i < 6 then 0xff else if i = 13 then size else 0

def frame60 : View := ⟨0, 60, 60, le_rfl⟩

/-- A node for the type 46. -/
def sizeNode : StackEthernet :=
  ⟨{ h := { nodes := [{ callbacks := some 0, proto := 46 }], cap := 1 } }, [], false⟩

theorem demux_total_iff_padded : ∃ d frame, demux (sized 46) sizeNode frame60 0 {} = .ok d ∧
      frame60.tail 0 = .ok frame ∧ (∀ c ∈ d.calls, c.data.Inside frame) ∧ d.calls.length = 1 := by
  obtain ⟨d, frame, hd, hframe, hcalls⟩ :=
    (demux_total_iff (sized 46) sizeNode frame60 rfl 0 (by decide) {}).2
      (by rintro ⟨-, -, -, -, hlong⟩; revert hlong; decide)
  exact ⟨d, frame, hd, hframe, hcalls,
    GuardedRuns.ok_observe (f := fun d : Delivery => d.calls.length) hd (by decide +kernel)⟩

/-- The size 50 is in the frame of 60 bytes, but not behind its header. -/
theorem demux_overruns : demux (sized 50) ⟨{}, [], false⟩ frame60 0 {} = .error .sliceBounds := by
  rfl

end Lneto.EthernetIngress
