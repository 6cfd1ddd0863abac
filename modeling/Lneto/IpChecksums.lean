import Lneto.IpIngress
import Lneto.OnesComplement

/-!
The checksums of received IP packets as ones' complement sums. The header
checksum is taken over the first twenty bytes, whatever the header length says,
so options count neither for nor against a packet.
-/
namespace Lneto.IpChecksums

open StackNodes hiding Fault
open Views View EthernetIngress IpIngress OnesComplement
open UInt32
open List

theorem sum16_toNat (s : UInt32) : (sum16 s).toNat = complement s.toNat := by
  have hs := s.toNat_lt
  have hlow : (s &&& (0xffff : UInt32)).toNat = s.toNat % 65536 := by
    rw [UInt32.toNat_and]
    exact Nat.and_two_pow_sub_one_eq_mod s.toNat 16
  have hhigh : (s >>> (16 : UInt32)).toNat = s.toNat / 65536 := by
    rw [UInt32.toNat_shiftRight]
    exact Nat.shiftRight_eq_div_pow _ 16
  have hfold : ((s &&& (0xffff : UInt32)) + (s >>> (16 : UInt32))).toNat = fold s.toNat := by
    rw [UInt32.toNat_add, hlow, hhigh, fold]
    exact Nat.mod_eq_of_lt (by omega)
  have hcarry : (((s &&& (0xffff : UInt32)) + (s >>> (16 : UInt32))) >>> (16 : UInt32)).toNat =
      fold s.toNat / 65536 := by
    rw [UInt32.toNat_shiftRight, hfold]
    exact Nat.shiftRight_eq_div_pow _ 16
  unfold sum16
  simp only [UInt16.toNat_not, UInt32.toNat_toUInt16, UInt32.toNat_add, hfold, hcarry, complement,
    UInt16.size]
  omega

theorem sumWriteEven_eq (bytes : List UInt8) (heven : bytes.length % 2 = 0) : ∀ sum : UInt32,
    sumWriteEven sum bytes = .ok (sum + ofNat (total bytes)) := by
  unfold total
  fun_induction words bytes with
  | case1 =>
    intro sum
    simp [sumWriteEven]
  | case2 high => simp at heven
  | case3 high low rest ih =>
    intro sum
    rw [sumWriteEven, ih (by simp only [length_cons] at heven; omega), sum_cons,
      ofNat_add, add_assoc]
    rfl

def bytesAt (mem : ℕ → UInt8) (start n : ℕ) : List UInt8 :=
  (List.range n).map fun i => mem (start + i)

theorem length_bytesAt (mem : ℕ → UInt8) (start n : ℕ) : (bytesAt mem start n).length = n := by
  simp [bytesAt]

theorem bytesAt_add (mem : ℕ → UInt8) (start m n : ℕ) :
    bytesAt mem start (m + n) = bytesAt mem start m ++ bytesAt mem (start + m) n := by
  simp only [bytesAt, range_add, map_append, map_map]
  congr 1
  apply map_congr_left
  intro i _
  simp only [Function.comp_apply, Nat.add_assoc]

/-- The checksum as the header's standard has it: over all of the header. -/
def HeaderChecks (mem : ℕ → UInt8) (start : ℕ) : Prop :=
  Checks (bytesAt mem start (V4.headerAt mem start))

instance (mem : ℕ → UInt8) (start : ℕ) : Decidable (HeaderChecks mem start) :=
  inferInstanceAs (Decidable (Checks _))

/-- The sum of the options, and that of the part of the header before them. -/
def optionTotal (mem : ℕ → UInt8) (start : ℕ) : ℕ :=
  total (bytesAt mem (start + 20) (V4.headerAt mem start - 20))

def fixedTotal (mem : ℕ → UInt8) (start : ℕ) : ℕ := total (bytesAt mem start 20)

/-- demux4 finds the header checksum right. -/
def AcceptsHeader (mem : ℕ → UInt8) (ifrm : View) : Prop := V4.calculateHeaderCRC mem ifrm = .ok 0

instance (mem : ℕ → UInt8) (ifrm : View) : Decidable (AcceptsHeader mem ifrm) :=
  inferInstanceAs (Decidable (_ = _))

/-- What demux4 does with a packet whose header checksum it found right. -/
def deliver4 (mem : ℕ → UInt8) (si4 : StackIp4) (frame : View) (vld : Validator) (reply : Reply) :
    Except Fault Delivery := do
  let drop (err : Option Err) : Delivery := { table := si4.handlers, err := err }
  let off ← V4.headerLength mem frame
  let proto ← V4.protocol mem frame
  match si4.handlers.h.nodeByProto si4.handlers.ids (BitVec.ofNat 16 proto) with
  | none => return drop (some .packetDrop)
  | some i =>
    let bad ← checkPayload4 mem frame proto vld
    if bad.isSome then return drop bad
    let totalLen ← V4.totalLength mem frame
    let packet ← frame.slice 0 totalLen
    return demuxTo si4.handlers i packet off reply

section Header
variable {mem : ℕ → UInt8} {frame : View}

theorem calculateHeaderCRC_eq (h : 20 ≤ frame.len) : V4.calculateHeaderCRC mem frame =
      .ok (sum16 (ofNat (fixedTotal mem frame.start))) := by
  have hfits := frame.fits
  obtain ⟨head, hhead, hbytes⟩ := @bytes_slice mem frame 0 20 (by omega) (by omega)
  have hslice : frame.slice 0 20 = .ok head := hhead
  unfold V4.calculateHeaderCRC
  rw [hslice]
  simp only [ok_then]
  rw [hbytes, sumWriteEven_eq _ (by simp), zero_add]
  rfl

theorem fixedTotal_le (mem : ℕ → UInt8) (start : ℕ) : fixedTotal mem start ≤ 655350 := by
  have h := total_le (bytesAt mem start 20)
  rw [length_bytesAt] at h
  exact h

theorem total_pos {high : UInt8} (h : high ≠ 0) (rest : List UInt8) : 0 < total (high :: rest) := by
  have hpos : 0 < high.toNat := by
    rw [Nat.pos_iff_ne_zero, ne_eq, ← UInt8.toNat_zero, UInt8.toNat_inj]
    exact h
  cases rest with
  | nil =>
    simp only [total, words, sum_cons, sum_nil]
    omega
  | cons low rest =>
    simp only [total, words, sum_cons]
    omega

theorem fixedTotal_pos (hfirst : mem frame.start ≠ 0) : 0 < fixedTotal mem frame.start :=
  total_pos hfirst _

theorem acceptsHeader_iff (h : 20 ≤ frame.len) (hfirst : mem frame.start ≠ 0) :
    AcceptsHeader mem frame ↔ 65535 ∣ fixedTotal mem frame.start := by
  have hle := fixedTotal_le mem frame.start
  have hpos := fixedTotal_pos hfirst
  have hnat : (ofNat (fixedTotal mem frame.start)).toNat = fixedTotal mem frame.start := by
    exact Nat.mod_eq_of_lt (by omega)
  unfold AcceptsHeader
  rw [calculateHeaderCRC_eq h, Except.ok.injEq, ← UInt16.toNat_inj, sum16_toNat, hnat,
    UInt16.toNat_zero, complement_eq_zero_iff (by omega)]
  exact and_iff_right (by omega)

theorem headerChecks_iff (hhead : 20 ≤ V4.headerAt mem frame.start) (hfirst : mem frame.start ≠ 0) :
    HeaderChecks mem frame.start ↔
      65535 ∣ fixedTotal mem frame.start + optionTotal mem frame.start := by
  have hpos := fixedTotal_pos hfirst
  have hsplit : total (bytesAt mem frame.start (V4.headerAt mem frame.start)) =
      fixedTotal mem frame.start + optionTotal mem frame.start := by
    conv_lhs => rw [← Nat.add_sub_cancel' hhead, bytesAt_add]
    rw [total_append (by rw [length_bytesAt])]
    rfl
  unfold HeaderChecks
  rw [checks_iff, hsplit]
  exact and_iff_right (by omega)

theorem demux4_header {si4 : StackIp4} {carrierData : View} {offset : ℤ} {reply : Reply}
    {vld : Validator} (hframe : carrierData.tail offset = .ok frame) (h : 20 ≤ frame.len)
    (hus : forUs4 si4 (V4.destinationAt mem frame.start))
    (hvld : V4.validateExceptCRC mem frame si4.vld.resetErr = .ok vld)
    (hok : vld.hasError = false) : demux4 mem si4 carrierData offset reply =
      if AcceptsHeader mem frame then deliver4 mem si4 frame vld.errPop.2 reply
      else .ok { table := si4.handlers, err := some .badCRC } := by
  have hpop : ¬ vld.errPop.1.isSome := by
    rw [Validator.isSome_errPop, hok]
    decide
  simp only [demux4, hframe, bind, Except.bind, V4.newFrame, if_neg (Nat.not_lt.2 h),
    V4.destinationAddr_ok h, hus, Bool.not_true, Bool.false_eq_true, if_false, hvld, if_neg hpop]
  obtain ⟨crc, hcrc⟩ := @V4.calculateHeaderCRC_ok mem frame h
  by_cases hzero : crc = 0
  · have hacc : AcceptsHeader mem frame := by rw [AcceptsHeader, hcrc, hzero]
    simp only [hcrc, hzero, if_pos hacc]
    rfl
  have hacc : ¬ AcceptsHeader mem frame := by
    rw [AcceptsHeader, hcrc, Except.ok.injEq]
    exact hzero
  simp only [hcrc, if_neg hacc, if_pos (bne_iff_ne.2 hzero)]
  rfl

end Header

/-- Past the earlier checks, demux4 goes on iff it finds the checksum right. It agrees with the
sum over the whole header iff the options add nothing to it, or the packet fails with and without
them. -/
theorem header_checksum_iff {mem : ℕ → UInt8} {si4 : StackIp4} {carrierData frame : View}
    {offset : ℤ} {vld : Validator} (hframe : carrierData.tail offset = .ok frame)
    (h : 20 ≤ frame.len) (hus : forUs4 si4 (V4.destinationAt mem frame.start) = true)
    (hvld : V4.validateExceptCRC mem frame si4.vld.resetErr = .ok vld)
    (hok : vld.hasError = false) : (∀ reply, demux4 mem si4 carrierData offset reply =
      if AcceptsHeader mem frame then deliver4 mem si4 frame vld.errPop.2 reply
      else .ok { table := si4.handlers, err := some .badCRC }) ∧
    ((AcceptsHeader mem frame ↔ HeaderChecks mem frame.start) ↔
      65535 ∣ optionTotal mem frame.start ∨
        ¬ 65535 ∣ fixedTotal mem frame.start ∧
          ¬ 65535 ∣ fixedTotal mem frame.start + optionTotal mem frame.start) := by
  obtain ⟨vld', hvld', hlens⟩ := @V4.validateExceptCRC_ok mem frame h si4.vld.resetErr
  cases hvld.symm.trans hvld'
  obtain ⟨-, hhead, -⟩ := hlens hok
  have hfirst : mem frame.start ≠ 0 := by
    intro hzero
    rw [V4.headerAt, hzero] at hhead
    revert hhead
    decide
  refine ⟨fun reply => demux4_header hframe h hus hvld hok, ?_⟩
  rw [acceptsHeader_iff h hfirst, headerChecks_iff hhead hfirst]
  omega

def optionPacket (high low : UInt8) : ℕ → UInt8 := fun i =>
  ([0x46, 0, 0, 24, 0, 0, 0, 0, 64, 59, high, low, 10, 0, 0, 1, 10, 0, 0, 2, 1, 1, 1, 0] :
    List UInt8).getD i 0

def optionHost : StackIp4 := ⟨plainNode, {}, [10, 0, 0, 2], false, false⟩

theorem header_checksum_iff_option : (¬ 65535 ∣ fixedTotal (optionPacket 0 0) 0 ∧
      ¬ 65535 ∣ fixedTotal (optionPacket 0 0) 0 + optionTotal (optionPacket 0 0) 0) ∧
    (AcceptsHeader (optionPacket 0 0) ⟨0, 24, 24, le_rfl⟩ ↔ HeaderChecks (optionPacket 0 0) 0) := by
  obtain ⟨vld, hvld, -⟩ := @V4.validateExceptCRC_ok (optionPacket 0 0) ⟨0, 24, 24, le_rfl⟩
    (by decide) optionHost.vld.resetErr
  have hok : vld.hasError = false :=
    GuardedRuns.ok_observe hvld
      (show Option.map Validator.hasError _ = some false by decide +kernel)
  have hwrong : ¬ 65535 ∣ fixedTotal (optionPacket 0 0) 0 ∧
      ¬ 65535 ∣ fixedTotal (optionPacket 0 0) 0 + optionTotal (optionPacket 0 0) 0 := by
    decide +kernel
  exact ⟨hwrong, (@header_checksum_iff _ optionHost ⟨0, 24, 24, le_rfl⟩ ⟨0, 24, 24, le_rfl⟩ 0 vld
    rfl (by decide) (by decide +kernel) hvld hok).2.2 (.inr hwrong)⟩

/-- A packet with the right checksum is dropped, and one whose option was changed afterwards is
delivered. -/
theorem options_not_summed : HeaderChecks (optionPacket 0x63 0xa8) 0 ∧
      (demux4 (optionPacket 0x63 0xa8) optionHost ⟨0, 24, 24, le_rfl⟩ 0 {}).toOption.map
        (fun d => (d.calls.length, d.err matches some .badCRC)) = some (0, true) ∧
      ¬ HeaderChecks (optionPacket 0x65 0xa9) 0 ∧
      (demux4 (optionPacket 0x65 0xa9) optionHost ⟨0, 24, 24, le_rfl⟩ 0 {}).toOption.map
        (fun d => (d.calls.length, d.err matches some .badCRC)) = some (1, false) := by
  decide +kernel

end Lneto.IpChecksums
