import Lneto.Ipv4Prefix
import Lneto.Regions
import Lneto.TracedInts
import Lneto.Views

/-!
Time stamps and packet headers of the network time protocol. Times are counted
in nanoseconds from the base time, the start of 1900.
-/
namespace Lneto.NtpFrame

open Ipv4Prefix (be32 addr2bits length_be32 addr2bits_be32)
open CircularBuffers Regions TracedInts Views

abbrev Bytes := List UInt8

inductive Err where
  | truncatedFrame
  | unsupported
  | invalidConfig
  | packetDrop
  | exhausted
  | mismatch
  | invalidLengthField
  | badCRC
  | shortBuffer
  | noRandom
deriving DecidableEq, Repr

def second : ℤ := 1000000000

def maxUint32 : ℤ := 4294967295

def baseTime : ℤ := 0

def timeSub (t u : ℤ) : ℤ := max (-2 ^ 63) (min (2 ^ 63 - 1) (t - u))

@[ext]
structure Timestamp where
  sec : UInt32 := 0
  fra : UInt32 := 0
deriving DecidableEq, Repr

namespace Timestamp

def bytes (t : Timestamp) : Bytes := be32 t.sec ++ be32 t.fra

def ofBytes (b : Bytes) : Timestamp := ⟨addr2bits (b.take 4), addr2bits ((b.drop 4).take 4)⟩

@[simp] theorem length_bytes (t : Timestamp) : t.bytes.length = 8 := rfl

@[simp] theorem ofBytes_bytes (t : Timestamp) : ofBytes t.bytes = t := by
  have htake : t.bytes.take 4 = be32 t.sec := rfl
  have hdrop : (t.bytes.drop 4).take 4 = be32 t.fra := rfl
  rw [ofBytes, htake, hdrop, addr2bits_be32, addr2bits_be32]

end Timestamp

def timestampFromTime (t : ℤ) : Traced (Except Err Timestamp) :=
  if t < baseTime then pure (.error .unsupported)
  else do
    let off := timeSub t baseTime
    let sec ← uint64 (off.tdiv second)
    if maxUint32 < sec then pure (.error .unsupported)
    else do
      let rest ← uint64 (off.tmod second)
      let scaled ← uint64 (rest * maxUint32)
      pure (.ok ⟨UInt32.ofNat sec.toNat, UInt32.ofNat (scaled / second).toNat⟩)

def stamp (t : ℤ) : Except Err Timestamp := (timestampFromTime t).val

theorem timestampFromTime_ok {t : ℤ} (h0 : 0 ≤ t) (hera : t < 4294967296 * 1000000000) :
    timestampFromTime t = pure (.ok ⟨UInt32.ofNat (t / 1000000000).toNat,
      UInt32.ofNat (t % 1000000000 * 4294967295 / 1000000000).toNat⟩) := by
  have hoff : timeSub t baseTime = t := by
    unfold timeSub baseTime
    omega
  have hdiv : t.tdiv second = t / 1000000000 := Int.tdiv_eq_ediv_of_nonneg h0
  have hmod : t.tmod second = t % 1000000000 := Int.tmod_eq_emod_of_nonneg h0
  unfold timestampFromTime
  rw [if_neg (by unfold baseTime; omega)]
  simp only [hoff, hdiv, hmod]
  rw [uint64_exact (by omega) (by omega), pure_then, if_neg (by unfold maxUint32; omega),
    uint64_exact (by omega) (by omega), pure_then,
    uint64_exact (by unfold maxUint32; omega) (by unfold maxUint32; omega), pure_then]
  rfl

def sizeHeader : ℕ := 48

def modeClient : UInt8 := 3

def modeServer : UInt8 := 4

def version4 : UInt8 := 4

def leapNoWarning : UInt8 := 0

def stratumUnsync : UInt8 := 16

/-- A buffer that holds at least the fixed header. -/
structure Frame where
  buf : Bytes
  whole : sizeHeader ≤ buf.length

def newFrame (buf : Bytes) : Except Err Frame :=
  if h : sizeHeader ≤ buf.length then .ok ⟨buf, h⟩ else .error .truncatedFrame

theorem newFrame_ok {buf : Bytes} {frm : Frame} (h : newFrame buf = .ok frm) : frm.buf = buf := by
  unfold newFrame at h
  split_ifs at h
  cases h
  rfl

theorem newFrame_whole {buf : Bytes} (h : sizeHeader ≤ buf.length) : newFrame buf = .ok ⟨buf, h⟩ :=
  dif_pos h

theorem newFrame_error {buf : Bytes} {e : Err} (h : newFrame buf = .error e) :
    buf.length < sizeHeader := by
  unfold newFrame at h
  split_ifs at h with hwhole
  exact not_le.1 hwhole

theorem length_put (buf data : Bytes) (i : ℕ) : (blit buf i data).length = buf.length := by
  simp only [blit, List.length_append, List.length_take, List.length_drop]
  omega

namespace Frame

def put (frm : Frame) (i : ℕ) (data : Bytes) : Frame :=
  ⟨blit frm.buf i data, by rw [length_put]; exact frm.whole⟩

def byteAt (frm : Frame) (i : ℕ) : UInt8 := frm.buf.getD i 0

def timeAt (frm : Frame) (i : ℕ) : Timestamp := .ofBytes (read frm.buf ⟨i, 8⟩)

def mode (frm : Frame) : UInt8 := frm.byteAt 0 &&& (7 : UInt8)

def version (frm : Frame) : UInt8 := (frm.byteAt 0 >>> (3 : UInt8)) &&& (7 : UInt8)

def setFlags (frm : Frame) (mode version lp : UInt8) : Frame :=
  frm.put 0 [(mode &&& (7 : UInt8)) ||| ((version &&& (7 : UInt8)) <<< (3 : UInt8)) |||
    ((lp &&& (3 : UInt8)) <<< (6 : UInt8))]

def stratum (frm : Frame) : UInt8 := frm.byteAt 1

def setStratum (frm : Frame) (stratum : UInt8) : Frame := frm.put 1 [stratum]

def setPoll (frm : Frame) (poll : UInt8) : Frame := frm.put 2 [poll]

def setPrecision (frm : Frame) (precision : UInt8) : Frame := frm.put 3 [precision]

def setReferenceID (frm : Frame) (id : Vector UInt8 4) : Frame := frm.put 12 id.toList

def originTime (frm : Frame) : Timestamp := frm.timeAt 24

def setOriginTime (frm : Frame) (ot : Timestamp) : Frame := frm.put 24 ot.bytes

def receiveTime (frm : Frame) : Timestamp := frm.timeAt 32

def setReceiveTime (frm : Frame) (rt : Timestamp) : Frame := frm.put 32 rt.bytes

def transmitTime (frm : Frame) : Timestamp := frm.timeAt 40

def setTransmitTime (frm : Frame) (rt : Timestamp) : Frame := frm.put 40 rt.bytes

def extensionFields (frm : Frame) : Bytes := frm.buf.drop sizeHeader

def clearHeader (frm : Frame) : Frame := frm.put 0 (List.replicate sizeHeader 0)

theorem timeAt_put_same (frm : Frame) {i : ℕ} (t : Timestamp) (h : i + 8 ≤ sizeHeader) :
    (frm.put i t.bytes).timeAt i = t := by
  have hwhole := frm.whole
  have hread : read (blit frm.buf i t.bytes) ⟨i, t.bytes.length⟩ = t.bytes :=
    read_blit_same (by rw [Timestamp.length_bytes]; omega)
  rw [Timestamp.length_bytes] at hread
  rw [timeAt, put, hread, Timestamp.ofBytes_bytes]

theorem timeAt_put_apart (frm : Frame) {i j : ℕ} {data : Bytes} (hi : i ≤ sizeHeader)
    (h : j + 8 ≤ i ∨ i + data.length ≤ j) : (frm.put i data).timeAt j = frm.timeAt j := by
  have hwhole := frm.whole
  have hread : read (blit frm.buf i data) ⟨j, 8⟩ = read frm.buf ⟨j, 8⟩ :=
    read_blit_apart (by omega) (.inr (.inr h))
  rw [timeAt, put, hread, timeAt]

theorem timeAt_header (frm frm' : Frame) {i : ℕ} {more : Bytes} (h : i + 8 ≤ sizeHeader)
    (hbuf : frm'.buf = frm.buf.take sizeHeader ++ more) : frm'.timeAt i = frm.timeAt i := by
  have hlen : (frm.buf.take sizeHeader).length = sizeHeader := List.length_take_of_le frm.whole
  have hhead : ∀ rest, read (frm.buf.take sizeHeader ++ rest) ⟨i, 8⟩ =
      read (frm.buf.take sizeHeader) ⟨i, 8⟩ := fun rest => read_append rest (by rw [hlen]; exact h)
  have hown := hhead (frm.buf.drop sizeHeader)
  rw [List.take_append_drop] at hown
  rw [timeAt, timeAt, hbuf, hhead, hown]

@[simp] theorem length_put (frm : Frame) (i : ℕ) (data : Bytes) :
    (frm.put i data).buf.length = frm.buf.length := NtpFrame.length_put _ _ _

end Frame

end Lneto.NtpFrame
