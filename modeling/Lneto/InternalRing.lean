import Lneto.CircularBuffers
import Lneto.Segments

/-!
The byte ring of package internal: readable data from off to endOff, empty
when endOff is zero, full when both offsets coincide. Offsets may equal the
buffer length; they then denote the same position as zero.
-/
namespace Lneto.InternalRing

open Segments CircularBuffers List

structure ByteRing where
  buf : List UInt8 := []
  off : ℕ := 0
  endOff : ℕ := 0
deriving DecidableEq, Repr

namespace ByteRing

def size (r : ByteRing) : ℕ := r.buf.length

def free (r : ByteRing) : ℕ :=
  if r.endOff = 0 ∨ r.off = 0 then r.buf.length - r.endOff
  else if r.off < r.endOff then r.off + (r.buf.length - r.endOff)
  else r.off - r.endOff

def buffered (r : ByteRing) : ℕ := r.size - r.free

def isFull (r : ByteRing) : Bool :=
  r.endOff != 0 && (r.endOff == r.off || (r.endOff == r.buf.length && r.off == 0))

def isEmpty (r : ByteRing) : Bool := r.endOff == 0

def midFree (r : ByteRing) : ℕ := if r.off ≤ r.endOff ∨ r.endOff = 0 then 0 else r.off - r.endOff

/-- The appending half of Write: at the end of the data, then from the start. -/
def writeTail (r : ByteRing) (b : List UInt8) : Except Panic (ByteRing × ℕ × Option Err) :=
  let start := if r.endOff = 0 then r.off else r.endOff
  if r.buf.length < start then .error .sliceBounds
  else
    let n := min (r.buf.length - start) b.length
    if n < b.length then
      let n2 := min r.buf.length (b.length - n)
      if n2 = 0 then .error .zeroEndAfterWrite
      else .ok ({ r with buf := blit (blit r.buf start b) 0 (b.drop n), endOff := n2 },
        n + n2, none)
    else if start + n = 0 then .error .zeroEndAfterWrite
    else .ok ({ r with buf := blit r.buf start b, endOff := start + n }, n, none)

def write (r : ByteRing) (b : List UInt8) : Except Panic (ByteRing × ℕ × Option Err) :=
  if b.length = 0 then .ok (r, 0, some .ringNoData)
  else if r.isFull ∨ r.free < b.length then .ok (r, 0, some .bufferFull)
  else if 0 < r.midFree then
    if r.buf.length < r.off then .error .sliceBounds
    else
      -- the free bytes lie between the end of the data and its start
      let n := min (r.off - r.endOff) b.length
      if r.endOff + n = 0 then .error .zeroEndAfterWrite
      else .ok ({ r with buf := blit r.buf r.endOff (b.take n), endOff := r.endOff + n }, n, none)
  else r.writeTail b

def freeLimited (r : ByteRing) (limitOffset : ℕ) : ℕ :=
  if r.isFull then 0
  else if r.endOff = 0 then
    if r.off ≤ limitOffset then limitOffset - r.off else r.size - r.off + limitOffset
  else if r.endOff ≤ limitOffset ∧ r.endOff ≤ r.off then min r.off limitOffset - r.endOff
  else if r.endOff ≤ limitOffset then limitOffset - r.endOff
  else if r.endOff ≤ r.off then r.off - r.endOff
  else r.size - r.endOff + min limitOffset r.off

def writeLimited (r : ByteRing) (b : List UInt8) (limitOffset : ℕ) :
    Except Panic (ByteRing × ℕ × Option Err) :=
  if r.buf.length < limitOffset then .error .badLimitOffset
  else if r.buf.length < b.length then .ok (r, 0, some .ioShortBuffer)
  else if r.freeLimited limitOffset < b.length then .ok (r, 0, some .bufferFull)
  else r.write b

def writeStart (r : ByteRing) : ℕ :=
  if r.endOff = 0 then r.off else if r.endOff = r.buf.length then 0 else r.endOff

/-- Stage bytes past the write position; false writes nothing. -/
def peekWrite (r : ByteRing) (b : List UInt8) (offset : ℕ) : Except Panic (ByteRing × Bool) :=
  if r.free < offset + b.length then .ok (r, false)
  else
    let start := r.writeStart + offset
    let off := if r.buf.length ≤ start then start - r.buf.length else start
    if r.buf.length < off then .error .sliceBounds
    else
      let n := min (r.buf.length - off) b.length
      if n < b.length then
        .ok ({ r with buf := blit (blit r.buf off b) 0 (b.drop n) }, true)
      else .ok ({ r with buf := blit r.buf off b }, true)

def commit (r : ByteRing) (n : ℕ) : ByteRing × Option Err :=
  if n = 0 then (r, some .ringInvalidCommit)
  else if r.free < n then (r, some .bufferFull)
  else
    let start := if r.endOff = 0 then r.off else r.endOff
    let stop := start + n
    ({ r with endOff := if r.buf.length < stop then stop - r.buf.length else stop }, none)

def readPeek (r : ByteRing) (n : ℕ) : Except Panic (List UInt8 × Option Err) :=
  if n = 0 then .ok ([], none)
  else if r.isEmpty then .ok ([], some .eof)
  else if r.off < r.endOff then
    if r.buf.length < r.endOff then .error .sliceBounds
    else .ok (((r.buf.drop r.off).take (r.endOff - r.off)).take n, none)
  else if r.buf.length < r.off then .error .sliceBounds
  else
    let first := (r.buf.drop r.off).take n
    if first.length < n then
      if r.buf.length < r.endOff then .error .sliceBounds
      else .ok (first ++ (r.buf.take r.endOff).take (n - first.length), none)
    else .ok (first, none)

def reset (r : ByteRing) : ByteRing := { r with off := 0, endOff := 0 }

/-- Mark the ring empty at its write position. -/
def emptied (r : ByteRing) : ByteRing :=
  { r with off := if r.endOff = r.buf.length then 0 else r.endOff, endOff := 0 }

def addOff (r : ByteRing) (a b : ℕ) : ℕ :=
  if r.buf.length < a + b then a + b - r.buf.length else a + b

def onReadEnd (r : ByteRing) (totalRead : ℕ) : Except Panic ByteRing :=
  if totalRead = 0 then .error .invalidOnReadEnd
  else
    let newOff := r.addOff r.off totalRead
    if newOff = r.endOff then .ok r.emptied
    else if newOff = r.buf.length then .ok { r with off := 0 }
    else .ok { r with off := newOff }

def read (r : ByteRing) (n : ℕ) : Except Panic (ByteRing × List UInt8 × Option Err) :=
  match r.readPeek n with
  | .error p => .error p
  | .ok (bytes, some err) => .ok (r, bytes, some err)
  | .ok (bytes, none) =>
    if n = 0 then .ok (r, bytes, none)
    else
      match r.onReadEnd bytes.length with
      | .error p => .error p
      | .ok r' => .ok (r', bytes, none)

theorem length_read_le {r r' : ByteRing} {n : ℕ} {bytes : List UInt8} {err : Option Err}
    (h : r.read n = .ok (r', bytes, err)) : bytes.length ≤ n := by
  have hpeek : ∀ {b e}, r.readPeek n = .ok (b, e) → b.length ≤ n := by
    intro b e hb
    unfold readPeek at hb
    simp only [] at hb
    split_ifs at hb <;> cases hb
    all_goals simp
    all_goals omega
  unfold read at h
  cases hp : r.readPeek n with
  | error p =>
    rw [hp] at h
    cases h
  | ok out =>
  obtain ⟨b, e⟩ := out
  rw [hp] at h
  cases e with
  | some e =>
    cases h
    exact hpeek hp
  | none =>
  simp only [] at h
  split_ifs at h
  · cases h
    exact hpeek hp
  cases hend : r.onReadEnd b.length with
  | error p =>
    rw [hend] at h
    cases h
  | ok r1 =>
  rw [hend] at h
  cases h
  exact hpeek hp

structure WF (r : ByteRing) : Prop where
  pos : 0 < r.buf.length
  off_le : r.off ≤ r.buf.length
  end_le : r.endOff ≤ r.buf.length

def writePos (r : ByteRing) : ℕ := if r.endOff = 0 then r.off else r.endOff

def readable (r : ByteRing) : List UInt8 := span r.buf r.off r.buffered

@[simp] theorem length_readable (r : ByteRing) : r.readable.length = r.buffered := by
  simp [readable]

section
variable (r : ByteRing) (h : r.WF)
include r h

theorem buffered_eq : r.buffered = if r.endOff = 0 then 0
      else if r.off < r.endOff then r.endOff - r.off else r.buf.length - r.off + r.endOff := by
  obtain ⟨hpos, hoff, hend⟩ := h
  unfold buffered free size
  split_ifs <;> omega

theorem free_add_buffered : r.free + r.buffered = r.size := by
  obtain ⟨hpos, hoff, hend⟩ := h
  unfold buffered free size
  split_ifs <;> omega

theorem buffered_eq_zero_iff : r.buffered = 0 ↔ r.endOff = 0 := by
  rw [buffered_eq r h]
  have hoff := h.off_le
  split_ifs <;> omega

theorem writePos_le : r.writePos ≤ r.buf.length := by
  unfold writePos
  split_ifs
  · exact h.off_le
  · exact h.end_le

theorem writePos_mod : r.writePos % r.buf.length = (r.off + r.buffered) % r.buf.length := by
  rw [buffered_eq r h]
  have hoff := h.off_le
  unfold writePos
  split_ifs with hz hlt
  · simp
  · congr 1
    omega
  · rw [show r.off + (r.buf.length - r.off + r.endOff) = r.endOff + r.buf.length by omega,
      Nat.add_mod_right]

theorem buffered_of_mod (hne : r.endOff ≠ 0) {k : ℕ} (hk : 0 < k) (hkl : k ≤ r.buf.length)
    (hmod : r.endOff % r.buf.length = (r.off + k) % r.buf.length) : r.buffered = k := by
  have hwp := writePos_mod r h
  rw [writePos, if_neg hne, hmod] at hwp
  have hz := buffered_eq_zero_iff r h
  have hsum := free_add_buffered r h
  unfold size at hsum
  exact eq_of_mod_eq (by omega) (by omega) hk hkl (mod_add_left_cancel hwp.symm)

/-- With m bytes of another region from the limit up to the data, the limited
room is what both regions leave. -/
theorem freeLimited_of_mod {limitOffset m : ℕ}
    (hlim : limitOffset ≤ r.buf.length) (hm : 0 < m) (hfit : m + r.buffered ≤ r.buf.length)
    (hmod : r.off % r.buf.length = (limitOffset + m) % r.buf.length)
    (hoff : r.endOff = 0 → r.off ≠ 0) :
    r.freeLimited limitOffset = r.buf.length - (m + r.buffered) := by
  have hstep := step_cases h.off_le hlim hm (by omega) hmod
  have hcount := buffered_eq r h
  obtain ⟨hpos, hol, hel⟩ := h
  unfold freeLimited isFull size
  by_cases hz : r.endOff = 0
  · have := hoff hz
    simp only [hz, bne_self_eq_false, Bool.false_and, Bool.false_eq_true, if_false, if_true]
      at hcount ⊢
    split_ifs <;> omega
  have hfull : (r.endOff != 0 && (r.endOff == r.off ||
      (r.endOff == r.buf.length && r.off == 0))) = false := by
    simp only [Bool.and_eq_false_iff, bne_eq_false_iff_eq, Bool.or_eq_false_iff,
      beq_eq_false_iff_ne]
    split_ifs at hcount <;> omega
  rw [hfull, if_neg (by simp), if_neg hz]
  split_ifs at hcount ⊢ <;> omega

theorem isFull_eq : r.isFull = decide (r.free = 0) := by
  obtain ⟨hpos, hoff, hend⟩ := h
  unfold isFull free
  rw [Bool.eq_iff_iff]
  simp only [Bool.and_eq_true, bne_iff_ne, Bool.or_eq_true, beq_iff_eq, decide_eq_true_eq]
  split_ifs <;> omega

end

theorem write_nil (r : ByteRing) : r.write [] = .ok (r, 0, some .ringNoData) := rfl

theorem write_full (r : ByteRing) (b : List UInt8) (hb : b ≠ []) (hfree : r.free < b.length) :
    r.write b = .ok (r, 0, some .bufferFull) := by
  have hlen : b.length ≠ 0 := by simpa using hb
  simp [write, hlen, hfree]

/-- The ring after n more bytes became readable, over new buffer contents. -/
def extend (r : ByteRing) (buf : List UInt8) (n : ℕ) : ByteRing :=
  { r with buf := buf, endOff := r.addOff r.writePos n }

section
variable (r : ByteRing)
include r

theorem extend_spec (buf : List UInt8) (n : ℕ) (h : r.WF) (hn : 0 < n)
    (hfree : n ≤ r.free) (hbuf : buf.length = r.buf.length) :
    (r.extend buf n).WF ∧ (r.extend buf n).buffered = r.buffered + n := by
  have hsum := free_add_buffered r h
  have hcount := buffered_eq r h
  have hwp := writePos_le r h
  have hend : r.addOff r.writePos n ≤ r.buf.length ∧ 0 < r.addOff r.writePos n := by
    unfold addOff size at *
    split_ifs <;> omega
  have hwf : (r.extend buf n).WF :=
    ⟨by simpa [extend, hbuf] using h.pos, by simpa [extend, hbuf] using h.off_le,
      by simpa [extend, hbuf] using hend.1⟩
  refine ⟨hwf, ?_⟩
  rw [buffered_eq _ hwf, hcount]
  have hoff := h.off_le
  have hendle := h.end_le
  simp only [extend, hbuf, size, addOff, writePos] at *
  split_ifs at * <;> omega

theorem write_ok (b : List UInt8) (h : r.WF) (hb : b ≠ []) (hfree : b.length ≤ r.free) :
    r.write b = .ok (r.extend (wrapBlit r.buf r.writePos b) b.length, b.length, none) := by
  have hlen : 0 < b.length := length_pos_of_ne_nil hb
  have hfull : r.isFull = false := by
    rw [isFull_eq r h]
    simp only [decide_eq_false_iff_not]
    omega
  have hsum := free_add_buffered r h
  obtain ⟨hpos, hoff, hend⟩ := h
  have hguard : ¬ (r.isFull ∨ r.free < b.length) := by
    rw [hfull]
    simp only [Bool.false_eq_true, false_or]
    omega
  rw [write, if_neg (by omega), if_neg hguard]
  unfold size at hsum
  by_cases hmid : 0 < r.midFree
  · -- the data wraps: the free bytes are the gap between its end and its start
    have hgap : r.endOff ≠ 0 ∧ r.endOff < r.off := by
      unfold midFree at hmid
      split_ifs at hmid <;> omega
    have hfit : r.free = r.off - r.endOff := by
      unfold free
      split_ifs <;> omega
    have hwp : r.writePos = r.endOff := by simp [writePos, hgap.1]
    have hn : min (r.off - r.endOff) b.length = b.length := by omega
    have hadd : r.addOff r.endOff b.length = r.endOff + b.length := by
      rw [addOff, if_neg (by omega)]
    simp only [hn, take_length]
    rw [if_pos hmid, if_neg (by omega), if_neg (by omega), extend, hwp, hadd,
      wrapBlit_of_fits _ _ _ (by omega)]
  rw [if_neg hmid]
  have hspace : r.writePos ≤ r.buf.length ∧ b.length ≤ r.buf.length := by
    unfold writePos
    split_ifs <;> omega
  have hstart : (if r.endOff = 0 then r.off else r.endOff) = r.writePos := rfl
  simp only [writeTail, hstart]
  rw [if_neg (by omega)]
  by_cases hwrap : r.buf.length - r.writePos < b.length
  · have hn : min (r.buf.length - r.writePos) b.length = r.buf.length - r.writePos := by omega
    have hn2 : min r.buf.length (b.length - (r.buf.length - r.writePos)) =
        b.length - (r.buf.length - r.writePos) := by omega
    have hadd : r.addOff r.writePos b.length = b.length - (r.buf.length - r.writePos) := by
      rw [addOff, if_pos (by omega)]
      omega
    have htot : r.buf.length - r.writePos + (b.length - (r.buf.length - r.writePos)) =
        b.length := by omega
    simp only [hn, hn2, htot]
    rw [if_pos hwrap, if_neg (by omega), extend, hadd, wrapBlit]
  have hn : min (r.buf.length - r.writePos) b.length = b.length := by omega
  have hadd : r.addOff r.writePos b.length = r.writePos + b.length := by
    rw [addOff, if_neg (by omega)]
  simp only [hn]
  rw [if_neg (by omega), if_neg (by omega), extend, hadd, wrapBlit_of_fits _ _ _ (by omega)]

theorem commit_ok (n : ℕ) (hn : 0 < n) (hfree : n ≤ r.free) :
    r.commit n = (r.extend r.buf n, none) := by
  rw [commit, if_neg (by omega), if_neg (by omega)]
  rfl

theorem commit_refused (n : ℕ) (h : n = 0 ∨ r.free < n) : ∃ err, r.commit n = (r, some err) := by
  by_cases hz : n = 0
  · exact ⟨_, if_pos hz⟩
  have hf : r.free < n := by omega
  rw [commit, if_neg hz, if_pos hf]
  exact ⟨_, rfl⟩

theorem peekWrite_full (b : List UInt8) (offset : ℕ)
    (hfree : r.free < offset + b.length) : r.peekWrite b offset = .ok (r, false) := by
  rw [peekWrite, if_pos hfree]

/-- Staging copies the bytes past the write position and moves no pointer. -/
theorem peekWrite_ok (b : List UInt8) (offset : ℕ) (h : r.WF) (hfree : offset + b.length ≤ r.free) :
    ∃ i, i ≤ r.buf.length ∧ i % r.buf.length = (r.writePos + offset) % r.buf.length ∧
      r.peekWrite b offset = .ok ({ r with buf := wrapBlit r.buf i b }, true) := by
  have hsum := free_add_buffered r h
  unfold size at hsum
  obtain ⟨hpos, hoff, hend⟩ := h
  have hstart : r.writeStart ≤ r.buf.length ∧
      r.writeStart % r.buf.length = r.writePos % r.buf.length := by
    unfold writeStart writePos
    split_ifs with hz hl
    · exact ⟨hoff, rfl⟩
    · exact ⟨by omega, by rw [hl]; simp⟩
    · exact ⟨hend, rfl⟩
  obtain ⟨hsl, hsm⟩ := hstart
  obtain ⟨i, hi⟩ : ∃ i, (if r.buf.length ≤ r.writeStart + offset then
      r.writeStart + offset - r.buf.length else r.writeStart + offset) = i := ⟨_, rfl⟩
  have hil : i ≤ r.buf.length := by
    rw [← hi]
    split_ifs <;> omega
  have him : i % r.buf.length = (r.writePos + offset) % r.buf.length := by
    rw [Nat.add_mod r.writePos, ← hsm, ← Nat.add_mod, ← hi]
    split_ifs with hge
    · rw [← Nat.mod_eq_sub_mod hge]
    · rfl
  refine ⟨i, hil, him, ?_⟩
  simp only [peekWrite, hi]
  rw [if_neg (by omega), if_neg (by omega)]
  by_cases hwrap : r.buf.length - i < b.length
  · have hn : min (r.buf.length - i) b.length = r.buf.length - i := by omega
    simp only [hn]
    rw [if_pos hwrap, wrapBlit]
  have hn : min (r.buf.length - i) b.length = b.length := by omega
  rw [if_neg (by omega), wrapBlit_of_fits _ _ _ (by omega)]

theorem readPeek_ok (n : ℕ) (h : r.WF) (hn : 0 < n) (hne : r.endOff ≠ 0) :
    r.readPeek n = .ok (r.readable.take n, none) := by
  have hcount := buffered_eq r h
  obtain ⟨hpos, hoff, hend⟩ := h
  rw [if_neg hne] at hcount
  have hempty : r.isEmpty = false := by simpa [isEmpty] using hne
  rw [readPeek, if_neg (by omega), hempty, if_neg (by simp)]
  by_cases hlin : r.off < r.endOff
  · rw [if_pos hlin] at hcount
    rw [if_pos hlin, if_neg (by omega), readable, span_eq_slice _ _ _ (by omega), hcount]
  rw [if_neg hlin] at hcount
  have hread : r.readable = r.buf.drop r.off ++ r.buf.take r.endOff := by
    rw [readable, span_eq_wrapped _ _ _ hoff (by omega) (by omega), hcount]
    congr 2
    omega
  rw [if_neg hlin, if_neg (by omega), hread, take_append]
  by_cases hshort : ((r.buf.drop r.off).take n).length < n
  · rw [if_pos hshort, if_neg (by omega)]
    have hlen : ((r.buf.drop r.off).take n).length = (r.buf.drop r.off).length := by
      simp only [length_take] at hshort ⊢
      omega
    rw [hlen]
  rw [if_neg hshort]
  have hzero : n - (r.buf.drop r.off).length = 0 := by
    simp only [length_take] at hshort
    omega
  rw [hzero, take_zero, append_nil]

end

def shrink (r : ByteRing) (m : ℕ) : ByteRing :=
  if m = r.buffered then r.emptied
  else { r with off := if r.addOff r.off m = r.buf.length then 0 else r.addOff r.off m }

section
variable (r : ByteRing) (m : ℕ) (h : r.WF) (hm : 0 < m) (hle : m ≤ r.buffered)
include r m h hm hle

theorem onReadEnd_ok : r.onReadEnd m = .ok (r.shrink m) := by
  have hcount := buffered_eq r h
  obtain ⟨hpos, hoff, hend⟩ := h
  have hne : r.endOff ≠ 0 := by
    intro hz
    simp [hz] at hcount
    omega
  have hend : r.addOff r.off m = r.endOff ↔ m = r.buffered := by
    unfold addOff
    split_ifs at hcount ⊢ <;> omega
  simp only [onReadEnd, shrink, hend]
  rw [if_neg (by omega)]
  split_ifs <;> rfl

theorem shrink_spec : (r.shrink m).WF ∧ (r.shrink m).buf = r.buf ∧ (r.shrink m).off < r.buf.length ∧
      (r.shrink m).buffered = r.buffered - m ∧
      (r.shrink m).off % r.buf.length = (r.off + m) % r.buf.length := by
  have hcount := buffered_eq r h
  have hmod := writePos_mod r h
  obtain ⟨hpos, hoff, hend⟩ := h
  have hne : r.endOff ≠ 0 := by
    intro hz
    simp [hz] at hcount
    omega
  have hadd : r.addOff r.off m % r.buf.length = (r.off + m) % r.buf.length := by
    unfold addOff
    split_ifs with hgt
    · rw [← Nat.mod_eq_sub_mod (by omega)]
    · rfl
  by_cases hall : m = r.buffered
  · have hs : r.shrink m = r.emptied := by simp [shrink, hall]
    rw [hs]
    have hwf : r.emptied.WF := by
      refine ⟨hpos, ?_, Nat.zero_le _⟩
      simp only [emptied]
      split_ifs <;> omega
    refine ⟨hwf, rfl, ?_, ?_, ?_⟩
    · simp only [emptied]
      split_ifs <;> omega
    · rw [buffered_eq _ hwf]
      simp only [emptied, if_true]
      omega
    rw [hall, ← hmod]
    simp only [emptied, writePos, if_neg hne]
    split_ifs with hl
    · rw [hl]
      simp
    · rfl
  have hs : r.shrink m =
      { r with off := if r.addOff r.off m = r.buf.length then 0 else r.addOff r.off m } := by
    simp [shrink, hall]
  have hlt : (if r.addOff r.off m = r.buf.length then 0 else r.addOff r.off m) <
      r.buf.length := by
    unfold addOff
    split_ifs at hcount ⊢ <;> omega
  have hwf : (r.shrink m).WF := by
    rw [hs]
    exact ⟨hpos, le_of_lt hlt, hend⟩
  refine ⟨hwf, by rw [hs], by rw [hs]; exact hlt, ?_, ?_⟩
  · rw [buffered_eq _ hwf, hs]
    simp only [addOff] at *
    split_ifs at hcount ⊢ <;> omega
  rw [← hadd, hs]
  split_ifs with hl
  · rw [hl]
    simp
  · rfl

end

theorem read_ok (r : ByteRing) (n : ℕ) (h : r.WF) (hn : 0 < n) (hne : r.endOff ≠ 0) :
    r.read n = .ok (r.shrink (min n r.buffered), r.readable.take n, none) := by
  have hpos : 0 < r.buffered := by
    have hz := buffered_eq_zero_iff r h
    omega
  have hlen : (r.readable.take n).length = min n r.buffered := by simp
  rw [read, readPeek_ok r n h hn hne]
  simp only [hlen]
  rw [if_neg (by omega), onReadEnd_ok r _ h (by omega) (by omega)]

theorem read_empty (r : ByteRing) (n : ℕ) (hn : 0 < n) (he : r.endOff = 0) :
    r.read n = .ok (r, [], some .eof) := by
  have hempty : r.isEmpty := by simp [isEmpty, he]
  rw [read, readPeek, if_neg (by omega), if_pos hempty]

end ByteRing

end Lneto.InternalRing
