import Lneto.InternalRing
import Lneto.StagedQueues
import Lneto.GuardedRuns
import Mathlib.Tactic.Common

/-!
The byte ring as a bounded queue with staged data. Its readable bytes are the
data of the queue and its remaining cells, from the write position on, the room.
Arguments of type int are integers here; sums of them are 64 bits wide.
-/
namespace Lneto.RingQueue

open Segments CircularBuffers InternalRing StagedQueues GuardedRuns

variable {q q' : Queue UInt8} {b : List UInt8} {fits : Prop}

inductive RingErr where
  | err (e : Err)
  | unexpectedEOF
  | invalidDiscard
  | discardExceeds
deriving DecidableEq, Repr

def int64 (x : ℤ) : ℤ := x.bmod (2 ^ 64)

theorem int64_of_lt {x : ℤ} (h0 : 0 ≤ x) (h : x < 2 ^ 63) : int64 x = x := by
  unfold int64
  rw [Int.bmod_eq_of_le (by omega) (by omega)]

end Lneto.RingQueue

namespace Lneto.InternalRing.ByteRing

open Segments CircularBuffers RingQueue

def writeString (r : ByteRing) (s : List UInt8) : Except Panic (ByteRing × ℕ × Option Err) :=
  r.write s

/-- The room up to a limit given as an int. -/
def freeLimitedInt (r : ByteRing) (limitOffset : ℤ) : ℤ :=
  if r.isFull then 0
  else if r.endOff = 0 then
    if r.off ≤ limitOffset then limitOffset - r.off else r.size - r.off + limitOffset
  else if r.endOff ≤ limitOffset ∧ r.endOff ≤ r.off then min (r.off : ℤ) limitOffset - r.endOff
  else if r.endOff ≤ limitOffset then limitOffset - r.endOff
  else if r.endOff ≤ r.off then r.off - r.endOff
  else r.size - r.endOff + min limitOffset r.off

def writeLimitedInt (r : ByteRing) (b : List UInt8) (limitOffset : ℤ) :
    Except Panic (ByteRing × ℕ × Option Err) :=
  if r.buf.length < limitOffset then .error .badLimitOffset
  else if r.buf.length < b.length then .ok (r, 0, some .ioShortBuffer)
  else if r.freeLimitedInt limitOffset < b.length then .ok (r, 0, some .bufferFull)
  else r.write b

def peekWriteInt (r : ByteRing) (b : List UInt8) (offset : ℤ) : Except Panic (ByteRing × Bool) :=
  if offset < 0 ∨ r.free < int64 (offset + b.length) then .ok (r, false)
  else
    let start := int64 (r.writeStart + offset)
    let off := if r.buf.length ≤ start then start - r.buf.length else start
    if off < 0 ∨ r.buf.length < off then .error .sliceBounds
    else
      let n := min (r.buf.length - off.toNat) b.length
      if n < b.length then
        .ok ({ r with buf := blit (blit r.buf off.toNat b) 0 (b.drop n) }, true)
      else .ok ({ r with buf := blit r.buf off.toNat b }, true)

def readDiscard (r : ByteRing) (n : ℤ) : ByteRing × Option RingErr :=
  if n ≤ 0 then (r, some .invalidDiscard)
  else if r.buffered < n then (r, some .discardExceeds)
  else if n = r.buffered then (r.emptied, none)
  else if r.buf.length < n + r.off then
    ({ r with off := n.toNat - (r.buf.length - r.off) }, none)
  else ({ r with off := r.off + n.toNat }, none)

/-- Read n bytes at an offset from the start of the data; a copy of the ring with its
start moved is read. -/
def readAt (r : ByteRing) (n : ℕ) (off : ℤ) : Except Panic (List UInt8 × Option RingErr) :=
  if r.buffered < int64 (off + n) then .ok ([], some .unexpectedEOF)
  else
    let result := int64 (r.off + off)
    let newOff := if r.buf.length < result then result - r.buf.length else result
    if newOff < 0 then
      if n = 0 then .ok ([], none)
      else if r.isEmpty then .ok ([], some (.err .eof))
      else .error .sliceBounds
    else
      (({ r with off := newOff.toNat } : ByteRing).readPeek n).map fun out =>
        (out.1, out.2.map .err)

section
variable (r : ByteRing)
include r

theorem writeStart_le (h : r.WF) : r.writeStart ≤ r.buf.length := by
  have hoff := h.off_le
  have hend := h.end_le
  unfold writeStart
  split_ifs <;> omega

theorem free_le (h : r.WF) : r.free ≤ r.buf.length := by
  have hsum := free_add_buffered r h
  unfold size at hsum
  omega

theorem peekWriteInt_natCast (h : r.WF) (hsize : r.buf.length < 2 ^ 62)
    (b : List UInt8) (offset : ℕ) (hsum : offset + b.length < 2 ^ 63) :
    r.peekWriteInt b offset = r.peekWrite b offset := by
  have hstart := writeStart_le r h
  have hfree := free_le r h
  unfold peekWriteInt peekWrite
  rw [show (offset : ℤ) + b.length = (offset + b.length : ℕ) by push_cast; rfl,
    int64_of_lt (by omega) (by exact_mod_cast hsum)]
  by_cases hfull : r.free < offset + b.length
  · rw [if_pos (by omega), if_pos hfull]
  rw [if_neg (by omega), if_neg hfull]
  rw [show (r.writeStart : ℤ) + offset = (r.writeStart + offset : ℕ) by push_cast; rfl,
    int64_of_lt (by omega) (by omega)]
  have hwrap : (if (r.buf.length : ℤ) ≤ (r.writeStart + offset : ℕ) then
        ((r.writeStart + offset : ℕ) : ℤ) - r.buf.length else (r.writeStart + offset : ℕ)) =
      ((if r.buf.length ≤ r.writeStart + offset then r.writeStart + offset - r.buf.length
        else r.writeStart + offset : ℕ) : ℤ) := by
    split_ifs <;> omega
  simp only [hwrap, Int.toNat_natCast]
  by_cases hbound : r.buf.length < if r.buf.length ≤ r.writeStart + offset then
      r.writeStart + offset - r.buf.length else r.writeStart + offset
  · rw [if_pos (by omega), if_pos hbound]
  · rw [if_neg (by omega), if_neg hbound]

theorem writeLimitedInt_natCast (h : r.WF) (b : List UInt8) (limitOffset : ℕ) :
    r.writeLimitedInt b limitOffset = r.writeLimited b limitOffset := by
  have hoff := h.off_le
  have hend := h.end_le
  have hfree : r.freeLimitedInt limitOffset = r.freeLimited limitOffset := by
    unfold freeLimitedInt freeLimited size
    split_ifs <;> omega
  simp only [writeLimitedInt, writeLimited, hfree, Nat.cast_lt]

/-- The start of the data moves on by less than all of it, to one of the two names of
its new position. -/
theorem advance_spec (h : r.WF) {newOff k : ℕ} (hle : newOff ≤ r.buf.length)
    (hmod : newOff % r.buf.length = (r.off + k) % r.buf.length) (hk : k < r.buffered) :
    ({ r with off := newOff } : ByteRing).WF ∧
      ({ r with off := newOff } : ByteRing).buffered = r.buffered - k ∧
      ({ r with off := newOff } : ByteRing).readable = r.readable.drop k := by
  have hne : r.endOff ≠ 0 := by
    have hz := buffered_eq_zero_iff r h
    omega
  have hwf : ({ r with off := newOff } : ByteRing).WF := ⟨h.pos, hle, h.end_le⟩
  have hfree := free_add_buffered r h
  have hend := writePos_mod r h
  rw [writePos, if_neg hne] at hend
  unfold size at hfree
  have hleft : ({ r with off := newOff } : ByteRing).buffered = r.buffered - k := by
    refine buffered_of_mod _ hwf hne (by omega) (show _ ≤ r.buf.length by omega) ?_
    rw [show r.off + r.buffered = r.off + k + (r.buffered - k) by omega] at hend
    exact hend.trans (add_mod_congr hmod _).symm
  refine ⟨hwf, hleft, ?_⟩
  rw [readable, readable, hleft, drop_span _ _ _ _ (by omega)]
  exact span_congr_mod _ _ hmod

theorem readAt_ok (h : r.WF) (hsize : r.buf.length < 2 ^ 62) (n off : ℕ)
    (hsum : off + n < 2 ^ 63) : r.readAt n off =
      if off + n ≤ r.buffered then .ok ((r.readable.drop off).take n, none)
      else .ok ([], some .unexpectedEOF) := by
  have hoff := h.off_le
  unfold readAt
  rw [show (off : ℤ) + n = (off + n : ℕ) by push_cast; rfl,
    int64_of_lt (by omega) (by exact_mod_cast hsum)]
  by_cases hlong : r.buffered < off + n
  · rw [if_pos (by omega), if_neg (by omega)]
  rw [if_neg (by omega), if_pos (show off + n ≤ r.buffered by omega)]
  have hfree := free_add_buffered r h
  unfold size at hfree
  rw [show (r.off : ℤ) + off = (r.off + off : ℕ) by push_cast; rfl,
    int64_of_lt (by omega) (by omega)]
  have hwrap : (if (r.buf.length : ℤ) < (r.off + off : ℕ) then
        ((r.off + off : ℕ) : ℤ) - r.buf.length else (r.off + off : ℕ)) =
      (r.addOff r.off off : ℤ) := by
    unfold addOff
    split_ifs <;> omega
  simp only [hwrap, Int.toNat_natCast]
  by_cases hn : n = 0
  · subst hn
    simp [readPeek, Except.map]
  have hle : r.addOff r.off off ≤ r.buf.length := by
    unfold addOff
    split_ifs <;> omega
  have hmod : r.addOff r.off off % r.buf.length = (r.off + off) % r.buf.length := by
    unfold addOff
    split_ifs with hgt
    · rw [← Nat.mod_eq_sub_mod (by omega)]
    · rfl
  have hne : r.endOff ≠ 0 := by
    have hz := buffered_eq_zero_iff r h
    omega
  obtain ⟨hwf, -, hread⟩ := advance_spec r h hle hmod (by omega)
  rw [readPeek_ok _ n hwf (by omega) hne, hread]
  rfl

end

end Lneto.InternalRing.ByteRing

namespace Lneto.RingQueue

open Segments CircularBuffers InternalRing ByteRing StagedQueues GuardedRuns

def view (r : ByteRing) : Queue UInt8 :=
  { data := r.readable, room := span r.buf r.writePos r.free }

@[simp] theorem length_data (r : ByteRing) : (view r).data.length = r.buffered := by
  simp [view]

@[simp] theorem length_room (r : ByteRing) : (view r).room.length = r.free := by
  simp [view]

theorem room_eq (r : ByteRing) (h : r.WF) :
    (view r).room = span r.buf (r.off + r.buffered) r.free :=
  span_congr_mod _ _ (writePos_mod r h)

theorem view_pop {r r' : ByteRing} {k : ℕ} (h : r.WF) (h' : r'.WF) (hbuf : r'.buf = r.buf)
    (hk : k ≤ r.buffered) (hcount : r'.buffered = r.buffered - k)
    (hmod : r'.off % r.buf.length = (r.off + k) % r.buf.length) : view r' = (view r).pop k := by
  have hsum := free_add_buffered r h
  have hsum' := free_add_buffered r' h'
  unfold size at hsum hsum'
  rw [hbuf] at hsum'
  ext1
  · rw [view, readable, hcount, hbuf, span_congr_mod _ _ hmod, Queue.pop, view, readable,
      drop_span _ _ _ _ hk]
  have hlap : (r'.off + r'.buffered) % r.buf.length = (r.off + r.buffered) % r.buf.length := by
    rw [add_mod_congr hmod, hcount]
    congr 1
    omega
  have hback : (r.off + r.buffered + r.free) % r.buf.length = r.off % r.buf.length := by
    rw [show r.off + r.buffered + r.free = r.off + r.buf.length by omega, Nat.add_mod_right]
  rw [room_eq r' h', hbuf, span_congr_mod _ _ hlap, Queue.pop, room_eq r h,
    show r'.free = r.free + k by omega, span_add, span_congr_mod _ _ hback, view, readable,
    take_span, Nat.min_eq_left hk]

section
variable (r : ByteRing) (h : r.WF)
include r h

theorem view_reveal {n : ℕ} (hn : 0 < n) (hfree : n ≤ r.free) :
    view (r.extend r.buf n) = (view r).reveal n := by
  obtain ⟨hwf, hcount⟩ := extend_spec r r.buf n h hn hfree rfl
  have hsum := free_add_buffered r h
  have hsum' := free_add_buffered _ hwf
  have hfree' : (r.extend r.buf n).free = r.free - n := by
    simp only [size, extend] at hsum hsum' hcount ⊢
    omega
  ext1
  · rw [view, readable, hcount, Queue.reveal, room_eq r h, take_span, Nat.min_eq_left hfree]
    exact span_add _ _ _ _
  · rw [room_eq _ hwf, hcount, hfree', Queue.reveal, room_eq r h, drop_span _ _ _ _ hfree]
    exact congrArg (span r.buf · _) (Nat.add_assoc _ _ _).symm

theorem view_stage {offset i : ℕ} (hfree : offset + b.length ≤ r.free)
    (hi : i ≤ r.buf.length) (hmod : i % r.buf.length = (r.writePos + offset) % r.buf.length) :
    view { r with buf := wrapBlit r.buf i b } = (view r).stage b offset := by
  have hsum := free_add_buffered r h
  unfold size at hsum
  have hlen : (wrapBlit r.buf i b).length = r.buf.length := length_wrapBlit _ _ _ hi
  have hfree' : ({ r with buf := wrapBlit r.buf i b } : ByteRing).free = r.free := by
    simp only [free, hlen]
  have hbuffered : ({ r with buf := wrapBlit r.buf i b } : ByteRing).buffered = r.buffered := by
    simp only [buffered, hfree', size, hlen]
  -- a cell is hit or not, depending on its distance j from where the copy starts
  have hhit : ∀ p j, p % r.buf.length = (i + j) % r.buf.length → j < b.length →
      cell (wrapBlit r.buf i b) p = (b[j]?).getD default := by
    intro p j hp hj
    rw [← cell_wrapBlit_inside r.buf i j b hi (by omega) hj]
    exact cell_congr_mod _ (by rw [hlen]; exact hp)
  have hmiss : ∀ p j, p % r.buf.length = (i + j) % r.buf.length → b.length ≤ j →
      j < r.buf.length → cell (wrapBlit r.buf i b) p = cell r.buf p := by
    intro p j hp hj hjl
    rw [cell_congr_mod r.buf hp, ← cell_wrapBlit_outside r.buf i j b hi hj hjl]
    exact cell_congr_mod _ (by rw [hlen]; exact hp)
  ext1
  · rw [view, readable, hbuffered]
    refine span_congr _ _ _ _ _ fun k hk => hmiss _ (k + r.free - offset) ?_ (by omega) (by omega)
    rw [add_mod_congr hmod, show r.writePos + offset + (k + r.free - offset) =
      r.writePos + (k + r.free) by omega, add_mod_congr (writePos_mod r h),
      show r.off + r.buffered + (k + r.free) = r.off + k + r.buf.length by omega,
      Nat.add_mod_right]
  have hroom : (view r).room.length = r.free := length_room r
  have hblit : (blit (view r).room offset b).length = r.free := by
    rw [length_blit _ _ _ (by omega), hroom]
  apply List.ext_getElem?
  intro k
  by_cases hk : k < r.free
  · rw [view, hfree', getElem?_span _ _ _ _ hk, Queue.stage]
    change some (cell (wrapBlit r.buf i b) (r.writePos + k)) = (blit (view r).room offset b)[k]?
    by_cases hin : offset ≤ k ∧ k < offset + b.length
    · rw [hhit _ (k - offset) ?_ (by omega)]
      · have hget := getElem?_blit_inside (view r).room offset (k - offset) b (by omega) (by omega)
        rw [show offset + (k - offset) = k by omega] at hget
        rw [hget, List.getElem?_eq_getElem (by omega)]
        rfl
      rw [add_mod_congr hmod]
      congr 1
      omega
    rw [getElem?_blit_outside _ _ _ _ (by omega) (by omega), view, getElem?_span _ _ _ _ hk]
    congr 1
    by_cases hbefore : k < offset
    · refine hmiss _ (k + r.buf.length - offset) ?_ (by omega) (by omega)
      rw [add_mod_congr hmod, show r.writePos + offset + (k + r.buf.length - offset) =
        r.writePos + k + r.buf.length by omega, Nat.add_mod_right]
    refine hmiss _ (k - offset) ?_ (by omega) (by omega)
    rw [add_mod_congr hmod]
    congr 1
    omega
  · rw [List.getElem?_eq_none (by rw [length_room, hfree']; omega),
      List.getElem?_eq_none (by rw [Queue.stage, hblit]; omega)]

theorem view_push (hb : b ≠ []) (hfree : b.length ≤ r.free) :
    view (r.extend (wrapBlit r.buf r.writePos b) b.length) = (view r).push b := by
  have hwp := writePos_le r h
  have hlen : (wrapBlit r.buf r.writePos b).length = r.buf.length := length_wrapBlit _ _ _ hwp
  have hstaged := view_stage r h (show 0 + b.length ≤ r.free by omega) hwp rfl
  have hwf : ({ r with buf := wrapBlit r.buf r.writePos b } : ByteRing).WF :=
    ⟨by rw [hlen]; exact h.pos, by rw [hlen]; exact h.off_le, by rw [hlen]; exact h.end_le⟩
  have hfree' : ({ r with buf := wrapBlit r.buf r.writePos b } : ByteRing).free = r.free := by
    simp only [free, hlen]
  rw [← Queue.reveal_stage_zero _ _ (by rw [length_room]; exact hfree), ← hstaged,
    ← view_reveal _ hwf (List.length_pos_of_ne_nil hb) (by omega)]
  simp only [extend, addOff, hlen]
  rfl

theorem readDiscard_ok {n : ℤ} (hn : 0 < n) (hle : n ≤ r.buffered) :
    (r.readDiscard n).2 = none ∧ (r.readDiscard n).1.WF ∧ (r.readDiscard n).1.buf = r.buf ∧
      view (r.readDiscard n).1 = (view r).pop n.toNat := by
  have hoff := h.off_le
  have hfree := free_add_buffered r h
  unfold size at hfree
  obtain ⟨k, rfl⟩ : ∃ k : ℕ, (k : ℤ) = n := ⟨n.toNat, by omega⟩
  rw [readDiscard, if_neg (by omega), if_neg (by omega)]
  by_cases hall : (k : ℤ) = r.buffered
  · rw [if_pos hall]
    obtain ⟨hwf, hbuf, -, hcount, hmod⟩ := shrink_spec r k h (by omega) (by omega)
    have hshrink : r.shrink k = r.emptied := if_pos (by omega)
    rw [hshrink] at hwf hbuf hcount hmod
    exact ⟨rfl, hwf, rfl, view_pop h hwf hbuf (by omega) hcount hmod⟩
  rw [if_neg hall, Int.toNat_natCast]
  by_cases hwrap : (r.buf.length : ℤ) < k + r.off
  · rw [if_pos hwrap]
    have hmod : (k - (r.buf.length - r.off)) % r.buf.length = (r.off + k) % r.buf.length := by
      rw [Nat.mod_eq_sub_mod (show r.buf.length ≤ r.off + k by omega)]
      congr 1
      omega
    obtain ⟨hwf, hcount, -⟩ := advance_spec r h (show _ ≤ r.buf.length by omega) hmod (by omega)
    exact ⟨rfl, hwf, rfl, view_pop h hwf rfl (by omega) hcount hmod⟩
  rw [if_neg hwrap]
  obtain ⟨hwf, hcount, -⟩ := advance_spec r h (show r.off + k ≤ r.buf.length by omega) rfl
    (by omega)
  exact ⟨rfl, hwf, rfl, view_pop h hwf rfl (by omega) hcount rfl⟩

end

inductive Op where
  | write (b : List UInt8)
  | writeString (s : List UInt8)
  | writeLimited (b : List UInt8) (limitOffset : ℤ)
  | read (n : ℕ)
  | readPeek (n : ℕ)
  | readAt (n : ℕ) (off : ℤ)
  | readDiscard (n : ℤ)
  | peekWrite (b : List UInt8) (offset : ℤ)
  | commit (n : ℤ)
  | reset
deriving DecidableEq, Repr

structure Reply where
  count : ℕ := 0
  bytes : List UInt8 := []
  staged : Bool := false
  err : Option RingErr := none
deriving DecidableEq, Repr

variable {a : Reply}

def wrote (out : ByteRing × ℕ × Option Err) : ByteRing × Reply :=
  (out.1, { count := out.2.1, err := out.2.2.map .err })

/-- A commit of a negative number is refused like one of zero. -/
def call (r : ByteRing) : Op → Except Panic (ByteRing × Reply)
  | .write b => (r.write b).map wrote
  | .writeString s => (r.writeString s).map wrote
  | .writeLimited b limitOffset => (r.writeLimitedInt b limitOffset).map wrote
  | .read n => (r.read n).map fun out =>
      (out.1, { count := out.2.1.length, bytes := out.2.1, err := out.2.2.map .err })
  | .readPeek n => (r.readPeek n).map fun out =>
      (r, { count := out.1.length, bytes := out.1, err := out.2.map .err })
  | .readAt n off => (r.readAt n off).map fun out =>
      (r, { count := out.1.length, bytes := out.1, err := out.2 })
  | .readDiscard n => .ok ((r.readDiscard n).1, { err := (r.readDiscard n).2 })
  | .peekWrite b offset => (r.peekWriteInt b offset).map fun out => (out.1, { staged := out.2 })
  | .commit n => .ok ((r.commit n.toNat).1, { err := (r.commit n.toNat).2.map .err })
  | .reset => .ok (r.reset, {})

def step (r : ByteRing) (op : Op) : Except Panic ByteRing := (call r op).map Prod.fst

/-- The queue goes from q to q' and answers a, or leaves q as it is and answers with an
error. -/
def Takes (q q' : Queue UInt8) (a : Reply) (fits : Prop) [Decidable fits] (taken : Queue UInt8) :
    Prop :=
  if fits then q' = taken ∧ a.err = none else q' = q ∧ a.err ≠ none

theorem takes_of_fits {taken : Queue UInt8} [Decidable fits] (hfits : fits) (hq : q' = taken)
    (herr : a.err = none) : Takes q q' a fits taken := by
  rw [Takes, if_pos hfits]
  exact ⟨hq, herr⟩

theorem takes_of_not {taken : Queue UInt8} [Decidable fits] (hfits : ¬ fits) (hq : q' = q)
    (herr : a.err ≠ none) : Takes q q' a fits taken := by
  rw [Takes, if_neg hfits]
  exact ⟨hq, herr⟩

def Follows (q : Queue UInt8) (op : Op) (a : Reply) (q' : Queue UInt8) : Prop :=
  match op with
  | .write b | .writeString b =>
    Takes q q' a (0 < b.length ∧ b.length ≤ q.room.length) (q.push b) ∧
      a.count = if a.err = none then b.length else 0
  | .writeLimited b _ =>
    Takes q q' a (a.err = none) (q.push b) ∧
      (a.err = none → 0 < b.length ∧ b.length ≤ q.room.length) ∧
      a.count = if a.err = none then b.length else 0
  | .read n => a.bytes = q.data.take n ∧ q' = q.pop n ∧ (a.err = none ↔ n = 0 ∨ q.data ≠ [])
  | .readPeek n => a.bytes = q.data.take n ∧ q' = q ∧ (a.err = none ↔ n = 0 ∨ q.data ≠ [])
  | .readAt n off =>
    Takes q q' a (off + n ≤ q.data.length) q ∧
      a.bytes = if a.err = none then (q.data.drop off.toNat).take n else []
  | .readDiscard n => Takes q q' a (0 < n ∧ n ≤ q.data.length) (q.pop n.toNat)
  | .peekWrite b offset =>
    a.staged = decide (0 ≤ offset ∧ offset + b.length ≤ q.room.length) ∧
      q' = if a.staged then q.stage b offset.toNat else q
  | .commit n => Takes q q' a (0 < n ∧ n ≤ q.room.length) (q.reveal n.toNat)
  | .reset => q'.data = [] ∧ q'.room.length = q.data.length + q.room.length

/-- Limits lie in the buffer, an offset to read at is not negative, and no sum of an
offset and a length overflows. -/
def Representable (r : ByteRing) : Op → Prop
  | .writeLimited _ limitOffset => limitOffset ≤ r.size
  | .readAt n off => 0 ≤ off ∧ off + n < 2 ^ 63
  | .peekWrite b offset => offset + b.length < 2 ^ 63
  | _ => True

/-- No discard of part of the data stops at the end of the buffer. -/
def Inside (r : ByteRing) : Op → Prop
  | .readDiscard n => r.off + n = r.size → r.buffered ≤ n
  | _ => True

/-- A call is answered as the queue would, and the ring stays well formed. -/
structure Refines (r : ByteRing) (op : Op) (r' : ByteRing) (a : Reply) : Prop where
  wf : r'.WF
  size_eq : r'.size = r.size
  follows : Follows (view r) op a (view r')
  off_lt : r.off < r.size → Inside r op → r'.off < r'.size

section
variable (r : ByteRing) (h : r.WF)
include r h

theorem write_cases (b : List UInt8) :
    (∃ r', (0 < b.length ∧ b.length ≤ r.free) ∧ r.write b = .ok (r', b.length, none) ∧ r'.WF ∧
      r'.size = r.size ∧ r'.off = r.off ∧ view r' = (view r).push b) ∨
    (¬ (0 < b.length ∧ b.length ≤ r.free) ∧ ∃ err, r.write b = .ok (r, 0, some err)) := by
  by_cases hb : b = []
  · subst hb
    exact .inr ⟨by simp, _, write_nil r⟩
  have hpos := List.length_pos_of_ne_nil hb
  by_cases hfree : b.length ≤ r.free
  · have hlen := length_wrapBlit r.buf r.writePos b (writePos_le r h)
    exact .inl ⟨_, ⟨hpos, hfree⟩, write_ok r b h hb hfree,
      (extend_spec r _ _ h hpos hfree hlen).1, hlen, rfl, view_push r h hb hfree⟩
  · exact .inr ⟨fun hfit => hfree hfit.2, _, write_full r b hb (by omega)⟩

theorem refines_write (b : List UInt8) :
    ∃ out, r.write b = .ok out ∧ Refines r (.write b) (wrote out).1 (wrote out).2 := by
  rcases write_cases r h b with ⟨r', hfit, hrun, hwf, hsize, hoff, hview⟩ | ⟨hfit, err, hrun⟩
  · refine ⟨_, hrun, hwf, hsize, ?_, fun hlt _ => ?_⟩
    · exact ⟨takes_of_fits (by rw [length_room]; exact hfit) hview rfl, rfl⟩
    · simp only [wrote, hoff, hsize]
      exact hlt
  · refine ⟨_, hrun, h, rfl, ?_, fun hlt _ => hlt⟩
    exact ⟨takes_of_not (by rw [length_room]; exact hfit) rfl (by simp [wrote]), rfl⟩

theorem refines_writeLimited (b : List UInt8) (limitOffset : ℤ)
    (hlimit : limitOffset ≤ r.size) : ∃ out, r.writeLimitedInt b limitOffset = .ok out ∧
      Refines r (.writeLimited b limitOffset) (wrote out).1 (wrote out).2 := by
  have hrefused : ∀ err, Refines r (.writeLimited b limitOffset) (wrote (r, 0, some err)).1
      (wrote (r, 0, some err)).2 := fun err =>
    ⟨h, rfl, ⟨takes_of_not (by simp [wrote]) rfl (by simp [wrote]), by simp [wrote], rfl⟩,
      fun hlt _ => hlt⟩
  unfold writeLimitedInt
  unfold size at hlimit
  rw [if_neg (by omega)]
  split_ifs
  · exact ⟨_, rfl, hrefused _⟩
  · exact ⟨_, rfl, hrefused _⟩
  rcases write_cases r h b with ⟨r', hfit, hrun, hwf, hsize, hoff, hview⟩ | ⟨-, err, hrun⟩
  · refine ⟨_, hrun, hwf, hsize, ?_, fun hlt _ => ?_⟩
    · exact ⟨takes_of_fits rfl hview rfl, fun _ => by rw [length_room]; exact hfit, rfl⟩
    · simp only [wrote, hoff, hsize]
      exact hlt
  · exact ⟨_, hrun, hrefused err⟩

theorem data_ne_nil : (view r).data ≠ [] ↔ r.endOff ≠ 0 := by
  have hz := buffered_eq_zero_iff r h
  rw [← List.length_pos_iff_ne_nil, length_data]
  omega

theorem peek_cases (n : ℕ) : ∃ err, r.readPeek n = .ok ((view r).data.take n, err) ∧
      (err = none ↔ n = 0 ∨ (view r).data ≠ []) := by
  rw [data_ne_nil r h]
  by_cases hn : n = 0
  · subst hn
    exact ⟨none, by simp [readPeek], by simp⟩
  by_cases hz : r.endOff = 0
  · have hnil : (view r).data = [] := by
      by_contra hne
      exact (data_ne_nil r h).1 hne hz
    refine ⟨some .eof, ?_, by simp [hn, hz]⟩
    rw [hnil]
    simp [readPeek, hn, isEmpty, hz]
  · exact ⟨none, readPeek_ok r n h (by omega) hz, by simp [hz]⟩

theorem refines_read (n : ℕ) :
    ∃ r' a, call r (.read n) = .ok (r', a) ∧ Refines r (.read n) r' a := by
  by_cases hn : n = 0
  · subst hn
    exact ⟨r, {}, rfl, h, rfl, by simp [Follows, Queue.pop], fun hlt _ => hlt⟩
  by_cases hz : r.endOff = 0
  · have hnil : (view r).data = [] := by
      by_contra hne
      exact (data_ne_nil r h).1 hne hz
    refine ⟨r, { err := some (.err .eof) }, ?_, h, rfl, ?_, fun hlt _ => hlt⟩
    · simp only [call, read_empty r n (by omega) hz]
      rfl
    · simp [Follows, hnil, hn, Queue.pop_nil]
  have hcount := buffered_eq_zero_iff r h
  obtain ⟨hwf, hbuf, hlt, hleft, hmod⟩ := shrink_spec r (min n r.buffered) h (by omega) (by omega)
  have hview := view_pop h hwf hbuf (by omega) hleft hmod
  rw [← length_data, Queue.pop_min] at hview
  have hrun : call r (.read n) = .ok (r.shrink (min n r.buffered),
      { count := (r.readable.take n).length, bytes := r.readable.take n }) := by
    simp only [call, read_ok r n h (by omega) hz]
    rfl
  refine ⟨_, _, hrun, hwf, by rw [size, hbuf, size], ?_, fun _ _ => ?_⟩
  · exact ⟨rfl, by rw [← hview, length_data], by simp [(data_ne_nil r h).2 hz]⟩
  · rw [size, hbuf]
    exact hlt

theorem refines_readAt (hsize : r.size < 2 ^ 62) (n : ℕ) (off : ℤ)
    (hoff : 0 ≤ off) (hsum : off + n < 2 ^ 63) :
    ∃ r' a, call r (.readAt n off) = .ok (r', a) ∧ Refines r (.readAt n off) r' a := by
  obtain ⟨k, rfl⟩ : ∃ k : ℕ, (k : ℤ) = off := ⟨off.toNat, by omega⟩
  have hread := readAt_ok r h hsize n k (by omega)
  by_cases hfit : k + n ≤ r.buffered
  · rw [if_pos hfit] at hread
    refine ⟨r, _, by rw [call, hread]; rfl, h, rfl, ?_, fun hlt _ => hlt⟩
    exact ⟨takes_of_fits (by rw [length_data]; omega) rfl rfl, rfl⟩
  rw [if_neg hfit] at hread
  refine ⟨r, _, by rw [call, hread]; rfl, h, rfl, ?_, fun hlt _ => hlt⟩
  exact ⟨takes_of_not (by rw [length_data]; omega) rfl (by simp), rfl⟩

theorem refines_readDiscard (n : ℤ) :
    Refines r (.readDiscard n) (r.readDiscard n).1 { err := (r.readDiscard n).2 } := by
  by_cases hfit : 0 < n ∧ n ≤ r.buffered
  · obtain ⟨herr, hwf, hbuf, hview⟩ := readDiscard_ok r h hfit.1 hfit.2
    refine ⟨hwf, by rw [size, hbuf, size], ?_, fun hlt hin => ?_⟩
    · exact takes_of_fits (by rw [length_data]; exact hfit) hview herr
    -- only the last branch can reach the end of the buffer
    have hpos := h.pos
    have hfree := free_add_buffered r h
    simp only [Inside, size] at hin hlt hfree
    rw [size, hbuf, readDiscard, if_neg (by omega), if_neg (by omega)]
    split_ifs with hall hwrap
    · simp only [emptied]
      have hend := h.end_le
      split_ifs <;> omega
    · dsimp only
      omega
    · dsimp only
      omega
  have hsame : (r.readDiscard n).1 = r ∧ (r.readDiscard n).2 ≠ none := by
    unfold readDiscard
    split_ifs <;> first | exact ⟨rfl, by simp⟩ | omega
  rw [hsame.1]
  refine ⟨h, rfl, ?_, fun hlt _ => hlt⟩
  exact takes_of_not (by rw [length_data]; exact hfit) rfl hsame.2

theorem refines_peekWrite (hsize : r.size < 2 ^ 62) (b : List UInt8)
    (offset : ℤ) (hsum : offset + b.length < 2 ^ 63) :
    ∃ r' a, call r (.peekWrite b offset) = .ok (r', a) ∧ Refines r (.peekWrite b offset) r' a := by
  by_cases hneg : offset < 0
  · refine ⟨r, _, by rw [call, peekWriteInt, if_pos (.inl hneg)]; rfl, h, rfl, ?_, fun hlt _ => hlt⟩
    simp [Follows, not_le.2 hneg]
  obtain ⟨k, rfl⟩ : ∃ k : ℕ, (k : ℤ) = offset := ⟨offset.toNat, by omega⟩
  have hcast := peekWriteInt_natCast r h hsize b k (by omega)
  by_cases hfull : r.free < k + b.length
  · refine ⟨r, _, by rw [call, hcast, peekWrite_full r b k hfull]; rfl, h, rfl, ?_,
      fun hlt _ => hlt⟩
    have hno : ¬ ((k : ℤ) + b.length ≤ r.free) := by omega
    simp [Follows, hno]
  obtain ⟨i, hi, hmod, hrun⟩ := peekWrite_ok r b k h (by omega)
  have hlen := length_wrapBlit r.buf i b hi
  refine ⟨{ r with buf := wrapBlit r.buf i b }, { staged := true },
    by rw [call, hcast, hrun]; rfl, ?_, hlen, ?_, fun hlt _ => ?_⟩
  · exact ⟨by rw [hlen]; exact h.pos, by rw [hlen]; exact h.off_le, by rw [hlen]; exact h.end_le⟩
  · have hyes : (k : ℤ) + b.length ≤ r.free := by omega
    have hview := view_stage r h (show k + b.length ≤ r.free by omega) hi hmod
    simp [Follows, hyes, hview]
  · rw [size, hlen]
    exact hlt

theorem refines_commit (n : ℤ) :
    Refines r (.commit n) (r.commit n.toNat).1 { err := (r.commit n.toNat).2.map .err } := by
  by_cases hfit : 0 < n ∧ n ≤ r.free
  · have hrun := commit_ok r n.toNat (by omega) (by omega)
    rw [hrun]
    refine ⟨(extend_spec r r.buf n.toNat h (by omega) (by omega) rfl).1, rfl, ?_, fun hlt _ => hlt⟩
    exact takes_of_fits (by rw [length_room]; exact hfit)
      (view_reveal r h (by omega) (by omega)) rfl
  obtain ⟨err, hrun⟩ := commit_refused r n.toNat (by omega)
  rw [hrun]
  refine ⟨h, rfl, ?_, fun hlt _ => hlt⟩
  exact takes_of_not (by rw [length_room]; exact hfit) rfl (by simp)

theorem refines_reset : Refines r .reset r.reset {} := by
  have hwf : r.reset.WF := ⟨h.pos, Nat.zero_le _, Nat.zero_le _⟩
  have hcount : r.reset.buffered = 0 := (buffered_eq_zero_iff _ hwf).2 rfl
  have hfree := free_add_buffered _ hwf
  have hfree' := free_add_buffered _ h
  refine ⟨hwf, rfl, ⟨?_, ?_⟩, fun _ _ => h.pos⟩
  · rw [← List.length_eq_zero_iff, length_data, hcount]
  · simp only [length_room, length_data, size, reset] at *
    omega

theorem call_refines (hsize : r.size < 2 ^ 62) (op : Op)
    (hop : Representable r op) : ∃ r' a, call r op = .ok (r', a) ∧ Refines r op r' a := by
  cases op with
  | write b =>
    obtain ⟨out, hrun, href⟩ := refines_write r h b
    exact ⟨_, _, by rw [call, hrun]; rfl, href⟩
  | writeString s =>
    obtain ⟨out, hrun, href⟩ := refines_write r h s
    exact ⟨_, _, by rw [call, writeString, hrun]; rfl, href.wf, href.size_eq, href.follows,
      href.off_lt⟩
  | writeLimited b limitOffset =>
    obtain ⟨out, hrun, href⟩ := refines_writeLimited r h b limitOffset hop
    exact ⟨_, _, by rw [call, hrun]; rfl, href⟩
  | read n => exact refines_read r h n
  | readPeek n =>
    obtain ⟨err, hrun, herr⟩ := peek_cases r h n
    refine ⟨r, _, by rw [call, hrun]; rfl, h, rfl, ⟨rfl, rfl, ?_⟩, fun hlt _ => hlt⟩
    simpa using herr
  | readAt n off => exact refines_readAt r h hsize n off hop.1 hop.2
  | readDiscard n => exact ⟨_, _, rfl, refines_readDiscard r h n⟩
  | peekWrite b offset => exact refines_peekWrite r h hsize b offset hop
  | commit n => exact ⟨_, _, rfl, refines_commit r h n⟩
  | reset => exact ⟨_, _, rfl, refines_reset r h⟩

end

/-- Writes and reads may come between staging bytes and committing them. -/
def Op.isMove : Op → Bool
  | .peekWrite _ _ | .commit _ | .reset => false
  | _ => true

def added (op : Op) (a : Reply) : ℕ :=
  match op with
  | .write _ | .writeString _ | .writeLimited _ _ => a.count
  | _ => 0

def appended : ByteRing → List Op → ℕ
  | _, [] => 0
  | r, op :: ops =>
    match call r op with
    | .error _ => 0
    | .ok (r', a) => added op a + appended r' ops

theorem push_moves [Decidable fits] (h : Takes q q' a fits (q.push b))
    (hcount : a.count = if a.err = none then b.length else 0) :
    ∃ ms, q' = moves q ms ∧ pushed ms = a.count := by
  unfold Takes at h
  split_ifs at h
  · exact ⟨[.push b], h.1, by rw [hcount, if_pos h.2]; rfl⟩
  · exact ⟨[], h.1, by rw [hcount, if_neg h.2]; rfl⟩

theorem follows_moves {op : Op} (h : Follows q op a q') (hmove : op.isMove) :
    ∃ ms, q' = moves q ms ∧ pushed ms = added op a := by
  cases op with
  | write | writeString => exact push_moves h.1 h.2
  | writeLimited b limitOffset => exact push_moves h.1 h.2.2
  | read n => exact ⟨[.pop n], h.2.1, rfl⟩
  | readPeek n => exact ⟨[], h.2.1, rfl⟩
  | readAt n off =>
    refine ⟨[], ?_, rfl⟩
    have htakes := h.1
    unfold Takes at htakes
    split_ifs at htakes <;> exact htakes.1
  | readDiscard n =>
    have htakes : Takes q q' a _ _ := h
    unfold Takes at htakes
    split_ifs at htakes
    · exact ⟨[.pop n.toNat], htakes.1, rfl⟩
    · exact ⟨[], htakes.1, rfl⟩
  | peekWrite | commit | reset => cases hmove

theorem run_refines (ops : List Op) (r : ByteRing) (h : r.WF) (hsize : r.size < 2 ^ 62)
    (hops : Guarded step Representable r ops) :
    ∃ r', exec step r ops = .ok r' ∧ r'.WF ∧ r'.size = r.size ∧
      (r.off < r.size → Guarded step Inside r ops → r'.off < r'.size) ∧
      ((∀ op ∈ ops, op.isMove = true) →
        ∃ ms, view r' = moves (view r) ms ∧ pushed ms = appended r ops) := by
  induction ops generalizing r with
  | nil => exact ⟨r, rfl, h, rfl, fun hlt _ => hlt, fun _ => ⟨[], rfl, rfl⟩⟩
  | cons op ops ih =>
  obtain ⟨r1, a, hcall, href⟩ := call_refines r h hsize op hops.1
  have hstep : step r op = .ok r1 := by rw [step, hcall]; rfl
  obtain ⟨r', hrun, hwf, hsize', hoff, hms⟩ :=
    ih r1 href.wf (by rw [href.size_eq]; exact hsize) (hops.2 r1 hstep)
  refine ⟨r', ?_, hwf, hsize'.trans href.size_eq, fun hlt hin => ?_, fun hmove => ?_⟩
  · rw [exec, hstep]
    exact hrun
  · exact hoff (href.off_lt hlt hin.1) (hin.2 r1 hstep)
  obtain ⟨hop, hmove⟩ := List.forall_mem_cons.1 hmove
  obtain ⟨ms1, hview1, hpushed1⟩ := follows_moves href.follows hop
  obtain ⟨ms, hview, hpushed⟩ := hms hmove
  refine ⟨ms1 ++ ms, ?_, ?_⟩
  · rw [hview, hview1, moves, moves, moves, List.foldl_append]
  · rw [pushed_append, hpushed1, hpushed]
    simp only [appended, hcall]

theorem commit_staged {r r1 r2 : ByteRing} (h : r.WF) (hsize : r.size < 2 ^ 62) {offset : ℕ}
    {mid : List Op} (hb : b ≠ []) (hsum : Representable r (.peekWrite b offset))
    (hstage : call r (.peekWrite b offset) = .ok (r1, a)) (hstaged : a.staged)
    (hmid : ∀ op ∈ mid, op.isMove) (hops : Guarded step Representable r1 mid)
    (hrun : exec step r1 mid = .ok r2) (hgap : appended r1 mid = offset) :
    ∃ r3, r2.commit b.length = (r3, none) ∧ r3.readable = r2.readable ++ b := by
  obtain ⟨r1', a', hcall, href⟩ := call_refines r h hsize _ hsum
  obtain ⟨rfl, rfl⟩ : r1' = r1 ∧ a' = a := by
    rw [hstage] at hcall
    cases hcall
    exact ⟨rfl, rfl⟩
  obtain ⟨hfit, hview⟩ := href.follows
  rw [hstaged, if_pos rfl, Int.toNat_natCast] at hview
  rw [hstaged, eq_comm, decide_eq_true_eq, length_room] at hfit
  have hroom : offset + b.length ≤ (view r).room.length := by
    rw [length_room]
    omega
  obtain ⟨r2', hrun', hwf2, -, -, hms⟩ :=
    run_refines mid r1' href.wf (by rw [href.size_eq]; exact hsize) hops
  obtain rfl : r2' = r2 := by
    rw [hrun] at hrun'
    cases hrun'
    rfl
  obtain ⟨ms, hview2, hpushed⟩ := hms hmid
  rw [hgap] at hpushed
  rw [hview] at hview2
  have hlen : ((view r).stage b offset).room.length = (view r).room.length :=
    length_blit _ _ _ (by omega)
  obtain ⟨back, hback⟩ := room_moves ms ((view r).stage b offset) (by omega)
  have hfree : b.length ≤ r2'.free := by
    rw [← length_room r2', hview2, hback, hpushed, List.length_append, List.length_drop]
    omega
  have hpos := List.length_pos_of_ne_nil hb
  refine ⟨_, commit_ok r2' b.length hpos hfree, ?_⟩
  have hreveal := view_reveal r2' hwf2 hpos hfree
  have hdata := reveal_staged (view r) b offset ms hroom hpushed
  rw [← hview2, ← hreveal] at hdata
  exact hdata

/-- In every run from an empty ring whose calls are representable no call panics, room
and data make up the buffer, the next call is answered as by a bounded queue, and staged
bytes are committed intact behind writes that fill the gap. The start of the data stays
inside the buffer if no discard stops at its end. -/
theorem ring_refines_queue (buf : List UInt8) (hbuf : buf ≠ []) (hmem : buf.length < 2 ^ 62)
    (ops : List Op) (hops : Guarded step Representable { buf } ops) :
    ∃ r, exec step { buf } ops = .ok r ∧ r.size = buf.length ∧
      r.free + r.buffered = r.size ∧
      (Guarded step Inside { buf } ops → r.off < r.size) ∧
      (∀ op, Representable r op →
        ∃ r' a, call r op = .ok (r', a) ∧ Follows (view r) op a (view r')) ∧
      ∀ (b : List UInt8) (offset : ℕ) (mid : List Op) (r1 r2 : ByteRing) (a : Reply), b ≠ [] →
        Representable r (.peekWrite b offset) →
        call r (.peekWrite b offset) = .ok (r1, a) → a.staged = true →
        (∀ op ∈ mid, op.isMove = true) → Guarded step Representable r1 mid →
        exec step r1 mid = .ok r2 → appended r1 mid = offset →
        ∃ r3, r2.commit b.length = (r3, none) ∧ r3.readable = r2.readable ++ b := by
  have hpos : 0 < buf.length := List.length_pos_of_ne_nil hbuf
  have hnew : ({ buf } : ByteRing).WF := ⟨hpos, Nat.zero_le _, Nat.zero_le _⟩
  obtain ⟨r, hrun, hwf, hsize, hoff, -⟩ := run_refines ops { buf } hnew hmem hops
  refine ⟨r, hrun, hsize, free_add_buffered r hwf, hoff hpos, fun op hop => ?_, ?_⟩
  · obtain ⟨r', a, hcall, href⟩ := call_refines r hwf (hsize ▸ hmem) op hop
    exact ⟨r', a, hcall, href.follows⟩
  · intro b offset mid r1 r2 a hb hsum hstage hstaged hmid hmidOps hmidRun hgap
    exact commit_staged hwf (hsize ▸ hmem) hb hsum hstage hstaged hmid hmidOps hmidRun hgap

instance (r : ByteRing) (op : Op) : Decidable (Representable r op) := by
  cases op <;> unfold Representable <;> infer_instance

instance (r : ByteRing) (op : Op) : Decidable (Inside r op) := by
  cases op <;> unfold Inside <;> infer_instance

def wrapping : List Op := [.write [1, 2, 3, 4], .readDiscard 2, .write [5], .read 2]

theorem ring_refines_queue_wrapped : Guarded step Representable { buf := [0, 0, 0, 0] } wrapping ∧
    ∃ r, exec step { buf := [0, 0, 0, 0] } wrapping = .ok r ∧ r.readable = [5] ∧
      r.free + r.buffered = r.size ∧ r.off < r.size := by
  have hops : Guarded step Representable { buf := [0, 0, 0, 0] } wrapping := by decide +kernel
  have hin : Guarded step Inside { buf := [0, 0, 0, 0] } wrapping := by decide +kernel
  obtain ⟨r, hrun, -, hsum, hoff, -⟩ :=
    ring_refines_queue [0, 0, 0, 0] (by decide) (by decide) wrapping hops
  have hread : ∃ r, exec step { buf := [0, 0, 0, 0] } wrapping = .ok r ∧ r.readable = [5] :=
    exists_exec (by decide +kernel)
  obtain ⟨r', hrun', hread⟩ := hread
  obtain rfl : r = r' := by
    rw [hrun] at hrun'
    exact Except.ok.inj hrun'
  exact ⟨hops, r, hrun, hread, hsum, hoff hin⟩

/-- A discard that ends with the buffer leaves the start of the data at its size. At the
largest offset a read and a staging write do not see that nothing is there. -/
theorem discard_stops_at_size : (∃ r, exec step { buf := [0, 0, 0, 0] }
        [.write [1, 2, 3, 4], .readDiscard 2, .write [5], .readDiscard 2] = .ok r ∧
      r.off = r.size) ∧
    (∃ r, exec step { buf := [0, 0, 0, 0] } [.write [1]] = .ok r ∧
      call r (.readAt 1 (2 ^ 63 - 1)) = .error .sliceBounds ∧
      call r (.peekWrite [2] (2 ^ 63 - 1)) = .error .sliceBounds) :=
  ⟨exists_exec (by decide +kernel), exists_exec (by decide +kernel)⟩

end Lneto.RingQueue
