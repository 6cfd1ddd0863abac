import Lneto.HeaderResume

/-!
The memory of a header's buffer. What is read is appended, up to the limit of 16-bit
offsets. `ReadFromBytes` takes the capacity for the length there.
-/
namespace Lneto.HttpHeaders

open KeyValues List

def HeaderV1.bufferUsed (h : HeaderV1) : ℕ := h.kv.buf.len

def HeaderV1.bufferFree (h : HeaderV1) : ℕ := h.kv.free

def HeaderV1.bufferCapacity (h : HeaderV1) : ℕ := h.kv.buf.mem.length

inductive ReadErr where
  | own (err : Err)
  | eof
  | other
deriving DecidableEq, Repr

/-- An `io.Reader`: no more bytes than there is room for. -/
structure Reader where
  read : ℕ → Bytes × Option ReadErr
  fits : ∀ room, (read room).1.length ≤ room

structure LimitedRead where
  kvb : KvBuffer
  readerEOF : Bool
  n : ℕ := 0
  err : Option ReadErr

/-- `slices.Grow`. -/
def sliceGrow (b : Slice) (n slack : ℕ) : Slice :=
  if b.mem.length - b.len < n then b.grow n slack else b

theorem sliceGrow_bytes (b : Slice) (n slack : ℕ) : (sliceGrow b n slack).len = b.len ∧
    (sliceGrow b n slack).mem.take (sliceGrow b n slack).len = b.mem.take b.len := by
  unfold sliceGrow
  split_ifs
  · exact ⟨rfl, take_append_of_le_length b.fits⟩
  · exact ⟨rfl, rfl⟩

def readLimited (kvb : KvBuffer) (readerEOF : Bool) (r : Reader) (limit : ℤ) (slack : ℕ) :
    LimitedRead :=
  if kvb.flags.noBufferGrow ∧ (kvb.free = 0 ∨ (kvb.free : ℤ) < limit) ∨ maxBufLen ≤ kvb.buf.len then
    { kvb, readerEOF, err := some (.own .bufferExhausted) }
  else if kvb.flags.mangledBuffer then { kvb, readerEOF, err := some (.own .mangledBuffer) }
  else if readerEOF then { kvb, readerEOF, err := some .eof }
  else if limit ≤ 0 then { kvb, readerEOF, err := some (.own .noProgress) }
  else
    let buf := sliceGrow kvb.buf limit.toNat slack
    -- the reader is given the room behind the length, which holds what it returns
    let out := r.read (min (buf.len + limit.toNat) maxBufLen - buf.len)
    let atEnd : Bool := 0 < out.1.length ∧ out.2 = some .eof
    { kvb := { kvb with buf := buf.append out.1 0 }
      readerEOF := atEnd
      n := out.1.length
      err := if atEnd then none else out.2 }

theorem readLimited_appends (kvb : KvBuffer) (readerEOF : Bool) (r : Reader) (limit : ℤ)
    (slack : ℕ) : ∃ data : Bytes, (readLimited kvb readerEOF r limit slack).n = data.length ∧
      (data.length : ℤ) ≤ max limit 0 ∧ kvb.buf.len + data.length ≤ max kvb.buf.len maxBufLen ∧
      (readLimited kvb readerEOF r limit slack).kvb.buf.mem.length ≤
        max kvb.buf.mem.length (kvb.buf.len + limit.toNat + slack) ∧
      (readLimited kvb readerEOF r limit slack).kvb.buf.mem.take
        (readLimited kvb readerEOF r limit slack).kvb.buf.len =
          kvb.buf.mem.take kvb.buf.len ++ data := by
  have hread := r.fits (min (kvb.buf.len + limit.toNat) maxBufLen - kvb.buf.len)
  obtain ⟨hlen, hbytes⟩ := sliceGrow_bytes kvb.buf limit.toNat slack
  have hcap : (sliceGrow kvb.buf limit.toNat slack).mem.length ≤
      max kvb.buf.mem.length (kvb.buf.len + limit.toNat + slack) := by
    unfold sliceGrow
    split_ifs
    · rw [Slice.grow, length_append, length_replicate]
      omega
    · exact le_max_left _ _
  unfold readLimited
  split_ifs
  iterate 4 exact ⟨[], rfl, by simp, by simp, by simp, by simp⟩
  obtain ⟨hdata, -, hsize⟩ := append_bytes (sliceGrow kvb.buf limit.toNat slack)
    (r.read (min ((sliceGrow kvb.buf limit.toNat slack).len + limit.toNat) maxBufLen -
      (sliceGrow kvb.buf limit.toNat slack).len)).1 0
  refine ⟨_, rfl, ?_, ?_, ?_, hdata.trans (by rw [hbytes])⟩
  · rw [hlen]
    omega
  · rw [hlen]
    omega
  · rw [hsize, hlen]
    split_ifs <;> omega

/-- A chunk that the buffer has room for, by its length. -/
def HeaderV1.Takes (h : HeaderV1) (b : Bytes) : Prop :=
  b ≠ [] ∧ h.bufferUsed + b.length ≤ maxBufLen ∧
    (h.kv.flags.noBufferGrow = false ∨ b.length ≤ h.bufferFree)

/-- Chunks are appended or refused as they should be, but for those that the buffer has room for
and that do not fit beside its capacity; a limited read and the accounts hold for every buffer. -/
theorem header_memory (h : HeaderV1) :
    (∀ (b : Bytes) (slack : ℕ), h.kv.flags.mangledBuffer = false →
      (((h.readFromBytes b slack).2 = none ↔ h.Takes b) ↔
        (h.Takes b → b.length + h.bufferCapacity ≤ maxBufLen)) ∧
      ((h.readFromBytes b slack).2 = none → (h.readFromBytes b slack).1.data = h.data ++ b) ∧
      ((h.readFromBytes b slack).2 ≠ none → (h.readFromBytes b slack).1 = h)) ∧
    (∀ readerEOF r limit slack, ∃ data : Bytes,
      (readLimited h.kv readerEOF r limit slack).n = data.length ∧
      (data.length : ℤ) ≤ max limit 0 ∧ h.bufferUsed + data.length ≤ max h.bufferUsed maxBufLen ∧
      (readLimited h.kv readerEOF r limit slack).kvb.buf.mem.length ≤
        max h.bufferCapacity (h.bufferUsed + limit.toNat + slack) ∧
      { h with kv := (readLimited h.kv readerEOF r limit slack).kvb }.data = h.data ++ data) ∧
    h.bufferUsed + h.bufferFree = h.bufferCapacity := by
  have hcount : h.bufferUsed + h.bufferFree = h.bufferCapacity :=
    Nat.add_sub_cancel' h.kv.buf.fits
  refine ⟨?_, readLimited_appends h.kv, hcount⟩
  intro b slack hmangled
  have hlen : b ≠ [] ↔ ¬ b.length = 0 := by rw [length_eq_zero_iff]
  have hfree : h.kv.free = h.bufferFree := rfl
  have hmem : h.kv.buf.mem.length = h.bufferCapacity := rfl
  unfold HeaderV1.readFromBytes HeaderV1.Takes
  rw [hlen, hmangled, hfree, hmem, if_neg Bool.false_ne_true]
  split_ifs with hnone hcap hfull
  · simp [hnone]
  · refine ⟨⟨fun hiff htakes => False.elim (hiff.2 htakes), fun hfits => ⟨False.elim, ?_⟩⟩,
      False.elim, fun _ => rfl⟩
    exact fun htakes => absurd (hfits htakes) hcap.not_ge
  · refine ⟨iff_of_true ⟨False.elim, ?_⟩ fun _ => not_lt.1 hcap, False.elim, fun _ => rfl⟩
    rintro ⟨-, -, hno | hle⟩
    · rw [hno] at hfull
      cases hfull.2
    · omega
  · rw [not_and_or, not_lt, Bool.not_eq_true] at hfull
    exact ⟨iff_of_true (iff_of_true rfl ⟨hnone, by omega, hfull.symm⟩) fun _ => not_lt.1 hcap,
      fun _ => (append_bytes _ _ _).1, fun hno => absurd rfl hno⟩

theorem header_memory_empty :
    ((({} : HeaderV1).readFromBytes [71, 69, 84] 0).2 = none ↔
      ({} : HeaderV1).Takes [71, 69, 84]) :=
  ((header_memory {}).1 [71, 69, 84] 0 rfl).1.2 fun _ => by decide

/-- One byte is refused by an empty buffer that takes 65535. -/
theorem readFromBytes_counts_capacity : ∃ h : HeaderV1, h.kv.flags = {} ∧ h.bufferUsed = 0 ∧
    h.bufferCapacity = maxBufLen ∧ h.readFromBytes [0] 0 = (h, some .bufferExhausted) := by
  refine ⟨{ kv := { buf := ⟨replicate maxBufLen 0, 0, Nat.zero_le _⟩ } }, rfl, rfl,
    length_replicate, ?_⟩
  unfold HeaderV1.readFromBytes
  rw [if_neg (by decide), if_neg (by decide), if_pos]
  rw [length_replicate, length_singleton]
  omega

end Lneto.HttpHeaders
