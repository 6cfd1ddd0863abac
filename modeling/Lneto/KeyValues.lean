import Lneto.Regions
import Lneto.GuardedRuns
import Mathlib.Data.UInt
import Mathlib.Tactic.Common

/-!
The key-value store behind headers, forms and cookies. Keys and values are
regions of one buffer with 16-bit offsets. Setting a key invalidates its pairs
and writes over the tightest region that holds the new pair, or else appends
one.
-/
namespace Lneto.KeyValues

open CircularBuffers Regions List

abbrev Bytes := List UInt8

inductive Fault where
  | sliceBounds
  | illegalBase
  | divideByZero
  | loopsForever
deriving DecidableEq, Repr

def maxBufLen : ℕ := 0xffff

def tokint (n : ℕ) : ℕ := n % 65536

structure Pair where
  key : Region := {}
  value : Region := {}
deriving DecidableEq, Repr

namespace Pair

def isValid (p : Pair) : Bool := 0 < p.key.len || 0 < p.value.len

def isValidHeader (p : Pair) : Bool := 0 < p.key.start

def hasValue (p : Pair) : Bool := 0 < p.value.start

def size (p : Pair) : ℕ := p.key.len + p.value.len

end Pair

structure Flags where
  noBufferGrow : Bool := false
  doneParsingHeader : Bool := false
  oomReached : Bool := false
  connClose : Bool := false
  noHTTP11 : Bool := false
  mangledBuffer : Bool := false
  kvAppended : Bool := false
  statusSet : Bool := false
deriving DecidableEq, Repr

structure Slice where
  mem : Bytes := []
  len : ℕ := 0
  fits : len ≤ mem.length := by simp
deriving DecidableEq, Repr

namespace Slice

/-- slices.Grow, with the slack of the allocator. -/
def grow (b : Slice) (need slack : ℕ) : Slice :=
  { b with
    mem := b.mem ++ List.replicate (b.len + need + slack - b.mem.length) 0
    fits := by
      have := b.fits
      rw [List.length_append]
      omega }

/-- The append of the language: in place if the data fits, else in new memory with some slack. -/
def append (b : Slice) (data : Bytes) (slack : ℕ) : Slice :=
  if h : b.len + data.length ≤ b.mem.length then
    { mem := blit b.mem b.len data
      len := b.len + data.length
      fits := by rw [length_blit _ _ _ (by omega)]; exact h }
  else
    { mem := b.mem.take b.len ++ data ++ List.replicate slack 0
      len := b.len + data.length
      fits := by
        have := b.fits
        rw [List.length_append, List.length_append, List.length_take]
        omega }

/-- The length moves to the end of the data, which is written from `i` on. -/
def write (b : Slice) (i : ℕ) (data : Bytes) : Except Fault Slice :=
  if h : i + data.length ≤ b.mem.length then
    .ok { mem := blit b.mem i data
          len := i + data.length
          fits := by rw [length_blit _ _ _ (by omega)]; exact h }
  else .error .sliceBounds

def overwrite (b : Slice) (i : ℕ) (data : Bytes) : Except Fault Slice :=
  if h : i ≤ b.len then
    .ok { b with
          mem := blit b.mem i (data.take (b.len - i))
          fits := by
            have := b.fits
            rw [length_blit _ _ _ (by omega)]
            exact this }
  else .error .sliceBounds

end Slice

structure KvBuffer where
  buf : Slice := {}
  kvs : List Pair := []
  kvCap : ℕ := 0
  flags : Flags := {}
deriving DecidableEq, Repr

def digitByte (d : ℕ) : UInt8 := UInt8.ofNat (if d < 10 then 48 + d else 87 + d)

def digits (base : ℕ) : ℕ → ℕ → Bytes
  | 0, u => [digitByte u]
  | fuel + 1, u =>
    if u < base then [digitByte u] else digits base fuel (u / base) ++ [digitByte (u % base)]

def formatInt (value : ℤ) (base : ℕ) : Bytes :=
  (if value < 0 then [45] else []) ++ digits base value.natAbs value.natAbs

def intLenLoop (base : ℕ) : ℕ → ℕ → ℕ → ℕ
  | 0, _, n => n
  | fuel + 1, u, n => if u < base then n else intLenLoop base fuel (u / base) (n + 1)

/-- A base in its 64 bits: a negative one is larger than any value. -/
def uint64 (base : ℤ) : ℕ := (base % 2 ^ 64).toNat

/-- The bytes of a number's text. Base 1 never gets below the base. -/
def intLen (value base : ℤ) : Except Fault ℕ :=
  if base = 0 then .error .divideByZero
  else if base = 1 ∧ value ≠ 0 then .error .loopsForever
  else .ok (intLenLoop (uint64 base) value.natAbs value.natAbs (if value < 0 then 2 else 1))

def legalBase (base : ℤ) : Bool := decide (2 ≤ base) && decide (base ≤ 36)

theorem intLenLoop_eq (base fuel : ℕ) : ∀ u n : ℕ,
    intLenLoop base fuel u (n + 1) = n + (digits base fuel u).length := by
  induction fuel with
  | zero =>
    intro u n
    rfl
  | succ fuel ih =>
  intro u n
  unfold intLenLoop digits
  split_ifs
  · rfl
  · rw [ih, length_append, length_singleton]
    omega

theorem intLen_eq (value : ℤ) {base : ℤ} (h : legalBase base) :
    intLen value base = .ok (formatInt value base.toNat).length := by
  simp only [legalBase, Bool.and_eq_true, decide_eq_true_eq] at h
  have hbase : uint64 base = base.toNat := by
    unfold uint64
    omega
  unfold intLen formatInt
  rw [if_neg (by omega), if_neg (by omega), hbase]
  split_ifs
  · rw [intLenLoop_eq, length_append, length_singleton]
  · rw [intLenLoop_eq, length_append, length_nil]

theorem digits_ne_nil (base fuel u : ℕ) : digits base fuel u ≠ [] := by
  cases fuel with
  | zero => exact cons_ne_nil _ _
  | succ fuel =>
  unfold digits
  split_ifs
  · exact cons_ne_nil _ _
  · exact append_ne_nil_of_right_ne_nil _ (cons_ne_nil _ _)

theorem formatInt_ne_nil (value : ℤ) (base : ℕ) : formatInt value base ≠ [] :=
  append_ne_nil_of_right_ne_nil _ (digits_ne_nil _ _ _)

/-- The slot to reuse so far, and the pairs with those of the key invalidated. -/
structure Taken where
  kvs : List Pair
  reuse : Option ℕ
deriving DecidableEq, Repr

def fitsSlot (p : Pair) (keyLen valueLen : ℕ) : Bool :=
  p.hasValue && decide (keyLen ≤ p.key.len) && decide (valueLen ≤ p.value.len)

namespace KvBuffer

def free (s : KvBuffer) : ℕ := s.buf.mem.length - s.buf.len

def token (s : KvBuffer) (r : Region) : Bytes := read s.buf.mem r

def canAddOneKV (s : KvBuffer) : Bool := s.kvs.length < s.kvCap || !s.flags.noBufferGrow

def enableBufferGrowth (s : KvBuffer) (enableGrowth : Bool) : KvBuffer :=
  { s with flags := { s.flags with noBufferGrow := !enableGrowth } }

def reset (s : KvBuffer) (buf : Option Slice) (kvCap : ℕ) : KvBuffer :=
  { buf := buf.getD { s.buf with len := 0, fits := Nat.zero_le _ }
    kvs := []
    kvCap := max s.kvCap kvCap
    flags := { noBufferGrow := s.flags.noBufferGrow } }

def oom (s : KvBuffer) : KvBuffer := { s with flags := { s.flags with oomReached := true } }

/-- Room for some bytes, and for byte 0 in an empty buffer. -/
def reserve (s : KvBuffer) (need slack : ℕ) : KvBuffer × Bool :=
  let need := if s.buf.len = 0 then need + 1 else need
  if maxBufLen < s.buf.len + need then (s.oom, false)
  else if s.free < need then
    if s.flags.noBufferGrow then (s.oom, false)
    else ({ s with buf := s.buf.grow need slack }, true)
  else (s, true)

def next (s : KvBuffer) : ℕ := if s.buf.len = 0 then 1 else s.buf.len

/-- The region of appended bytes; an empty one at the very end of the buffer starts at
0. -/
def mustAppendSlice (s : KvBuffer) (value : Bytes) : Except Fault (KvBuffer × Region) := do
  let buf ← s.buf.write s.next value
  return ({ s with buf := buf },
    { start := if s.next = buf.mem.length then 0 else tokint s.next, len := tokint value.length })

def appendKV (s : KvBuffer) (key value : Region) (kvSlack : ℕ) : KvBuffer :=
  { s with
    kvs := s.kvs ++ [{ key := key, value := value }]
    kvCap := if s.kvs.length < s.kvCap then s.kvCap else s.kvs.length + 1 + kvSlack }

def mustAppendInt (s : KvBuffer) (value base : ℤ) : Except Fault (KvBuffer × Region) :=
  if legalBase base then s.mustAppendSlice (formatInt value base.toNat) else .error .illegalBase

def reservePair (s : KvBuffer) (need slack : ℕ) : KvBuffer × Bool :=
  if !s.canAddOneKV then (s, false) else s.reserve need slack

def appendPair (s : KvBuffer) (key value : Bytes) (slack kvSlack : ℕ) :
    Except Fault (KvBuffer × Bool) := do
  let (s, enoughSpace) := s.reservePair (key.length + value.length) slack
  if !enoughSpace then return (s, false)
  let s := { s with flags := { s.flags with kvAppended := true } }
  let (s, k) ← s.mustAppendSlice key
  let (s, v) ← s.mustAppendSlice value
  return (s.appendKV k v kvSlack, true)

def appendPairInt (s : KvBuffer) (key : Bytes) (value base : ℤ) (slack kvSlack : ℕ) :
    Except Fault (KvBuffer × Bool) := do
  let vlen ← intLen value base
  let (s, enoughSpace) := s.reservePair (key.length + vlen) slack
  if !enoughSpace then return (s, false)
  let s := { s with flags := { s.flags with kvAppended := true } }
  let (s, k) ← s.mustAppendSlice key
  let (s, v) ← s.mustAppendInt value base
  return (s.appendKV k v kvSlack, true)

def isKey (s : KvBuffer) (key : Bytes) (p : Pair) : Bool := p.isValid && s.token p.key == key

def getIdx (s : KvBuffer) (key : Bytes) : Option ℕ := s.kvs.findIdx? (s.isKey key)

def valueOf (s : KvBuffer) (p : Pair) : Bytes := if p.hasValue then s.token p.value else []

def get (s : KvBuffer) (key : Bytes) : Bytes :=
  ((s.kvs.find? (s.isKey key)).map s.valueOf).getD []

def add (s : KvBuffer) (key value : Bytes) (slack kvSlack : ℕ) :
    Except Fault (KvBuffer × Bool) := do
  let (s, _) ← s.appendPair key value slack kvSlack
  return (s, (s.getIdx key).isSome)

def takeStep (s : KvBuffer) (key : Bytes) (keyLen valueLen : ℕ) (t : Taken) (i : ℕ) : Taken :=
  let kv := t.kvs.getD i {}
  if !s.isKey key kv then t
  else
    match t.reuse with
    | none =>
      if fitsSlot kv keyLen valueLen then { t with reuse := some i }
      else { t with kvs := t.kvs.set i {} }
    | some r =>
      if fitsSlot kv keyLen valueLen && decide (kv.size < (t.kvs.getD r {}).size) then
        { kvs := t.kvs.set r {}, reuse := some i }
      else { t with kvs := t.kvs.set i {} }

def takeReusableSlot (s : KvBuffer) (key : Bytes) (keyLen valueLen : ℕ) : Taken :=
  (List.range s.kvs.length).foldl (s.takeStep key keyLen valueLen) { kvs := s.kvs, reuse := none }

/-- Write over the regions of a pair that hold the new key and value. -/
def overwriteAt (s : KvBuffer) (i : ℕ) (key value : Bytes) : Except Fault KvBuffer := do
  let kv := s.kvs.getD i {}
  let buf ← s.buf.overwrite kv.key.start key
  let buf ← buf.overwrite kv.value.start value
  return { s with
    buf := buf
    kvs := s.kvs.set i { key := { kv.key with len := tokint key.length }
                         value := { kv.value with len := tokint value.length } }
    flags := { s.flags with mangledBuffer := true } }

def set (s : KvBuffer) (key value : Bytes) (slack kvSlack : ℕ) : Except Fault (KvBuffer × Bool) :=
  let t := s.takeReusableSlot key key.length value.length
  let s := { s with kvs := t.kvs }
  match t.reuse with
  | none => s.add key value slack kvSlack
  | some i => do
    let s ← s.overwriteAt i key value
    return (s, true)

def setInt (s : KvBuffer) (key : Bytes) (value base : ℤ) (slack kvSlack : ℕ) :
    Except Fault (KvBuffer × Bool) := do
  let vlen ← intLen value base
  let t := s.takeReusableSlot key key.length vlen
  let s := { s with kvs := t.kvs }
  match t.reuse with
  | none => s.appendPairInt key value base slack kvSlack
  | some i =>
    if legalBase base then
      let s ← s.overwriteAt i key (formatInt value base.toNat)
      return (s, true)
    else throw .illegalBase

/-- A region for a value, none if there is no room. -/
def appendSlice (s : KvBuffer) (value : Bytes) (slack : ℕ) : Except Fault (KvBuffer × Region) :=
  let (s, enoughSpace) := s.reserve value.length slack
  if !enoughSpace then return (s, {})
  else
    { s with flags := { s.flags with mangledBuffer := true } }.mustAppendSlice value

/-- Write over a region that is longer than the value, or append the value. -/
def reuseOrAppend (s : KvBuffer) (tok : Region) (value : Bytes) (slack : ℕ) :
    Except Fault (KvBuffer × Region) :=
  if tokint value.length < tok.len then do
    let buf ← s.buf.overwrite tok.start (value.take tok.len)
    return ({ s with buf := buf }, { tok with len := tokint value.length })
  else s.appendSlice value slack

def live (s : KvBuffer) : List (Bytes × Bytes) :=
  (s.kvs.filter Pair.isValid).map fun p => (s.token p.key, s.valueOf p)

end KvBuffer

open KvBuffer

def PairApart (p q : Pair) : Prop :=
  Apart p.key q.key ∧ Apart p.key q.value ∧ Apart p.value q.key ∧ Apart p.value q.value

theorem PairApart.symm {p q : Pair} (h : PairApart p q) : PairApart q p :=
  ⟨h.1.symm, h.2.2.1.symm, h.2.1.symm, h.2.2.2.symm⟩

/-- The regions lie in the bytes in use and apart; `extra` belongs to the owner of the
store. -/
structure Sound (extra : List Region) (s : KvBuffer) : Prop where
  extra_inside : ∀ r ∈ extra, r.start + r.len ≤ s.buf.len
  inside : ∀ p ∈ s.kvs, p.key.start + p.key.len ≤ s.buf.len ∧
    p.value.start + p.value.len ≤ s.buf.len
  extra_apart : extra.Pairwise Apart
  cross : ∀ r ∈ extra, ∀ p ∈ s.kvs, Apart r p.key ∧ Apart r p.value
  own : ∀ p ∈ s.kvs, Apart p.key p.value
  pairs : s.kvs.Pairwise PairApart
  small : s.kvs ≠ [] → s.buf.len ≤ maxBufLen
  named : ∀ p ∈ s.kvs, p.isValidHeader = false → p.key.len = 0
  valued : ∀ p ∈ s.kvs, p.hasValue = false → p.value.len = 0

/-- Nothing, or the front part of a region. -/
def Sub (a' a : Region) : Prop := a' = {} ∨ a'.start = a.start ∧ a'.len ≤ a.len

theorem Sub.apart {a a' b b' : Region} (ha : Sub a' a) (hb : Sub b' b) (h : Apart a b) :
    Apart a' b' := by
  rcases ha with rfl | ⟨ha, ha'⟩
  · exact .inl rfl
  rcases hb with rfl | ⟨hb, hb'⟩
  · exact apart_empty a' rfl
  unfold Apart at h ⊢
  omega

theorem Sub.refl (a : Region) : Sub a a := .inr ⟨rfl, le_rfl⟩

def Within (p' p : Pair) : Prop := Sub p'.key p.key ∧ Sub p'.value p.value

theorem Within.refl (p : Pair) : Within p p := ⟨.refl _, .refl _⟩

theorem Within.empty (p : Pair) : Within {} p := ⟨.inl rfl, .inl rfl⟩

theorem Within.apart {p p' q q' : Pair} (hp : Within p' p) (hq : Within q' q)
    (h : PairApart p q) : PairApart p' q' :=
  ⟨hp.1.apart hq.1 h.1, hp.1.apart hq.2 h.2.1, hp.2.apart hq.1 h.2.2.1, hp.2.apart hq.2 h.2.2.2⟩

theorem forall₂_mem {α β : Type} {S : α → β → Prop} {l' : List α} {l : List β}
    (h : Forall₂ S l' l) : ∀ a' ∈ l', ∃ a ∈ l, S a' a := by
  induction h with
  | nil => simp
  | cons hab _ ih =>
  intro a' ha'
  rcases mem_cons.1 ha' with rfl | ha'
  · exact ⟨_, mem_cons_self, hab⟩
  · obtain ⟨a, ha, hS⟩ := ih a' ha'
    exact ⟨a, mem_cons_of_mem _ ha, hS⟩

theorem pairs_within {kvs' kvs : List Pair} (h : Forall₂ Within kvs' kvs)
    (hpairs : kvs.Pairwise PairApart) : kvs'.Pairwise PairApart := by
  induction h with
  | nil => exact Pairwise.nil
  | cons hab hrest ih =>
  rw [pairwise_cons] at hpairs ⊢
  refine ⟨fun q' hq' => ?_, ih hpairs.2⟩
  obtain ⟨q, hq, hS⟩ := forall₂_mem hrest q' hq'
  exact hab.apart hS (hpairs.1 q hq)

/-- Pairs may be dropped or lose bytes at their ends. -/
theorem Sound.within {extra : List Region} {s : KvBuffer} (h : Sound extra s) {kvs' : List Pair}
    (hkvs : Forall₂ Within kvs' s.kvs) : Sound extra { s with kvs := kvs' } := by
  have hsub : ∀ {a' a : Region}, Sub a' a → a.start + a.len ≤ s.buf.len →
      a'.start + a'.len ≤ s.buf.len := by
    rintro a' a (rfl | ⟨h1, h2⟩) hle
    · exact Nat.zero_le _
    · omega
  refine ⟨h.extra_inside, fun p' hp' => ?_, h.extra_apart, fun r hr p' hp' => ?_, fun p' hp' => ?_,
    pairs_within hkvs h.pairs, fun hne => h.small ?_, fun p' hp' hno => ?_, fun p' hp' hno => ?_⟩
  · obtain ⟨p, hp, hw⟩ := forall₂_mem hkvs p' hp'
    exact ⟨hsub hw.1 (h.inside p hp).1, hsub hw.2 (h.inside p hp).2⟩
  · obtain ⟨p, hp, hw⟩ := forall₂_mem hkvs p' hp'
    exact ⟨(Sub.refl r).apart hw.1 (h.cross r hr p hp).1,
      (Sub.refl r).apart hw.2 (h.cross r hr p hp).2⟩
  · obtain ⟨p, hp, hw⟩ := forall₂_mem hkvs p' hp'
    exact hw.1.apart hw.2 (h.own p hp)
  · rintro hnil
    rw [hnil] at hkvs
    cases hkvs
    exact hne rfl
  · obtain ⟨p, hp, hw⟩ := forall₂_mem hkvs p' hp'
    rcases hw.1 with hk | ⟨h1, h2⟩
    · rw [hk]
    · have := h.named p hp (by rw [Pair.isValidHeader, ← h1]; exact hno)
      omega
  obtain ⟨p, hp, hw⟩ := forall₂_mem hkvs p' hp'
  rcases hw.2 with hv | ⟨h1, h2⟩
  · rw [hv]
  · have := h.valued p hp (by rw [Pair.hasValue, ← h1]; exact hno)
    omega

theorem Sound.of_eq {extra : List Region} {s s' : KvBuffer} (h : Sound extra s)
    (hkvs : s'.kvs = s.kvs) (hlen : s'.buf.len = s.buf.len) : Sound extra s' := by
  obtain ⟨h1, h2, h3, h4, h5, h6, h7, h8, h9⟩ := h
  rw [← hkvs] at h2 h4 h5 h6 h7 h8 h9
  rw [← hlen] at h1 h2 h7
  exact ⟨h1, h2, h3, h4, h5, h6, h7, h8, h9⟩

/-- There is room for some bytes, or permission to make it. -/
def KvBuffer.room (s : KvBuffer) (need : ℕ) : Bool :=
  decide (s.next + need ≤ maxBufLen) &&
    (decide (s.next + need ≤ s.buf.mem.length) || !s.flags.noBufferGrow)

section Append
variable {s : KvBuffer}

theorem len_le_next (s : KvBuffer) : s.buf.len ≤ s.next := by
  unfold KvBuffer.next
  split_ifs <;> omega

theorem next_pos (s : KvBuffer) : 0 < s.next := by
  unfold KvBuffer.next
  split_ifs <;> omega

theorem next_of_pos (h : 0 < s.buf.len) : s.next = s.buf.len := if_neg (by omega)

theorem reserve_spec (s : KvBuffer) (need slack : ℕ) :
    ∃ s', s.reserve need slack = (s', s.room need) ∧ s'.kvs = s.kvs ∧ s'.buf.len = s.buf.len ∧
      (∀ r : Region, r.start + r.len ≤ s.buf.len → s'.token r = s.token r) ∧
      (s.room need → s.next + need ≤ s'.buf.mem.length) := by
  have hfits := s.buf.fits
  have hnext : s.buf.len + (if s.buf.len = 0 then need + 1 else need) = s.next + need := by
    unfold KvBuffer.next
    split_ifs <;> omega
  have hdef : s.free = s.buf.mem.length - s.buf.len := rfl
  unfold reserve
  simp only [hnext]
  by_cases hmax : maxBufLen < s.next + need
  · have hroom : s.room need = false := by
      rw [room, decide_eq_false (Nat.not_le.2 hmax), Bool.false_and]
    rw [if_pos hmax, hroom]
    exact ⟨s.oom, rfl, rfl, rfl, fun _ _ => rfl, by simp⟩
  rw [if_neg hmax]
  by_cases hfree : s.free < if s.buf.len = 0 then need + 1 else need
  · have hroom : s.room need = !s.flags.noBufferGrow := by
      rw [room, decide_eq_true (Nat.not_lt.1 hmax), Bool.true_and,
        decide_eq_false (by omega), Bool.false_or]
    rw [if_pos hfree, hroom]
    cases s.flags.noBufferGrow with
    | true => exact ⟨s.oom, rfl, rfl, rfl, fun _ _ => rfl, by simp⟩
    | false =>
    refine ⟨_, rfl, rfl, rfl, fun r hr => ?_, fun _ => ?_⟩
    · exact read_append _ (by omega)
    · simp only [Slice.grow, length_append, length_replicate]
      omega
  have hyes : s.next + need ≤ s.buf.mem.length := by omega
  have hroom : s.room need := by
    rw [room, decide_eq_true (Nat.not_lt.1 hmax), Bool.true_and, decide_eq_true hyes, Bool.true_or]
  rw [if_neg hfree, hroom]
  exact ⟨s, rfl, rfl, rfl, fun _ _ => rfl, fun _ => hyes⟩

structure Appended (s s' : KvBuffer) (r : Region) (value : Bytes) : Prop where
  kvs : s'.kvs = s.kvs
  kvCap : s'.kvCap = s.kvCap
  flags : s'.flags = s.flags
  cap : s'.buf.mem.length = s.buf.mem.length
  len : s'.buf.len = s.next + value.length
  holds : s'.token r = value
  size : r.len = value.length
  inside : r.start + r.len ≤ s'.buf.len
  start : r.len = 0 ∨ r.start = s.next
  keeps : ∀ q : Region, q.start + q.len ≤ s.buf.len → s'.token q = s.token q ∧ Apart q r

theorem mustAppendSlice_spec {value : Bytes} (hcap : s.next + value.length ≤ s.buf.mem.length)
    (hmax : s.next + value.length ≤ maxBufLen) :
    ∃ s' r, s.mustAppendSlice value = .ok (s', r) ∧ Appended s s' r value := by
  have hle := len_le_next s
  have hsmall : tokint value.length = value.length :=
    Nat.mod_eq_of_lt (by unfold maxBufLen at hmax; omega)
  have hstart : tokint s.next = s.next := Nat.mod_eq_of_lt (by unfold maxBufLen at hmax; omega)
  obtain ⟨b, hwrite, hmem, hlen⟩ : ∃ b, s.buf.write s.next value = .ok b ∧
      b.mem = blit s.buf.mem s.next value ∧ b.len = s.next + value.length :=
    ⟨_, dif_pos hcap, rfl, rfl⟩
  have hlength : b.mem.length = s.buf.mem.length := by rw [hmem, length_blit _ _ _ (by omega)]
  unfold mustAppendSlice
  rw [hwrite]
  by_cases hend : s.next = b.mem.length
  · -- only the empty text fits at the very end
    have hnil : value = [] := eq_nil_of_length_eq_zero (by omega)
    subst hnil
    refine ⟨{ s with buf := b }, ⟨0, 0⟩, ?_, rfl, rfl, rfl, hlength, hlen, read_empty _ rfl, rfl,
      Nat.zero_le _, .inl rfl, fun q hq => ⟨?_, apart_empty q rfl⟩⟩
    · simp only [ok_then, pure, Except.pure, if_pos hend, length_nil]
      rfl
    · simp only [token, hmem, blit_nil]
  have hapart : ∀ q : Region, q.start + q.len ≤ s.buf.len → Apart q ⟨s.next, value.length⟩ :=
    fun q hq => .inr (.inr (.inl (by simp only; omega)))
  refine ⟨{ s with buf := b }, ⟨s.next, value.length⟩, ?_, rfl, rfl, rfl, hlength, hlen, ?_, rfl,
    Nat.le_of_eq hlen.symm, .inr rfl, fun q hq => ⟨?_, hapart q hq⟩⟩
  · simp only [ok_then, pure, Except.pure, if_neg hend, hstart, hsmall]
  · rw [token, hmem, read_blit_same hcap]
  · rw [token, token, hmem, read_blit_apart (by omega) (hapart q hq)]

structure PairAppended (extra : List Region) (s s' : KvBuffer) (key value : Bytes) : Prop where
  sound : Sound extra s'
  pair : ∃ p, s'.kvs = s.kvs ++ [p] ∧ s'.token p.key = key ∧ s'.valueOf p = value ∧
    p.key.len = key.length ∧ p.value.len = value.length
  keeps : ∀ r : Region, r.start + r.len ≤ s.buf.len → s'.token r = s.token r

theorem appendKV_spec {extra : List Region} {s₁ s₂ s₃ : KvBuffer} {k v : Region} {key value : Bytes}
    (kvSlack : ℕ) (h : Sound extra s) (hkvs : s₁.kvs = s.kvs) (hlen : s₁.buf.len = s.buf.len)
    (htok : ∀ r : Region, r.start + r.len ≤ s.buf.len → s₁.token r = s.token r)
    (hk : Appended s₁ s₂ k key) (hv : Appended s₂ s₃ v value) (hmax : s₃.buf.len ≤ maxBufLen) :
    PairAppended extra s (s₃.appendKV k v kvSlack) key value := by
  have hgrow : s.buf.len ≤ s₂.buf.len ∧ s₂.buf.len ≤ s₃.buf.len := by
    have h1 := len_le_next s₁
    have h2 := len_le_next s₂
    have h3 := hk.len
    have h4 := hv.len
    omega
  have hkeeps : ∀ r : Region, r.start + r.len ≤ s.buf.len → s₃.token r = s.token r := by
    intro r hr
    rw [(hv.keeps r (by omega)).1, (hk.keeps r (by omega)).1, htok r hr]
  have hnew : ∀ r : Region, r.start + r.len ≤ s.buf.len → Apart r k ∧ Apart r v :=
    fun r hr => ⟨(hk.keeps r (by omega)).2, (hv.keeps r (by omega)).2⟩
  have hown : Apart k v := (hv.keeps k hk.inside).2
  have hkey : s₃.token k = key := by rw [(hv.keeps k hk.inside).1, hk.holds]
  have hvalue : s₃.valueOf ⟨k, v⟩ = value := by
    unfold valueOf Pair.hasValue
    simp only [decide_eq_true_eq]
    split_ifs with hpos
    · exact hv.holds
    have hnext := next_pos s₂
    have hzero : value.length = 0 := by
      rcases hv.start with h0 | h0
      · rw [← hv.size, h0]
      · omega
    exact (eq_nil_of_length_eq_zero hzero).symm
  have hsame : s₃.kvs = s.kvs := by rw [hv.kvs, hk.kvs, hkvs]
  have hkvs' : (s₃.appendKV k v kvSlack).kvs = s.kvs ++ [⟨k, v⟩] := by rw [appendKV, hsame]
  have hmem : ∀ {P : Pair → Prop}, (∀ p ∈ s.kvs, P p) → P ⟨k, v⟩ →
      ∀ p ∈ (s₃.appendKV k v kvSlack).kvs, P p := by
    intro P hold hlast
    rw [hkvs']
    exact forall_mem_append.2 ⟨hold, forall_mem_singleton.2 hlast⟩
  refine ⟨⟨?_, ?_, h.extra_apart, ?_, hmem h.own hown, ?_, fun _ => hmax, ?_, ?_⟩,
    ⟨⟨k, v⟩, hkvs', hkey, hvalue, hk.size, hv.size⟩, hkeeps⟩
  · intro r hr
    exact (h.extra_inside r hr).trans (by simp only [appendKV]; omega)
  · refine hmem (fun p hp => ?_) ⟨hk.inside.trans hgrow.2, hv.inside⟩
    have := h.inside p hp
    simp only [appendKV]
    omega
  · exact fun r hr => hmem (h.cross r hr) (hnew r (h.extra_inside r hr))
  · rw [hkvs', pairwise_append]
    refine ⟨h.pairs, pairwise_singleton _ _, fun p hp q hq => ?_⟩
    obtain rfl := mem_singleton.1 hq
    obtain ⟨h1, h2⟩ := h.inside p hp
    exact ⟨(hnew _ h1).1, (hnew _ h1).2, (hnew _ h2).1, (hnew _ h2).2⟩
  · refine hmem h.named fun hno => ?_
    have hnext := next_pos s₁
    simp only [Pair.isValidHeader, decide_eq_false_iff_not] at hno
    rcases hk.start with h0 | h0
    · exact h0
    · omega
  refine hmem h.valued fun hno => ?_
  have hnext := next_pos s₂
  simp only [Pair.hasValue, decide_eq_false_iff_not] at hno
  rcases hv.start with h0 | h0
  · exact h0
  · omega

/-- A pair is appended if there is a slot and room for it. -/
def KvBuffer.canAppend (s : KvBuffer) (need : ℕ) : Bool := s.canAddOneKV && s.room need

structure Kept (extra : List Region) (s s' : KvBuffer) : Prop where
  sound : Sound extra s'
  kvs : s'.kvs = s.kvs
  keeps : ∀ r : Region, r.start + r.len ≤ s.buf.len → s'.token r = s.token r

theorem reservePair_spec {extra : List Region} (h : Sound extra s) (need slack : ℕ) :
    ∃ s', s.reservePair need slack = (s', s.canAppend need) ∧ Kept extra s s' ∧
      s'.buf.len = s.buf.len ∧
      (s.canAppend need → s.next + need ≤ s'.buf.mem.length ∧ s.next + need ≤ maxBufLen) := by
  unfold reservePair canAppend
  cases s.canAddOneKV with
  | false => exact ⟨s, rfl, ⟨h, rfl, fun _ _ => rfl⟩, rfl, fun hno => absurd hno Bool.false_ne_true⟩
  | true =>
  obtain ⟨s', hres, hkvs, hlen, htok, hcap⟩ := reserve_spec s need slack
  simp only [Bool.not_true, Bool.false_eq_true, if_false, hres, Bool.true_and]
  refine ⟨s', rfl, ⟨h.of_eq hkvs hlen, hkvs, htok⟩, hlen, fun hroom => ⟨hcap hroom, ?_⟩⟩
  simp only [room, Bool.and_eq_true, decide_eq_true_eq] at hroom
  exact hroom.1

theorem appendPair_spec {extra : List Region} (h : Sound extra s) (key value : Bytes)
    (slack kvSlack : ℕ) : ∃ s', s.appendPair key value slack kvSlack =
        .ok (s', s.canAppend (key.length + value.length)) ∧
      (s.canAppend (key.length + value.length) → PairAppended extra s s' key value) ∧
      (s.canAppend (key.length + value.length) = false → Kept extra s s') := by
  obtain ⟨s₁, hres, hkept, hlen, hcap⟩ := reservePair_spec h (key.length + value.length) slack
  unfold appendPair
  simp only [hres]
  cases hroom : s.canAppend (key.length + value.length) with
  | false => exact ⟨s₁, rfl, fun hno => absurd hno Bool.false_ne_true, fun _ => hkept⟩
  | true =>
  simp only [Bool.not_true, Bool.false_eq_true, if_false, bind, Except.bind]
  obtain ⟨hfit, hmax⟩ := hcap hroom
  have hnext : ({ s₁ with flags := { s₁.flags with kvAppended := true } } : KvBuffer).next =
      s.next := by
    unfold KvBuffer.next
    rw [hlen]
  obtain ⟨s₂, k, hk, hkspec⟩ := @mustAppendSlice_spec
    { s₁ with flags := { s₁.flags with kvAppended := true } } key
    (by rw [hnext]; simp only; omega) (by rw [hnext]; omega)
  have hlen₂ := hkspec.len
  rw [hnext] at hlen₂
  have hpos := next_pos s
  have hnext₂ : s₂.next = s.next + key.length := by rw [next_of_pos (by omega), hlen₂]
  have hcap₂ := hkspec.cap
  simp only at hcap₂
  obtain ⟨s₃, v, hv, hvspec⟩ := @mustAppendSlice_spec s₂ value (by omega) (by omega)
  simp only [hk, hv]
  refine ⟨_, rfl, fun _ => ?_, fun hno => absurd hno.symm Bool.false_ne_true⟩
  have hlen₃ := hvspec.len
  exact @appendKV_spec s extra { s₁ with flags := { s₁.flags with kvAppended := true } } s₂ s₃
    k v key value kvSlack h hkept.kvs hlen hkept.keeps hkspec hvspec (by omega)

theorem appendPairInt_legal (s : KvBuffer) (key : Bytes) (value : ℤ) {base : ℤ}
    (h : legalBase base) (slack kvSlack : ℕ) : s.appendPairInt key value base slack kvSlack =
      s.appendPair key (formatInt value base.toNat) slack kvSlack := by
  unfold appendPairInt appendPair mustAppendInt
  rw [intLen_eq value h]
  simp only [h, if_true]
  rfl

section
variable {extra : List Region} (h : Sound extra s) {key : Bytes} {value base : ℤ}
include h

theorem appendPairInt_full {vlen : ℕ} (hvlen : intLen value base = .ok vlen)
    (hroom : s.canAppend (key.length + vlen) = false) (slack kvSlack : ℕ) :
    ∃ s', s.appendPairInt key value base slack kvSlack = .ok (s', false) ∧ Kept extra s s' := by
  obtain ⟨s₁, hres, hkept, -, -⟩ := reservePair_spec h (key.length + vlen) slack
  refine ⟨s₁, ?_, hkept⟩
  unfold appendPairInt
  simp only [hvlen, ok_then, hres, hroom, Bool.not_false, if_true]
  rfl

/-- In a base without digits a number that has room is never written. -/
theorem appendPairInt_illegal (hbase : legalBase base = false) {vlen : ℕ}
    (hvlen : intLen value base = .ok vlen) (hroom : s.canAppend (key.length + vlen))
    (slack kvSlack : ℕ) (r : KvBuffer × Bool) :
    s.appendPairInt key value base slack kvSlack ≠ .ok r := by
  obtain ⟨s₁, hres, -, -, -⟩ := reservePair_spec h (key.length + vlen) slack
  intro hrun
  unfold appendPairInt mustAppendInt at hrun
  simp only [hvlen, hbase, bind, Except.bind, hres, hroom, Bool.not_true, Bool.false_eq_true,
    if_false] at hrun
  split at hrun
  · cases hrun
  · cases hrun

end

end Append

section Take
variable {s : KvBuffer} {key : Bytes} {keyLen valueLen : ℕ}

def KvBuffer.wipe (s : KvBuffer) (key : Bytes) (p : Pair) : Pair := if s.isKey key p then {} else p

theorem wipe_isKey {p : Pair} (h : s.isKey key p) : s.wipe key p = {} := if_pos h

theorem wipe_other {p : Pair} (h : s.isKey key p = false) : s.wipe key p = p :=
  if_neg (by rw [h]; exact Bool.false_ne_true)

/-- Of the pairs seen all pairs of the key are invalid, but one that is large enough if there
was one. -/
def KvBuffer.Seen (s : KvBuffer) (key : Bytes) (keyLen valueLen : ℕ) (seen rest : List Pair)
    (t : Taken) : Prop :=
  (t.reuse = none ∧ t.kvs = seen.map (s.wipe key) ++ rest ∧
    ∀ p ∈ seen, s.isKey key p = true → fitsSlot p keyLen valueLen = false) ∨
  ∃ before p after, seen = before ++ p :: after ∧ t.reuse = some before.length ∧
    s.isKey key p = true ∧ fitsSlot p keyLen valueLen = true ∧
    t.kvs = before.map (s.wipe key) ++ p :: after.map (s.wipe key) ++ rest

theorem takeStep_spec {seen rest : List Pair} {q : Pair} {t : Taken}
    (h : s.Seen key keyLen valueLen seen (q :: rest) t) :
    s.Seen key keyLen valueLen (seen ++ [q]) rest
      (s.takeStep key keyLen valueLen t seen.length) := by
  have hq : t.kvs.getD seen.length {} = q ∧
      t.kvs.set seen.length {} = t.kvs.take seen.length ++ {} :: rest := by
    have hsplit : ∃ front : List Pair, front.length = seen.length ∧ t.kvs = front ++ q :: rest := by
      rcases h with ⟨-, hkvs, -⟩ | ⟨before, p, after, hseen, -, -, -, hkvs⟩
      · exact ⟨_, length_map _, hkvs⟩
      refine ⟨_, ?_, hkvs⟩
      rw [hseen]
      simp
    obtain ⟨front, hfront, hkvs⟩ := hsplit
    rw [hkvs, ← hfront]
    simp
  unfold takeStep
  simp only [hq.1]
  cases hkey : s.isKey key q with
  | false =>
    rw [Bool.not_false, if_pos rfl]
    rcases h with ⟨hre, hkvs, hnone⟩ | ⟨before, p, after, hseen, hre, hp, hfits, hkvs⟩
    · refine .inl ⟨hre, ?_, fun p hp hpk => ?_⟩
      · rw [hkvs, map_append, map_singleton, wipe_other hkey, append_assoc]
        rfl
      rcases mem_append.1 hp with hp | hp
      · exact hnone p hp hpk
      · rw [mem_singleton.1 hp, hkey] at hpk
        exact absurd hpk Bool.false_ne_true
    refine .inr ⟨before, p, after ++ [q], by rw [hseen]; simp, hre, hp, hfits, ?_⟩
    rw [hkvs, map_append, map_singleton, wipe_other hkey]
    simp
  | true =>
  rw [Bool.not_true, if_neg Bool.false_ne_true]
  rcases h with ⟨hre, hkvs, hnone⟩ | ⟨before, p, after, hseen, hre, hp, hfits, hkvs⟩
  · simp only [hre]
    cases hfit : fitsSlot q keyLen valueLen with
    | true =>
      exact .inr ⟨seen, q, [], rfl, rfl, hkey, hfit, by simp [hkvs]⟩
    | false =>
    refine .inl ⟨rfl, ?_, fun p hp hpk => ?_⟩
    · rw [hkvs, map_append, map_singleton, wipe_isKey hkey]
      simp
    rcases mem_append.1 hp with hp | hp
    · exact hnone p hp hpk
    · rw [mem_singleton.1 hp, hfit]
  have hr : t.kvs.getD before.length {} = p := by rw [hkvs]; simp
  simp only [hre, hr]
  split_ifs with hbetter
  · -- the slot found earlier is superseded
    refine .inr ⟨seen, q, [], rfl, rfl, hkey, ?_, ?_⟩
    · exact (Bool.and_eq_true _ _ ▸ hbetter).1
    · simp only [hkvs, hseen, map_append, map_cons, wipe_isKey hp]
      simp
  have hfront : (before.map (s.wipe key) ++ p :: after.map (s.wipe key)).length =
      seen.length := by
    rw [hseen]
    simp
  refine .inr ⟨before, p, after ++ [q], by rw [hseen]; simp, rfl, hp, hfits, ?_⟩
  simp only [hq.2]
  rw [hkvs, take_left' hfront, map_append, map_singleton, wipe_isKey hkey]
  simp

theorem takeReusableSlot_spec (s : KvBuffer) (key : Bytes) (keyLen valueLen : ℕ) :
    s.Seen key keyLen valueLen s.kvs [] (s.takeReusableSlot key keyLen valueLen) := by
  have hrun : ∀ i ≤ s.kvs.length, s.Seen key keyLen valueLen (s.kvs.take i) (s.kvs.drop i)
      ((range i).foldl (s.takeStep key keyLen valueLen) { kvs := s.kvs, reuse := none }) := by
    intro i
    induction i with
    | zero => exact fun _ => .inl ⟨rfl, by simp, by simp⟩
    | succ i ih =>
    intro hi
    have hstep := ih (by omega)
    rw [drop_eq_getElem_cons (by omega)] at hstep
    have := takeStep_spec hstep
    rw [length_take, Nat.min_eq_left (by omega)] at this
    rw [range_succ, foldl_append, take_add_one, getElem?_eq_getElem (by omega)]
    exact this
  have := hrun s.kvs.length le_rfl
  rw [take_length, drop_length] at this
  exact this

end Take

section Overwrite
variable {s : KvBuffer}

theorem overwrite_spec (b : Slice) {i : ℕ} {data : Bytes} (h : i + data.length ≤ b.len) :
    ∃ b', b.overwrite i data = .ok b' ∧ b'.mem = blit b.mem i data ∧ b'.len = b.len := by
  refine ⟨_, dif_pos (by omega), ?_, rfl⟩
  simp only [take_of_length_le (show data.length ≤ b.len - i by omega)]

/-- What a pair holds that took the place of `p`, and what it leaves alone. -/
structure Replaced (extra : List Region) (s s' : KvBuffer) (before : List Pair) (p : Pair)
    (after : List Pair) (key value : Bytes) : Prop where
  sound : Sound extra s'
  pair : ∃ p', s'.kvs = before ++ p' :: after ∧ s'.token p'.key = key ∧ s'.valueOf p' = value ∧
    p'.key.len = key.length ∧ p'.value.len = value.length
  keeps : ∀ r : Region, Apart r p.key → Apart r p.value → s'.token r = s.token r

theorem forall₂_replace {before after : List Pair} {p p' : Pair} (h : Within p' p) :
    Forall₂ Within (before ++ p' :: after) (before ++ p :: after) := by
  have hrefl : ∀ l : List Pair, Forall₂ Within l l := fun l => forall₂_same.2 fun q _ => .refl q
  exact rel_append (hrefl before) (Forall₂.cons h (hrefl after))

theorem overwriteAt_spec {extra : List Region} (h : Sound extra s) {before after : List Pair}
    {p : Pair} (hkvs : s.kvs = before ++ p :: after) {key value : Bytes}
    (hfits : fitsSlot p key.length value.length) :
    ∃ s', s.overwriteAt before.length key value = .ok s' ∧
      Replaced extra s s' before p after key value := by
  simp only [fitsSlot, Bool.and_eq_true, decide_eq_true_eq] at hfits
  obtain ⟨⟨hval, hklen⟩, hvlen⟩ := hfits
  have hmem : p ∈ s.kvs := by rw [hkvs]; simp
  obtain ⟨hkin, hvin⟩ := h.inside p hmem
  have hsmall : s.buf.len ≤ maxBufLen := h.small (ne_nil_of_mem hmem)
  have htoken : ∀ n ≤ s.buf.len, tokint n = n := by
    intro n hn
    unfold maxBufLen at hsmall
    exact Nat.mod_eq_of_lt (by omega)
  have hget : s.kvs.getD before.length {} = p := by rw [hkvs]; simp
  have hfit := s.buf.fits
  obtain ⟨b₁, hb₁, hmem₁, hlen₁⟩ := @overwrite_spec s.buf p.key.start key (by omega)
  obtain ⟨b₂, hb₂, hmem₂, hlen₂⟩ := @overwrite_spec b₁ p.value.start value (by omega)
  have hsize₁ : b₁.mem.length = s.buf.mem.length := by rw [hmem₁, length_blit _ _ _ (by omega)]
  have hown := h.own p hmem
  have hkv : Apart ⟨p.key.start, key.length⟩ ⟨p.value.start, value.length⟩ := by
    unfold Apart at hown ⊢
    simp only
    omega
  have hwithin : Within ⟨⟨p.key.start, key.length⟩, ⟨p.value.start, value.length⟩⟩ p :=
    ⟨.inr ⟨rfl, hklen⟩, .inr ⟨rfl, hvlen⟩⟩
  unfold overwriteAt
  simp only [hget, hb₁, hb₂, ok_then, pure, Except.pure, htoken key.length (by omega),
    htoken value.length (by omega)]
  have hset : s.kvs.set before.length ⟨⟨p.key.start, key.length⟩, ⟨p.value.start, value.length⟩⟩ =
      before ++ ⟨⟨p.key.start, key.length⟩, ⟨p.value.start, value.length⟩⟩ :: after := by
    rw [hkvs]
    simp
  refine ⟨_, rfl, ?_, ⟨_, hset, ?_, ?_, rfl, rfl⟩, fun r hrk hrv => ?_⟩
  · have hsound := h.within (hkvs ▸ forall₂_replace hwithin)
    exact hsound.of_eq hset (by simp only; omega)
  · simp only [token]
    rw [hmem₂, read_blit_apart (by omega) hkv, hmem₁, read_blit_same (by omega)]
  · rw [valueOf, if_pos (by exact hval)]
    simp only [token]
    rw [hmem₂, read_blit_same (by omega)]
  have hk : Apart r ⟨p.key.start, key.length⟩ := hrk.shrink hklen
  have hv : Apart r ⟨p.value.start, value.length⟩ := hrv.shrink hvlen
  simp only [token]
  rw [hmem₂, read_blit_apart (by omega) hv, hmem₁, read_blit_apart (by omega) hk]

end Overwrite

end Lneto.KeyValues
