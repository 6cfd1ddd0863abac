import Lneto.IpRoundTrip
import Mathlib.Algebra.Order.BigOperators.Group.List
import Mathlib.Algebra.Order.Ring.Nat

/-!
A `CRC791` value over a sequence of calls. The 32-bit register does not wrap below
65538 words, and what it holds is the plain sum of the words.
-/
namespace Lneto.CrcSums

open Views View IpIngress IpEgress IpChecksums IpRoundTrip OnesComplement
open UInt32
open List hiding sum

/-- A call that adds to the running sum. `WriteEven` is for slices of even length. -/
inductive Addition where
  | writeEven (buff : List UInt8) (even : buff.length % 2 = 0)
  | addUint16 (value : UInt16)
  | addUint32 (value : UInt32)

def Addition.call (sum : UInt32) : Addition → Except Fault UInt32
  | .writeEven buff _ => sumWriteEven sum buff
  | .addUint16 value => .ok (IpIngress.addUint16 sum value.toNat)
  | .addUint32 value => .ok (IpIngress.addUint32 sum value.toNat)

def Addition.words : Addition → List ℕ
  | .writeEven buff _ => OnesComplement.words buff
  | .addUint16 value => [value.toNat]
  | .addUint32 value => [value.toNat / 65536, value.toNat % 65536]

/-- The calls on a zero `CRC791`, then `PayloadSum16`. -/
def crc791 (calls : List Addition) (buff : List UInt8) : Except Fault UInt16 := do
  payloadSum16 (← calls.foldlM Addition.call 0) buff

def wordsOf (calls : List Addition) (buff : List UInt8) : List ℕ :=
  calls.flatMap Addition.words ++ words buff

theorem Addition.words_lt (a : Addition) : ∀ w ∈ a.words, w < 65536 := by
  cases a with
  | writeEven buff _ => exact OnesComplement.words_lt buff
  | addUint16 value =>
    have := value.toNat_lt
    simp only [words, mem_singleton, forall_eq]
    omega
  | addUint32 value =>
    have := value.toNat_lt
    simp only [words, mem_cons, not_mem_nil, or_false, forall_eq_or_imp, forall_eq]
    omega

theorem call_eq (sum : UInt32) (a : Addition) : a.call sum = .ok (sum + ofNat a.words.sum) := by
  cases a with
  | writeEven buff even => exact sumWriteEven_eq buff even sum
  | addUint16 value =>
    simp [Addition.call, Addition.words, addUint16, Nat.mod_eq_of_lt value.toNat_lt]
  | addUint32 value =>
    have hhigh : value.toNat / 65536 % 65536 = value.toNat / 65536 :=
      Nat.mod_eq_of_lt (by have := value.toNat_lt; omega)
    simp [Addition.call, Addition.words, addUint32, addUint16, hhigh, ofNat_add, add_assoc]

theorem calls_eq (calls : List Addition) : ∀ sum : UInt32, calls.foldlM Addition.call sum =
    .ok (sum + ofNat (calls.flatMap Addition.words).sum) := by
  induction calls with
  | nil =>
    intro sum
    simp [pure, Except.pure]
  | cons a calls ih =>
    intro sum
    rw [foldlM_cons, call_eq]
    refine (ih _).trans ?_
    rw [flatMap_cons, sum_append, ofNat_add, add_assoc]

theorem crc791_eq (calls : List Addition) (buff : List UInt8) :
    crc791 calls buff = .ok (sum16 (ofNat (wordsOf calls buff).sum)) := by
  rw [crc791, calls_eq, wordsOf, sum_append, ofNat_add]
  refine (payloadSum16_eq _ buff).trans ?_
  rw [zero_add, total]

section Bounded
variable {calls : List Addition} {buff : List UInt8}

theorem wordsOf_lt : ∀ w ∈ wordsOf calls buff, w < 65536 := by
  intro w hw
  rcases mem_append.1 hw with hw | hw
  · obtain ⟨a, -, ha⟩ := mem_flatMap.1 hw
    exact a.words_lt w ha
  · exact words_lt buff w hw

theorem sum_lt (hlen : (wordsOf calls buff).length ≤ 65537) :
    (wordsOf calls buff).sum < 4294967296 := by
  have hsum : (wordsOf calls buff).sum ≤ (wordsOf calls buff).length * 65535 :=
    sum_le_card_nsmul _ 65535 fun w hw => Nat.le_of_lt_succ (wordsOf_lt w hw)
  omega

theorem sum16_sum (hlen : (wordsOf calls buff).length ≤ 65537) :
    (sum16 (ofNat (wordsOf calls buff).sum)).toNat = complement (wordsOf calls buff).sum := by
  rw [sum16_toNat, toNat_ofNat_of_lt' (sum_lt hlen)]

end Bounded

theorem words_split16 (value : ℕ) (back : List UInt8) :
    words (split16 value ++ back) = value % 65536 :: words back := by
  rw [← word_split16]
  rfl

/-- The sum is the one of RFC 1071 whatever the order of the additions, and a packet that
carries its checksum, or the checksum that is never zero, sums to zero. -/
theorem crc791_checks (calls : List Addition) :
    (∀ buff, (wordsOf calls buff).length ≤ 65537 →
      (∃ crc, crc791 calls buff = .ok crc ∧ crc.toNat = 65535 - sum (wordsOf calls buff)) ∧
        ∀ calls', calls'.Perm calls → crc791 calls' buff = crc791 calls buff) ∧
    ∀ front back, front.length % 2 = 0 →
      (wordsOf calls (front ++ (split16 0 ++ back))).length ≤ 65537 →
      ∃ crc, crc791 calls (front ++ (split16 0 ++ back)) = .ok crc ∧
        ∀ field ∈ [crc, neverZeroSum crc],
          crc791 calls (front ++ (split16 field.toNat ++ back)) = .ok 0 := by
  refine ⟨fun buff hlen => ⟨⟨_, crc791_eq calls buff, ?_⟩, ?_⟩, ?_⟩
  · rw [sum16_sum hlen]
    have h : Represents (sum (wordsOf calls buff)) (0 + (wordsOf calls buff).sum) :=
      represents_foldl _ ⟨by omega, rfl, Iff.rfl⟩ wordsOf_lt
    obtain ⟨hle, hmod, hzero⟩ := h
    obtain ⟨hfold, hfold0⟩ := fold_represents (wordsOf calls buff).sum
    have := fold_le (sum_lt hlen)
    rcases complement_cases (sum_lt hlen) with ⟨hc, he⟩ | ⟨hc, he⟩ <;> omega
  · intro calls' hperm
    have hwords : (wordsOf calls' buff).sum = (wordsOf calls buff).sum :=
      ((hperm.flatMap_right Addition.words).append_right (words buff)).sum_eq
    rw [crc791_eq, crc791_eq, hwords]
  · intro front back heven hlen
    have hcrc := sum16_sum hlen
    have hdvd := dvd_add_complement (sum_lt hlen)
    refine ⟨_, crc791_eq calls _, ?_⟩
    generalize sum16 (UInt32.ofNat (wordsOf calls (front ++ (split16 0 ++ back))).sum) = crc at *
    intro field hfield
    have hlen' : (wordsOf calls (front ++ (split16 field.toNat ++ back))).length ≤ 65537 := by
      simpa [wordsOf, words_append heven, words_split16] using hlen
    have hsum : (wordsOf calls (front ++ (split16 field.toNat ++ back))).sum =
        (wordsOf calls (front ++ (split16 0 ++ back))).sum + field.toNat := by
      simp only [wordsOf, words_append heven, words_split16, List.sum_append, List.sum_cons,
        Nat.mod_eq_of_lt field.toNat_lt]
      omega
    have hfield' : field.toNat = crc.toNat ∨ crc.toNat = 0 ∧ field.toNat = 65535 := by
      simp only [List.mem_cons, List.not_mem_nil, or_false] at hfield
      rcases hfield with rfl | rfl
      · exact .inl rfl
      · unfold neverZeroSum
        split
        next h => exact .inr ⟨by rw [h]; rfl, rfl⟩
        next => exact .inl rfl
    have hzero := complement_eq_zero_iff (sum_lt hlen')
    rw [← sum16_sum hlen'] at hzero
    rw [crc791_eq]
    refine congrArg Except.ok (UInt16.toNat_inj.1 (hzero.2 ?_))
    have hempty : complement 0 = 65535 := rfl
    rw [hsum]
    rcases hfield' with h | ⟨h0, h⟩
    · refine ⟨fun h' => ?_, by rwa [h, hcrc]⟩
      rw [Nat.add_eq_zero_iff] at h'
      rw [h'.1] at hcrc
      omega
    · omega

theorem crc791_checks_words : ∃ crc, crc791 [] ([69, 0] ++ (split16 0 ++ [10, 1])) = .ok crc ∧
    ∀ field ∈ [crc, neverZeroSum crc],
      crc791 [] ([69, 0] ++ (split16 field.toNat ++ [10, 1])) = .ok 0 :=
  (crc791_checks []).2 [69, 0] [10, 1] rfl (by decide)

end Lneto.CrcSums
