import Lneto.Ipv4Prefix
import Mathlib.Data.Set.BooleanAlgebra
import Mathlib.Order.CompletePartialOrder
import Mathlib.Data.Nat.ModEq
import Mathlib.Logic.Function.Iterate

/-!
Prefixes as sets of addresses: what `Contains`, `Overlaps` and `Compare` say of
the sets, and the order in which `Next` goes through one of them.
-/
namespace Lneto.Ipv4Prefix

/-- A prefix of package netip: its address if that is one of IPv4, and its length if it is valid. -/
structure NetipPrefix where
  addr : Option UInt32
  bits : Option ℕ
deriving DecidableEq

namespace Prefix4

/-- An invalid length is -1, which is 255 in a byte. -/
def prefixFromNetip (pfx : NetipPrefix) : Prefix4 :=
  match pfx.addr with
  | some addr => ofAddr addr (pfx.bits.getD 255)
  | none => {}

def netipPrefix (p : Prefix4) : NetipPrefix :=
  ⟨some p.addr, if p.isValid then some p.bits else none⟩

def overlaps (p o : Prefix4) : Bool :=
  p.isValid && o.isValid &&
    p.addr.toNat / 2 ^ (32 - min p.bits o.bits) == o.addr.toNat / 2 ^ (32 - min p.bits o.bits)

def compare (p p2 : Prefix4) : ℤ :=
  if p.isValid ≠ p2.isValid then if !p.isValid then -1 else 1
  else if !p.isValid then 0
  else if p.network ≠ p2.network then if p.network < p2.network then -1 else 1
  else if p.bitsPlusOne ≠ p2.bitsPlusOne then if p.bitsPlusOne < p2.bitsPlusOne then -1 else 1
  else if p.addr < p2.addr then -1
  else if p.addr > p2.addr then 1
  else 0

/-- The addresses a prefix stands for: an interval as long as its host part allows. -/
def addresses (p : Prefix4) : Set UInt32 :=
  {a | p.isValid ∧ p.network ≤ a.toNat ∧ a.toNat < p.network + 2 ^ (32 - p.bits)}

variable {p o q : Prefix4} {a b : UInt32}

theorem mem_addresses : a ∈ p.addresses ↔ p.containsBits a := by
  have hpos := p.size_pos
  by_cases hvalid : p.isValid
  · rw [containsBits_iff hvalid, broadcast]
    change p.isValid ∧ p.network ≤ a.toNat ∧ a.toNat < p.network + p.size ↔ _
    simp only [hvalid, true_and]
    omega
  · simp [addresses, containsBits, hvalid]

theorem mem_iff_div (hvalid : p.isValid) :
    a ∈ p.addresses ↔ p.addr.toNat / p.size = a.toNat / p.size := by
  rw [mem_addresses, containsBits, hvalid, Bool.true_and, beq_iff_eq]

theorem addr_mem (hvalid : p.isValid) : p.addr ∈ p.addresses := (mem_iff_div hvalid).2 rfl

/-- A shorter prefix that holds one address of a longer one holds them all. -/
theorem addresses_subset (hp : p.isValid) (ho : o.isValid) (hbits : p.bits ≤ o.bits)
    (ha : a ∈ p.addresses) (ha' : a ∈ o.addresses) : o.addresses ⊆ p.addresses := by
  obtain ⟨k, hk⟩ : o.size ∣ p.size := Nat.pow_dvd_pow 2 (by omega)
  intro b hb
  rw [mem_iff_div hp] at ha ⊢
  rw [mem_iff_div ho] at ha' hb
  rw [ha, hk, ← Nat.div_div_eq_div_mul, ← Nat.div_div_eq_div_mul, ← ha', hb]

theorem overlaps_iff (hp : p.isValid) (ho : o.isValid) (hbits : p.bits ≤ o.bits) :
    p.overlaps o ↔ o.addr ∈ p.addresses := by
  rw [overlaps, hp, ho, Bool.true_and, Bool.true_and, beq_iff_eq, Nat.min_eq_left hbits,
    mem_iff_div hp]
  rfl

theorem overlaps_comm (p o : Prefix4) : p.overlaps o = o.overlaps p := by
  rw [overlaps, overlaps, Bool.and_comm p.isValid, Nat.min_comm]
  congr 1
  exact Bool.beq_comm

theorem overlaps_sets (hp : p.isValid) (ho : o.isValid) (hbits : p.bits ≤ o.bits) :
    (p.overlaps o ↔ (p.addresses ∩ o.addresses).Nonempty) ∧
      (p.overlaps o ↔ o.addresses ⊆ p.addresses) := by
  rw [overlaps_iff hp ho hbits]
  refine ⟨⟨fun h => ⟨_, h, addr_mem ho⟩, ?_⟩, ⟨fun h => ?_, fun h => h (addr_mem ho)⟩⟩
  · rintro ⟨a, ha, ha'⟩
    exact addresses_subset hp ho hbits ha ha' (addr_mem ho)
  · exact addresses_subset hp ho hbits h (addr_mem ho)

/-- Where `Compare` puts a prefix: by its network, its length and its address. -/
def rank (p : Prefix4) : ℕ :=
  if p.isValid then (p.network * 34 + p.bitsPlusOne) * 2 ^ 32 + p.addr.toNat + 1 else 0

theorem compare_rank (p o : Prefix4) : p.compare o = -1 ∧ p.rank < o.rank ∨
    p.compare o = 1 ∧ o.rank < p.rank ∨ p.compare o = 0 ∧ p.rank = o.rank := by
  have hp := p.addr.toNat_lt
  have ho := o.addr.toNat_lt
  have hpb := p.bound
  have hob := o.bound
  unfold compare rank
  rcases hpv : p.isValid with _ | _ <;> rcases hov : o.isValid with _ | _
  · simp
  · simp
  · simp
  simp only [ne_eq, not_true_eq_false, if_false, Bool.not_true, Bool.false_eq_true, if_true,
    UInt32.lt_iff_toNat_lt, gt_iff_lt]
  split_ifs <;> omega

theorem rank_inj (hp : p.isValid) (ho : o.isValid) (h : p.rank = o.rank) : p = o := by
  have hpa := p.addr.toNat_lt
  have hoa := o.addr.toNat_lt
  have hpb := p.bound
  have hob := o.bound
  rw [rank, rank, if_pos hp, if_pos ho] at h
  have haddr : p.addr = o.addr := UInt32.toNat_inj.1 (by omega)
  have hbits : p.bitsPlusOne = o.bitsPlusOne := by omega
  cases p
  cases o
  cases haddr
  cases hbits
  rfl

theorem toNat_iterate_next (ha : a ∈ p.addresses) (k : ℕ) :
    (p.next^[k] a).toNat = p.network + (a.toNat % p.size + k) % p.size := by
  induction k with
  | zero =>
    rw [Function.iterate_zero_apply, Nat.add_zero, Nat.mod_mod]
    exact (mod_size (mem_addresses.1 ha)).symm
  | succ k ih =>
    rw [Function.iterate_succ_apply', toNat_next, ih, network, Nat.mul_add_mod', Nat.mod_mod,
      Nat.mod_add_mod]
    rfl

/-- From an address of the prefix every other is reached in one number of steps below its size. -/
theorem next_reaches (ha : a ∈ p.addresses) (hb : b ∈ p.addresses) :
    ∃! k, k < p.size ∧ p.next^[k] a = b := by
  have hpos := p.size_pos
  have hbn := mod_size (mem_addresses.1 hb)
  have hi := Nat.mod_lt a.toNat hpos
  have hj := Nat.mod_lt b.toNat hpos
  refine ⟨(b.toNat % p.size + (p.size - a.toNat % p.size)) % p.size, ⟨Nat.mod_lt _ hpos, ?_⟩, ?_⟩
  · apply UInt32.toNat_inj.1
    rw [toNat_iterate_next ha, Nat.add_mod_mod,
      show a.toNat % p.size + (b.toNat % p.size + (p.size - a.toNat % p.size)) =
        b.toNat % p.size + p.size by omega, Nat.add_mod_right, Nat.mod_mod, hbn]
  · rintro k ⟨hk, rfl⟩
    rw [toNat_iterate_next ha, network, Nat.mul_add_mod', Nat.mod_mod, Nat.mod_add_mod,
      show a.toNat % p.size + k + (p.size - a.toNat % p.size) = k + p.size by omega,
      Nat.add_mod_right, Nat.mod_eq_of_lt hk]

theorem prefix_laws :
    (∀ (p : Prefix4) (a : UInt32), p.contains (be32 a) ↔ a ∈ p.addresses) ∧
    (∀ p o : Prefix4, p.overlaps o ↔ (p.addresses ∩ o.addresses).Nonempty) ∧
    (∀ p o : Prefix4, p.isValid → o.isValid →
      (p.overlaps o ↔ p.addresses ⊆ o.addresses ∨ o.addresses ⊆ p.addresses)) ∧
    (∀ p o : Prefix4, p.compare o = -o.compare p) ∧
    (∀ p o q : Prefix4, p.compare o ≤ 0 → o.compare q ≤ 0 → p.compare q ≤ 0) ∧
    (∀ p o : Prefix4, p.isValid → o.isValid → (p.compare o = 0 ↔ p = o)) ∧
    (∀ p o : Prefix4, p.network = o.network → o.addresses ⊂ p.addresses → o.isValid →
      p.compare o = -1) ∧
    (∀ p : Prefix4, p.isValid → prefixFromNetip p.netipPrefix = p) ∧
    (∀ a bits, bits ≤ 32 →
      (prefixFromNetip ⟨some a, some bits⟩).isValid ∧
        (prefixFromNetip ⟨some a, some bits⟩).netipPrefix = ⟨some a, some bits⟩) ∧
    ∀ p : Prefix4, p.isValid → (∀ a, p.next a ∈ p.addresses) ∧
      ∀ a ∈ p.addresses, p.next^[2 ^ (32 - p.bits)] a = a ∧
        ∀ b ∈ p.addresses, ∃! k, k < 2 ^ (32 - p.bits) ∧ p.next^[k] a = b := by
  refine ⟨?_, ?_, ?_, ?_, ?_, ?_, ?_, ?_, ?_, ?_⟩
  · intro p a
    rw [contains, addr2bits_be32, mem_addresses]
  · intro p o
    by_cases hboth : p.isValid ∧ o.isValid
    · rcases Nat.le_total p.bits o.bits with hle | hle
      · exact (overlaps_sets hboth.1 hboth.2 hle).1
      · rw [overlaps_comm, Set.inter_comm]
        exact (overlaps_sets hboth.2 hboth.1 hle).1
    · refine iff_of_false (fun h => hboth ?_) fun ⟨a, ha, ha'⟩ => hboth ⟨ha.1, ha'.1⟩
      rw [overlaps, Bool.and_eq_true, Bool.and_eq_true] at h
      exact h.1
  · intro p o hp ho
    rcases Nat.le_total p.bits o.bits with hle | hle
    · rw [(overlaps_sets hp ho hle).2]
      refine ⟨.inr, fun h => h.elim (fun hsub => ?_) id⟩
      exact addresses_subset hp ho hle (addr_mem hp) (hsub (addr_mem hp))
    · rw [overlaps_comm, (overlaps_sets ho hp hle).2]
      refine ⟨.inl, fun h => h.elim id fun hsub => ?_⟩
      exact addresses_subset ho hp hle (addr_mem ho) (hsub (addr_mem ho))
  · intro p o
    have h := compare_rank p o
    have h' := compare_rank o p
    omega
  · intro p o q
    have h := compare_rank p o
    have h' := compare_rank o q
    have h'' := compare_rank p q
    omega
  · intro p o hp ho
    have h := compare_rank p o
    refine ⟨fun hzero => rank_inj hp ho (by omega), ?_⟩
    rintro rfl
    omega
  · intro p o hnet hsub ho
    have hp : p.isValid := (hsub.1 (addr_mem ho)).1
    have hbits : p.bits < o.bits := by
      by_contra hle
      exact hsub.2 (addresses_subset ho hp (by omega) (addr_mem ho) (hsub.1 (addr_mem ho)))
    rw [bits, bits] at hbits
    rw [compare, if_neg (by rw [hp, ho]; simp), if_neg (by simp [hp]), if_neg (not_not.2 hnet),
      if_pos (by omega), if_pos (by omega)]
  · rintro ⟨addr, bitsPlusOne, hbound⟩ hvalid
    have hpos : bitsPlusOne ≠ 0 := by simpa [isValid] using hvalid
    simp only [netipPrefix, hvalid, if_true, prefixFromNetip, Option.getD_some, bits]
    rw [ofAddr, dif_pos (by omega)]
    congr 1
    omega
  · intro a n hn
    simp only [prefixFromNetip, Option.getD_some, ofAddr, dif_pos hn]
    exact ⟨rfl, rfl⟩
  · intro p hvalid
    refine ⟨fun a => mem_addresses.2 (contains_next hvalid a), fun a ha => ⟨?_, ?_⟩⟩
    · apply UInt32.toNat_inj.1
      change (p.next^[p.size] a).toNat = _
      rw [toNat_iterate_next ha, Nat.add_mod_right, Nat.mod_mod, mod_size (mem_addresses.1 ha)]
    · exact fun b hb => next_reaches ha hb

end Prefix4

end Lneto.Ipv4Prefix
