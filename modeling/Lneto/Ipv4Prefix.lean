import Mathlib.Data.UInt
import Mathlib.Tactic.Common

/-!
IPv4 addresses and prefixes. An address is four bytes on the wire and a 32-bit
number in arithmetic; masking with a prefix is division by the size of its
host part.
-/
namespace Lneto.Ipv4Prefix

abbrev Bytes := List UInt8

def be32 (v : UInt32) : Bytes :=
  [UInt8.ofNat (v.toNat / 2 ^ 24), UInt8.ofNat (v.toNat / 2 ^ 16), UInt8.ofNat (v.toNat / 2 ^ 8),
    UInt8.ofNat v.toNat]

def addr2bits (addr : Bytes) : UInt32 :=
  UInt32.ofNat (addr.foldl (fun n b => n * 256 + b.toNat) 0)

theorem length_be32 (v : UInt32) : (be32 v).length = 4 := rfl

theorem addr2bits_be32 (v : UInt32) : addr2bits (be32 v) = v := by
  have hv : v.toNat < 4294967296 := v.toNat_lt
  apply UInt32.toNat_inj.1
  simp only [addr2bits, be32, List.foldl_cons, List.foldl_nil, UInt8.toNat_ofNat',
    UInt32.toNat_ofNat']
  omega

theorem no_bits : 0 ≤ 33 := by decide

/-- A prefix; the zero value is not valid. -/
structure Prefix4 where
  addr : UInt32 := 0
  bitsPlusOne : ℕ := 0
  bound : bitsPlusOne ≤ 33 := by exact Lneto.Ipv4Prefix.no_bits
deriving DecidableEq, Repr

namespace Prefix4

/-- Prefix lengths beyond 32 are taken for 0. -/
def ofAddr (addr : UInt32) (bits : ℕ) : Prefix4 :=
  if h : bits ≤ 32 then ⟨addr, bits + 1, by omega⟩ else ⟨addr, 1, by omega⟩

def isValid (p : Prefix4) : Bool := p.bitsPlusOne != 0

def bits (p : Prefix4) : ℕ := p.bitsPlusOne - 1

def size (p : Prefix4) : ℕ := 2 ^ (32 - p.bits)

def containsBits (p : Prefix4) (addr : UInt32) : Bool :=
  p.isValid && p.addr.toNat / p.size == addr.toNat / p.size

def contains (p : Prefix4) (addr : Bytes) : Bool := p.containsBits (addr2bits addr)

def network (p : Prefix4) : ℕ := p.addr.toNat / p.size * p.size

def broadcast (p : Prefix4) : ℕ := p.network + (p.size - 1)

def next (p : Prefix4) (addr : UInt32) : UInt32 :=
  UInt32.ofNat (p.network + (addr.toNat % p.size + 1) % p.size)

theorem size_pos (p : Prefix4) : 0 < p.size := Nat.two_pow_pos _

theorem network_le (p : Prefix4) : p.network + p.size ≤ 2 ^ 32 := by
  obtain ⟨k, hk⟩ : p.size ∣ 2 ^ 32 := Nat.pow_dvd_pow 2 (Nat.sub_le 32 _)
  have hlt : p.addr.toNat / p.size < k := by
    rw [Nat.div_lt_iff_lt_mul p.size_pos, Nat.mul_comm, ← hk]
    exact p.addr.toNat_lt
  calc p.network + p.size = (p.addr.toNat / p.size + 1) * p.size := by
        rw [network, Nat.add_mul, Nat.one_mul]
    _ ≤ k * p.size := Nat.mul_le_mul_right _ hlt
    _ = 2 ^ 32 := by rw [hk, Nat.mul_comm]

theorem containsBits_iff {p : Prefix4} (h : p.isValid) (addr : UInt32) :
    p.containsBits addr ↔ p.network ≤ addr.toNat ∧ addr.toNat ≤ p.broadcast := by
  have hpos := p.size_pos
  rw [containsBits, h, Bool.true_and, beq_iff_eq, broadcast, network]
  constructor
  · intro heq
    rw [heq]
    have hdiv := Nat.div_add_mod' addr.toNat p.size
    have hmod := Nat.mod_lt addr.toNat hpos
    omega
  rintro ⟨hlow, hhigh⟩
  symm
  rw [Nat.div_eq_iff hpos]
  omega

theorem mod_size {p : Prefix4} {addr : UInt32} (h : p.containsBits addr) :
    p.network + addr.toNat % p.size = addr.toNat := by
  rw [containsBits, Bool.and_eq_true, beq_iff_eq] at h
  rw [network, h.2]
  exact Nat.div_add_mod' _ _

theorem toNat_next (p : Prefix4) (addr : UInt32) :
    (p.next addr).toNat = p.network + (addr.toNat % p.size + 1) % p.size := by
  have hle := p.network_le
  have hmod := Nat.mod_lt (addr.toNat % p.size + 1) p.size_pos
  rw [next, UInt32.toNat_ofNat', Nat.mod_eq_of_lt (by omega)]

theorem contains_next {p : Prefix4} (h : p.isValid) (addr : UInt32) :
    p.containsBits (p.next addr) := by
  have hmod := Nat.mod_lt (addr.toNat % p.size + 1) p.size_pos
  rw [containsBits_iff h, toNat_next, broadcast]
  omega

theorem toNat_next_of_lt {p : Prefix4} {addr : UInt32} (h : p.containsBits addr)
    (hlt : addr.toNat < p.broadcast) : (p.next addr).toNat = addr.toNat + 1 := by
  have hmod := mod_size h
  rw [broadcast] at hlt
  rw [toNat_next, Nat.mod_eq_of_lt (by omega)]
  omega

end Prefix4

end Lneto.Ipv4Prefix
