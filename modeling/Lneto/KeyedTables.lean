import Mathlib.Data.List.AList
import Mathlib.Data.Fintype.Card

/-!
Counting in finite maps: how many values have a property, and how that number
follows insertions and deletions.
-/
namespace Lneto.KeyedTables

open List Finset AList

variable {κ β : Type}

abbrev Table (κ β : Type) := AList fun _ : κ => β

def tally (p : β → Bool) (s : Table κ β) : ℕ := s.entries.countP fun e => p e.2

variable [DecidableEq κ]

section
variable (p : β → Bool) (s : Table κ β)
include p s

theorem tally_erase (k : κ) :
    tally p s = tally p (s.erase k) + (if (s.lookup k).any p then 1 else 0) := by
  by_cases hk : k ∈ s
  · obtain ⟨b, l₁, l₂, hnot, heq, hrest⟩ := exists_of_kerase hk
    have hlook : s.lookup k = some b :=
      mem_lookup_iff.2 (by rw [heq]; exact mem_append_right _ mem_cons_self)
    have herase : (s.erase k).entries = l₁ ++ l₂ := hrest
    rw [tally, tally, heq, herase, hlook, countP_append, countP_append, countP_cons]
    cases hp : p b <;> simp [hp]
    omega
  have hlook : s.lookup k = none := lookup_eq_none.2 hk
  have hsame : (s.erase k).entries = s.entries := kerase_of_notMem_keys hk
  rw [tally, tally, hsame, hlook]
  rfl

theorem tally_insert_int (k : κ) (v : β) : (tally p (s.insert k v) : ℤ) =
      tally p s - (if (s.lookup k).any p then 1 else 0) + (if p v then 1 else 0) := by
  have hrest : (s.erase k).entries = kerase k s.entries := rfl
  rw [tally_erase p s k, tally, tally, entries_insert, countP_cons, hrest]
  split_ifs <;> push_cast <;> omega

theorem tally_erase_int (k : κ) :
    (tally p (s.erase k) : ℤ) = tally p s - (if (s.lookup k).any p then 1 else 0) := by
  rw [tally_erase p s k]
  split_ifs <;> push_cast <;> omega

theorem tally_pos_iff : 0 < tally p s ↔ ∃ k v, s.lookup k = some v ∧ p v := by
  rw [tally, countP_pos_iff]
  constructor
  · rintro ⟨⟨k, v⟩, hmem, hp⟩
    exact ⟨k, v, mem_lookup_iff.2 hmem, hp⟩
  · rintro ⟨k, v, hlook, hp⟩
    exact ⟨⟨k, v⟩, mem_lookup_iff.1 hlook, hp⟩

end

/-- A table with keys from a family has fewer entries than the family if one of it is missing. -/
theorem tally_lt {n : ℕ} (keys : Fin n → κ) {s : Table κ β}
    (howned : ∀ k v, s.lookup k = some v → ∃ i, k = keys i) {i : Fin n}
    (hnone : s.lookup (keys i) = none) : tally (fun _ => true) s < n := by
  have hcount : tally (fun _ => true) s = s.keys.length := by
    rw [tally, countP_true, AList.keys, List.keys, length_map]
  have hsub : s.keys.toFinset ⊆ (univ.erase i).image keys := by
    intro k hk
    rw [mem_toFinset, ← AList.mem_keys, ← AList.lookup_isSome] at hk
    obtain ⟨v, hv⟩ := Option.isSome_iff_exists.1 hk
    obtain ⟨j, rfl⟩ := howned k v hv
    refine mem_image.2 ⟨j, mem_erase.2 ⟨?_, mem_univ j⟩, rfl⟩
    rintro rfl
    rw [hnone] at hv
    cases hv
  calc tally (fun _ => true) s = s.keys.toFinset.card := by
        rw [hcount, toFinset_card_of_nodup s.keys_nodup]
    _ ≤ ((univ.erase i).image keys).card := card_le_card hsub
    _ ≤ (univ.erase i).card := card_image_le
    _ < n := by
        rw [card_erase_of_mem (mem_univ i), card_univ, Fintype.card_fin]
        have hpos := i.pos
        omega

def InjectiveOn {γ : Type} (f : β → γ) (s : Table κ β) : Prop :=
  ∀ k k' v v', s.lookup k = some v → s.lookup k' = some v' → f v = f v' → k = k'

section
variable {γ : Type} {f : β → γ} {s : Table κ β} (h : InjectiveOn f s)
include h

theorem InjectiveOn.insert {k : κ}
    {v : β} (hnew : ∀ k' v', s.lookup k' = some v' → f v' = f v → k' = k) :
    InjectiveOn f (s.insert k v) := by
  intro k₁ k₂ v₁ v₂ h₁ h₂ heq
  by_cases hk₁ : k₁ = k
  · by_cases hk₂ : k₂ = k
    · rw [hk₁, hk₂]
    subst hk₁
    rw [lookup_insert] at h₁
    rw [lookup_insert_ne hk₂] at h₂
    cases h₁
    exact absurd (hnew k₂ v₂ h₂ heq.symm) hk₂
  rw [lookup_insert_ne hk₁] at h₁
  by_cases hk₂ : k₂ = k
  · subst hk₂
    rw [lookup_insert] at h₂
    cases h₂
    exact absurd (hnew k₁ v₁ h₁ heq) hk₁
  · rw [lookup_insert_ne hk₂] at h₂
    exact h k₁ k₂ v₁ v₂ h₁ h₂ heq

theorem InjectiveOn.erase (k : κ) : InjectiveOn f (s.erase k) := by
  intro k₁ k₂ v₁ v₂ h₁ h₂ heq
  have hne : ∀ {k' : κ} {v' : β}, (s.erase k).lookup k' = some v' → k' ≠ k := by
    rintro k' v' hlook rfl
    rw [lookup_erase] at hlook
    cases hlook
  rw [lookup_erase_ne (hne h₁)] at h₁
  rw [lookup_erase_ne (hne h₂)] at h₂
  exact h k₁ k₂ v₁ v₂ h₁ h₂ heq

end

end Lneto.KeyedTables
