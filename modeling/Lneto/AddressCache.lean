import Lneto.GuardedRuns
import Mathlib.Data.UInt

/-!
The cache behind address resolution, shared by ARP and neighbor discovery. Its
slots hold learned mappings, pending responses and queries. A new mapping takes
a fresh slot and a lookup the first in order, so that several slots may speak
for one address.
-/
namespace Lneto.AddressCache

open List

abbrev Bytes := List UInt8

variable {p src : Bytes}

inductive Fault where
  | sliceBounds
  | indexOutOfRange
deriving DecidableEq, Repr

structure Flags where
  inUse : Bool := false
  ipv6 : Bool := false
  pendingResponse : Bool := false
  incomplete : Bool := false
  incompletePendingQuery : Bool := false
  priority : Bool := false
  resolveTriggersCallback : Bool := false
deriving DecidableEq, Repr

def copyInto (dst src : Bytes) : Bytes := src.take dst.length ++ dst.drop src.length

theorem length_copyInto (dst src : Bytes) : (copyInto dst src).length = dst.length := by
  rw [copyInto, length_append, length_take, length_drop]
  omega

theorem take_copyInto {dst : Bytes} (h : src.length ≤ dst.length) :
    (copyInto dst src).take src.length = src := by
  rw [copyInto, take_of_length_le h, take_left]

theorem copyInto_full {dst : Bytes} (h : dst.length = src.length) : copyInto dst src = src := by
  rw [copyInto, h, take_length, drop_eq_nil_of_le (by omega), append_nil]

theorem six_zeros : (replicate 6 (0 : UInt8)).length = 6 := rfl

theorem sixteen_zeros : (replicate 16 (0 : UInt8)).length = 16 := rfl

structure Mac6 where
  bytes : Bytes := List.replicate 6 0
  six : bytes.length = 6 := by exact Lneto.AddressCache.six_zeros
deriving DecidableEq, Repr

namespace Mac6

def copy (m : Mac6) (src : Bytes) : Mac6 :=
  ⟨copyInto m.bytes src, (length_copyInto _ _).trans m.six⟩

def ofBytes (src : Bytes) : Mac6 := copy {} src

theorem bytes_copy (h : src.length = 6) (m : Mac6) : (m.copy src).bytes = src :=
  copyInto_full (m.six.trans h.symm)

theorem ofBytes_bytes (m : Mac6) : ofBytes m.bytes = m := by
  have hbytes : (ofBytes m.bytes).bytes = m.bytes := bytes_copy m.six {}
  rcases m with ⟨b, hb⟩
  rcases hm : ofBytes b with ⟨b', hb'⟩
  rw [hm] at hbytes
  cases hbytes
  rfl

end Mac6

structure Entry where
  addr : Bytes := List.replicate 16 0
  mac : Mac6 := {}
  age : ℕ := 0
  flags : Flags := {}
  wide : addr.length = 16 := by exact Lneto.AddressCache.sixteen_zeros
deriving DecidableEq, Repr

variable {e : Entry}

namespace Entry

/-- The slot speaks for the address, or for one that starts with it. -/
def isFor (p : Bytes) (e : Entry) : Bool := e.flags.inUse && e.addr.take p.length == p

theorem isFor_wide (h : p.length = 16) (e : Entry) :
    e.isFor p = (e.flags.inUse && e.addr == p) := by
  rw [isFor, h, take_of_length_le e.wide.le]

def hasPriority (e : Entry) : Bool :=
  e.flags.pendingResponse || e.flags.incomplete || e.flags.priority

def grow (e : Entry) : Entry :=
  if e.flags.inUse && decide (e.age < 255) then { e with age := e.age + 1 } else e

theorem mac_grow (e : Entry) : e.grow.mac = e.mac := by
  unfold grow
  split <;> rfl

theorem flags_grow (e : Entry) : e.grow.flags = e.flags := by
  unfold grow
  split <;> rfl

end Entry

open Entry

abbrev Cache := List Entry

variable {c : Cache}

namespace Cache

def age (c : Cache) : Cache := c.map Entry.grow

/-- Memory that is large enough is taken over with what it holds. -/
def reset (c : Cache) (size : ℕ) : Cache := if c.length < size then List.replicate size {} else c

def getNextFlagged (c : Cache) (has : Flags → Bool) : Option ℕ :=
  c.findIdx? fun e => e.flags.inUse && has e.flags

def release (c : Cache) (has : Flags → Bool) : Cache :=
  c.map fun e => if has e.flags then { e with flags := { e.flags with inUse := false } } else e

/-- An address longer than a slot's is a slice out of bounds as soon as a slot is compared. -/
def lookup (c : Cache) (p : Bytes) : Except Fault (Option ℕ) :=
  if 16 < p.length ∧ c.any (·.flags.inUse) then .error .sliceBounds
  else .ok (c.findIdx? (Entry.isFor p))

def entry (slots : Cache) (i : ℕ) : Entry := slots[i]?.getD {}

/-- The scan for a slot: the oldest one, or the first that is free, and the oldest of those
without priority. -/
def scan (c : Cache) : ℕ → List Entry → ℕ → Option ℕ → ℕ × Option ℕ
  | _, [], oldest, passive => (oldest, passive)
  | i, e :: rest, oldest, passive =>
    if !e.flags.inUse then (i, passive)
    else
      let passive :=
        if e.hasPriority then passive
        else if passive.all fun j => decide ((c.entry j).age < e.age) then some i
        else passive
      let oldest := if (c.entry oldest).age < e.age then i else oldest
      scan c (i + 1) rest oldest passive

def nextSlot (c : Cache) : ℕ :=
  match scan c 0 c 0 none with
  | (oldest, none) => oldest
  | (oldest, some passive) => if (c.entry oldest).flags.inUse then passive else oldest

/-- The slot for a new entry, zeroed after all slots aged. -/
def acquireNext (c : Cache) : Except Fault (Cache × ℕ) :=
  if c.nextSlot < c.length then .ok (c.age.set c.nextSlot {}, c.nextSlot)
  else .error .indexOutOfRange

variable {pre rest : Cache} {oldest : ℕ} {passive : Option ℕ}

/-- The slots before the scan's position: all are in use, and the two candidates are the oldest of
them and the oldest without priority. -/
structure Scanned (c pre : Cache) (oldest : ℕ) (passive : Option ℕ) : Prop where
  used : ∀ e ∈ pre, e.flags.inUse = true
  eldest : ∀ e ∈ pre, e.age ≤ (c.entry oldest).age
  noPassive : passive = none → ∀ e ∈ pre, e.hasPriority = true
  best : ∀ j ∈ passive, (c.entry j).hasPriority = false ∧
    ∀ e ∈ pre, e.hasPriority = false → e.age ≤ (c.entry j).age
  first : oldest < c.length
  second : ∀ j ∈ passive, j < c.length

theorem entry_here (hc : c = pre ++ e :: rest) : c.entry pre.length = e := by
  rw [entry, hc, getElem?_append_right le_rfl, Nat.sub_self]
  rfl

theorem length_here (hc : c = pre ++ e :: rest) : pre.length < c.length := by
  rw [hc, length_append, length_cons]
  omega

theorem Scanned.next (h : Scanned c pre oldest passive) (hc : c = pre ++ e :: rest)
    (hused : e.flags.inUse) :
    Scanned c (pre ++ [e]) (if (c.entry oldest).age < e.age then pre.length else oldest)
      (if e.hasPriority then passive
        else if passive.all fun j => decide ((c.entry j).age < e.age) then some pre.length
        else passive) := by
  have hentry := entry_here hc
  have hlt := length_here hc
  refine ⟨forall_mem_append.2 ⟨h.used, by simpa using hused⟩, ?_, ?_, ?_, ?_, ?_⟩
  · split_ifs with hage
    · rw [hentry]
      exact forall_mem_append.2 ⟨fun x hx => (h.eldest x hx).trans hage.le, by simp⟩
    · exact forall_mem_append.2 ⟨h.eldest, by simpa using hage⟩
  · intro hnone
    split_ifs at hnone with hprio hall
    · exact forall_mem_append.2 ⟨h.noPassive hnone, by simpa using hprio⟩
    · rw [hnone] at hall
      exact absurd rfl hall
  · intro j hj
    split_ifs at hj with hprio hall
    · obtain ⟨hpass, hmax⟩ := h.best j hj
      exact ⟨hpass, forall_mem_append.2 ⟨hmax, by simp [hprio]⟩⟩
    · cases hj
      rw [hentry]
      refine ⟨by simpa using hprio, forall_mem_append.2 ⟨fun x hx hpass => ?_, by simp⟩⟩
      cases hp : passive with
      | none => cases (h.noPassive hp x hx).symm.trans hpass
      | some k =>
        rw [hp, Option.all_some, decide_eq_true_eq] at hall
        exact ((h.best k hp).2 x hx hpass).trans hall.le
    · obtain ⟨hpass, hmax⟩ := h.best j hj
      rw [Option.mem_def.1 hj, Option.all_some, decide_eq_true_eq, not_lt] at hall
      exact ⟨hpass, forall_mem_append.2 ⟨hmax, by simpa using fun _ => hall⟩⟩
  · split_ifs
    · exact hlt
    · exact h.first
  intro j hj
  split_ifs at hj
  · exact h.second j hj
  · cases hj
    exact hlt
  · exact h.second j hj

/-- The scan stops at a free slot or has seen them all. -/
theorem scan_spec (rest : Cache) : ∀ {pre : Cache} {oldest : ℕ} {passive : Option ℕ},
    Scanned c pre oldest passive → c = pre ++ rest → ∀ {o p},
      scan c pre.length rest oldest passive = (o, p) → o < c.length ∧ (∀ j ∈ p, j < c.length) ∧
        ((c.entry o).flags.inUse = false ∨ Scanned c c o p) := by
  induction rest with
  | nil =>
    intro pre oldest passive h hc o p hscan
    rw [append_nil] at hc
    subst hc
    cases hscan
    exact ⟨h.first, h.second, .inr h⟩
  | cons e rest ih =>
  intro pre oldest passive h hc o p hscan
  unfold scan at hscan
  by_cases hused : e.flags.inUse
  · rw [hused, Bool.not_true, if_neg Bool.false_ne_true] at hscan
    refine ih (h.next hc hused) (by rw [hc, append_assoc]; rfl) ?_
    rw [length_append]
    exact hscan
  · rw [Bool.not_eq_true] at hused
    rw [hused, Bool.not_false, if_pos rfl] at hscan
    cases hscan
    exact ⟨length_here hc, h.second, .inl ((entry_here hc).symm ▸ hused)⟩

/-- The slot that is chosen is free; or none is, and it is the oldest without priority, or of all if
each has it. -/
def Chosen (c : Cache) (i : ℕ) : Prop :=
  (c.entry i).flags.inUse = false ∨ (∀ e ∈ c, e.flags.inUse = true) ∧
    ((c.entry i).hasPriority = false ∧
        (∀ e ∈ c, e.hasPriority = false → e.age ≤ (c.entry i).age) ∨
      (∀ e ∈ c, e.hasPriority = true) ∧ ∀ e ∈ c, e.age ≤ (c.entry i).age)

theorem nextSlot_spec (h : c ≠ []) : c.nextSlot < c.length ∧ Chosen c c.nextSlot := by
  unfold nextSlot
  rcases hscan : scan c 0 c 0 none with ⟨o, p⟩
  obtain ⟨ho, hp, hspec⟩ := @scan_spec c c [] 0 none
    ⟨nofun, nofun, fun _ => nofun, nofun, length_pos_iff.2 h, nofun⟩ rfl o p hscan
  cases p with
  | none =>
    exact ⟨ho, hspec.imp_right fun hs => ⟨hs.used, .inr ⟨hs.noPassive rfl, hs.eldest⟩⟩⟩
  | some j =>
  dsimp only
  split_ifs with hused
  · refine ⟨hp j rfl, .inr ?_⟩
    rcases hspec with hfree | hs
    · cases hfree.symm.trans hused
    · exact ⟨hs.used, .inl (hs.best j rfl)⟩
  · exact ⟨ho, .inl (by simpa using hused)⟩

theorem nextSlot_lt (h : c ≠ []) : c.nextSlot < c.length := (nextSlot_spec h).1

theorem entry_set (c : Cache) (i j : ℕ) (e : Entry) :
    entry (c.set i e) j = if i = j ∧ j < c.length then e else c.entry j := by
  rw [entry, entry, getElem?_set]
  split_ifs <;> simp_all

@[simp] theorem length_age (c : Cache) : c.age.length = c.length := length_map _

theorem entry_age (s : Cache) (j : ℕ) : s.age.entry j = (s.entry j).grow := by
  rw [entry, entry, age, getElem?_map]
  cases s[j]? <;> rfl

def place (c : Cache) (e : Entry) : Cache := c.age.set c.nextSlot e

theorem acquire_set {c' : Cache} {i : ℕ} (h : c.acquireNext = .ok (c', i)) (e : Entry) :
    c'.set i e = c.place e ∧ c'.entry i = {} := by
  unfold acquireNext at h
  split at h
  · rename_i hlt
    cases h
    refine ⟨by rw [place, set_set], ?_⟩
    rw [entry_set, if_pos ⟨rfl, by simpa using hlt⟩]
  · cases h

def earlier (c : Cache) (p : Bytes) : Option ℕ := (c.take c.nextSlot).findIdx? (Entry.isFor p)

theorem findIdx?_age (c : Cache) (p : Bytes) : findIdx? (isFor p) c.age = c.findIdx? (isFor p) := by
  rw [age, findIdx?_map]
  congr 1
  funext e
  simp only [Function.comp, grow]
  split <;> rfl

theorem findIdx?_place (h : c.nextSlot < c.length) (he : e.isFor p) :
    findIdx? (isFor p) (c.place e) = some ((c.earlier p).getD c.nextSlot) := by
  have hlen : (c.age.take c.nextSlot).length = c.nextSlot := by
    rw [length_take, length_age]
    omega
  have htake : c.age.take c.nextSlot = age (c.take c.nextSlot) := by rw [age, age, map_take]
  rw [place, set_eq_take_append_cons_drop, if_pos (by simpa using h),
    findIdx?_append, htake, findIdx?_age]
  unfold earlier
  cases findIdx? (isFor p) (c.take c.nextSlot) with
  | some j => rfl
  | none =>
    rw [← htake, hlen, findIdx?_cons, he]
    simp

theorem entry_place (h : c.nextSlot < c.length) (e : Entry) : (c.place e).entry c.nextSlot = e := by
  rw [place, entry_set, if_pos ⟨rfl, by simpa using h⟩]

theorem entry_place_earlier {j : ℕ} (h : c.earlier p = some j) (e : Entry) :
    (c.place e).entry j = (c.entry j).grow := by
  obtain ⟨hj, -, -⟩ := findIdx?_eq_some_iff_getElem.1 h
  rw [length_take] at hj
  have hne : c.nextSlot ≠ j := by omega
  rw [place, entry_set, if_neg fun hj => hne hj.1, entry_age]

/-- The first slot before the new one that speaks for the address maps it to the same hardware
address. -/
def Agrees (c : Cache) (p mac : Bytes) : Prop :=
  ∀ j, c.earlier p = some j → (c.entry j).flags.incomplete = false ∧ (c.entry j).mac.bytes = mac

instance (c : Cache) (p mac : Bytes) : Decidable (c.Agrees p mac) :=
  inferInstanceAs (Decidable (∀ j ∈ c.earlier p, _ ∧ _))

def Idle (c : Cache) : Prop := ∀ e ∈ c, e.flags.inUse = false

instance (c : Cache) : Decidable c.Idle := inferInstanceAs (Decidable (∀ e ∈ c, _))

/-- What the first slot for an address says: nothing while its query is open. -/
def shown (c : Cache) (p : Bytes) : Option (Option Bytes) :=
  (c.findIdx? (Entry.isFor p)).map fun i =>
    if (c.entry i).flags.incomplete then none else some (c.entry i).mac.bytes

/-- A new complete entry is what is shown iff the earlier slots agree. -/
theorem shown_place (h : c ≠ []) (he : e.isFor p) (hcomplete : e.flags.incomplete = false) :
    shown (c.place e) p = some (some e.mac.bytes) ↔ c.Agrees p e.mac.bytes := by
  have hlt := nextSlot_lt h
  rw [shown, findIdx?_place hlt he, Option.map_some]
  unfold Agrees
  cases hearlier : c.earlier p with
  | none =>
    rw [Option.getD_none, entry_place hlt, hcomplete]
    simp
  | some j =>
    rw [Option.getD_some, entry_place_earlier hearlier, flags_grow, mac_grow]
    cases hinc : (c.entry j).flags.incomplete <;> simp [hinc]

theorem not_idle_place (h : c ≠ []) (he : e.flags.inUse) : ¬Idle (c.place e) := by
  intro hidle
  have hmem : e ∈ c.place e := mem_set (by simpa using nextSlot_lt h) _
  rw [hidle e hmem] at he
  cases he

theorem findIdx?_destroy {i : ℕ} (h : c.findIdx? (isFor p) = some i) :
    findIdx? (isFor p) (c.set i {}) = none ↔ c.countP (isFor p) ≤ 1 := by
  obtain ⟨hi, hfor, -⟩ := findIdx?_eq_some_iff_getElem.1 h
  have hempty : isFor p {} = false := rfl
  have hpos : 0 < c.countP (isFor p) := countP_pos_iff.2 ⟨_, getElem_mem hi, hfor⟩
  have hcount := countP_set (p := isFor p) (a := {}) hi
  rw [hfor, hempty, if_pos rfl, if_neg Bool.false_ne_true] at hcount
  have hnone : findIdx? (isFor p) (c.set i {}) = none ↔
      (c.set i {}).countP (isFor p) = 0 := by
    simp
  rw [hnone, hcount]
  omega

theorem idle_reset (c : Cache) (size : ℕ) : Idle (c.reset size) ↔ c.length < size ∨ c.Idle := by
  unfold reset
  split
  · rename_i h
    refine ⟨fun _ => .inl h, fun _ e he => ?_⟩
    rw [eq_of_mem_replicate he]
  · rename_i h
    exact ⟨.inr, fun hor => hor.resolve_left h⟩

theorem findIdx?_idle (h : c.Idle) (p : Bytes) : c.findIdx? (isFor p) = none := by
  rw [findIdx?_eq_none_iff]
  intro e he
  rw [isFor, h e he, Bool.false_and]

theorem getNextFlagged_idle (h : c.Idle) (has : Flags → Bool) : c.getNextFlagged has = none := by
  rw [getNextFlagged, findIdx?_eq_none_iff]
  intro e he
  rw [h e he, Bool.false_and]

/-- A cache in which no address is found is idle: a slot speaks for its own address. -/
theorem idle_of_findIdx? (h : ∀ p : Bytes, p.length = 16 → c.findIdx? (isFor p) = none) :
    c.Idle := by
  intro e he
  have hnone := findIdx?_eq_none_iff.1 (h e.addr e.wide) e he
  rwa [isFor_wide e.wide, beq_self_eq_true, Bool.and_true] at hnone

end Cache

/-- What is done to a cache: a slot is acquired and used, rewritten in place, or destroyed. -/
inductive CacheOp where
  | acquire (e : Entry)
  | rewrite (i : ℕ) (mac : Mac6) (flags : Flags)
  | destroy (i : ℕ)

/-- Beside the cache, `born` is the number of the acquisition that filled a slot and `clock` that of
the last one. -/
structure Aged where
  cache : Cache
  born : ℕ → ℕ
  clock : ℕ

namespace Aged

open Cache

def step (s : Aged) : CacheOp → Except Fault Aged
  | .acquire e => do
    let (c, i) ← s.cache.acquireNext
    return { cache := c.set i { e with age := 0 }
             born := Function.update s.born i (s.clock + 1)
             clock := s.clock + 1 }
  | .rewrite i mac flags =>
    let e := s.cache.entry i
    let flags := { flags with inUse := e.flags.inUse && flags.inUse }
    .ok { s with cache := s.cache.set i { e with mac, flags } }
  | .destroy i => .ok { s with cache := s.cache.set i {} }

/-- The age of a slot in use is the number of acquisitions since its own, up to 255. -/
def Dated (s : Aged) : Prop :=
  ∀ i, (s.cache.entry i).flags.inUse = true →
    s.born i ≤ s.clock ∧ (s.cache.entry i).age = min 255 (s.clock - s.born i)

theorem step_dated (s : Aged) (op : CacheOp) (s' : Aged) (h : Dated s)
    (hstep : step s op = .ok s') : Dated s' := by
  cases op with
  | acquire e =>
    by_cases hlt : s.cache.nextSlot < s.cache.length
    · rw [step, acquireNext, if_pos hlt] at hstep
      cases hstep
      intro j hused
      dsimp only at hused ⊢
      rw [set_set, entry_set, entry_age] at hused ⊢
      split_ifs at hused ⊢ with hj
      · rw [← hj.1, Function.update_self]
        simp
      have hne : j ≠ s.cache.nextSlot := by
        rintro rfl
        exact hj ⟨rfl, by simpa using hlt⟩
      rw [flags_grow] at hused
      obtain ⟨hborn, hage⟩ := h j hused
      rw [Function.update_of_ne hne, grow, hused]
      grind
    · rw [step, acquireNext, if_neg hlt] at hstep
      cases hstep
  | rewrite i mac flags =>
    cases hstep
    intro j hused
    rw [entry_set] at hused ⊢
    split_ifs at hused ⊢ with hij
    · rw [hij.1] at hused ⊢
      exact h j (Bool.and_eq_true_iff.1 hused).1
    · exact h j hused
  | destroy i =>
  cases hstep
  intro j hused
  rw [entry_set] at hused ⊢
  split_ifs at hused ⊢
  exact h j hused

/-- A slot is given up in the order of the documentation, the others only age; and of the slots
without priority that were filled less than 255 acquisitions ago, the first to be filled goes
first. -/
theorem evicts_in_order : (∀ c : Cache, c ≠ [] → ∃ c' i, c.acquireNext = .ok (c', i) ∧
      i < c.length ∧ c.Chosen i ∧ c'.length = c.length ∧ c'.entry i = {} ∧
      ∀ j, j ≠ i → c'.entry j = (c.entry j).grow) ∧
    ∀ (c₀ : Cache) (ops : List CacheOp) (s : Aged), c₀.Idle →
      GuardedRuns.exec step ⟨c₀, fun _ => 0, 0⟩ ops = .ok s → ∀ i, i < s.cache.length →
        (s.cache.entry i).hasPriority = false → s.clock - s.born i < 255 →
        (s.cache.entry s.cache.nextSlot).flags.inUse = true →
        (s.cache.entry s.cache.nextSlot).hasPriority = false ∧
          s.born s.cache.nextSlot ≤ s.born i := by
  constructor
  · intro c hc
    obtain ⟨hlt, hchosen⟩ := nextSlot_spec hc
    refine ⟨_, _, if_pos hlt, hlt, hchosen, by simp, ?_, fun j hj => ?_⟩
    · rw [entry_set, if_pos ⟨rfl, by simpa using hlt⟩]
    · rw [entry_set, if_neg fun h => hj h.1.symm, entry_age]
  intro c₀ ops s hidle hrun i hi hpass hrecent hused
  have hstart : Dated ⟨c₀, fun _ => 0, 0⟩ := by
    intro j hj
    rw [entry] at hj
    cases hget : c₀[j]? with
    | none =>
      rw [hget] at hj
      cases hj
    | some e =>
      rw [hget] at hj
      cases (hidle e (mem_of_getElem? hget)).symm.trans hj
  have hdated := GuardedRuns.exec_always step_dated ops _ s hstart hrun
  have hmem : s.cache.entry i ∈ s.cache := by
    rw [entry, getElem?_eq_getElem hi]
    exact getElem_mem hi
  rcases (nextSlot_spec (ne_nil_of_mem hmem)).2 with hfree | ⟨hall, ⟨hnext, hmax⟩ | ⟨hprio, -⟩⟩
  · cases hfree.symm.trans hused
  · have hle := hmax _ hmem hpass
    have h1 := hdated i (hall _ hmem)
    have h2 := hdated _ hused
    exact ⟨hnext, by omega⟩
  · cases (hprio _ hmem).symm.trans hpass

/-- Two slots filled one after the other, the later one in front, outlive 256 acquisitions. -/
def outlived : List CacheOp :=
  let e : Entry := { flags.inUse := true }
  [.acquire e, .acquire e, .destroy 0, .acquire e] ++
    (replicate 256 [.acquire e, .destroy 2]).flatten ++ [.acquire e]

/-- Both ages are then 255, and the slot filled second is given up first. -/
theorem evicts_out_of_order :
    ∃ s, GuardedRuns.exec step ⟨replicate 3 {}, fun _ => 0, 0⟩ outlived = .ok s ∧
      (∀ i < 3, (s.cache.entry i).flags.inUse = true ∧ (s.cache.entry i).hasPriority = false) ∧
      s.cache.nextSlot = 0 ∧ s.born 0 = s.born 1 + 1 :=
  GuardedRuns.exists_exec (by decide +kernel)

end Aged

end Lneto.AddressCache
