import Lneto.Segments
import Mathlib.Tactic.Common

/-!
SYN cookies: the initial sequence number of a SYN-ACK is a keyed hash of the connection
and of a counter, whose low bits it carries. A cookie stays valid for a number of
increments of the counter.
-/
namespace Lneto.SynCookies

open Segments BitVec

abbrev Byte := BitVec 8

def counterbits : ℕ := 5
def countermsk : Value := 31

structure SynCookieJar where
  counter : Value
  maxCounterDelta : Value
  secret : List Byte
  secret_length : secret.length = 16

structure Tuple where
  srcAddr : List Byte
  dstAddr : List Byte
  srcPort : BitVec 16
  dstPort : BitVec 16
  clientISN : Value

structure Lanes where
  h0 : Value
  h1 : Value
  h2 : Value
  h3 : Value

def rotl32 (x : Value) (n : ℕ) : Value := x <<< n ||| x >>> (32 - n)

def mixRound (l : Lanes) : Lanes :=
  let a := l.h0 + l.h1
  let d := rotl32 (l.h3 ^^^ a) 16
  let c := l.h2 + d
  let b := rotl32 (l.h1 ^^^ c) 12
  let a := a + b
  let d := rotl32 (d ^^^ a) 8
  let c := c + d
  ⟨a, rotl32 (b ^^^ c) 7, c, d⟩

/-- Up to four bytes, the lowest first. -/
def littleEndian (bytes : List Byte) : Value :=
  bytes.foldr (fun b word => word <<< 8 ||| b.setWidth 32) 0

/-- An address: a round after each full word, none after what remains. -/
def mixAddr (put : Value → Lanes → Lanes) : List Byte → Lanes → Lanes
  | b0 :: b1 :: b2 :: b3 :: rest, l =>
    mixAddr put rest (mixRound (put (littleEndian [b0, b1, b2, b3]) l))
  | [], l => l
  | last, l => put (littleEndian last) l

namespace SynCookieJar

/-- Reset with what the configured reader has to give, which may be too short for the
secret; true when it succeeds. -/
def reset (sc : SynCookieJar) (rand : Option (List Byte)) (maxCounterDelta : Value) :
    SynCookieJar × Bool :=
  match rand with
  | none => (sc, false)
  | some bytes =>
    let sc := { sc with
      secret := bytes.take 16 ++ sc.secret.drop bytes.length
      secret_length := by have := sc.secret_length; simp; omega }
    if bytes.length < 16 then (sc, false)
    else ({ sc with maxCounterDelta := if maxCounterDelta = 0 then 1 else maxCounterDelta }, true)

def incrementCounter (sc : SynCookieJar) : SynCookieJar := { sc with counter := sc.counter + 1 }

variable (sc : SynCookieJar) (t : Tuple)

def hashTuple (counter : Value) : Value :=
  let word := fun i => littleEndian ((sc.secret.drop i).take 4)
  let l : Lanes := ⟨word 0 ^^^ (t.srcPort.setWidth 32 ||| t.dstPort.setWidth 32 <<< 16),
    word 4 ^^^ t.clientISN, word 8 ^^^ counter, word 12⟩
  let l := mixAddr (fun w l => { l with h3 := l.h3 ^^^ w }) t.srcAddr l
  let l := mixAddr (fun w l => { l with h0 := l.h0 ^^^ w }) t.dstAddr l
  let l := mixRound (mixRound l)
  l.h0 ^^^ l.h1 ^^^ l.h2 ^^^ l.h3

def generateWithCounter (counter : Value) : Value :=
  sc.hashTuple t counter <<< counterbits ||| counter &&& countermsk

def makeSYNCookie : Value := sc.generateWithCounter t sc.counter

/-- The loop of ValidateSYNCookie: none while it runs, then the cookie or the error. -/
def validateFrom (cookie : Value) : ℕ → Value → Option (Option Value)
  | 0, _ => none
  | rounds + 1, delta =>
    if delta ≤ sc.maxCounterDelta then
      let tryCounter := sc.counter - delta
      if tryCounter &&& countermsk ≠ cookie &&& countermsk then
        validateFrom cookie rounds (delta + 1)
      else if sc.generateWithCounter t tryCounter = cookie then some (some cookie)
      else validateFrom cookie rounds (delta + 1)
    else some none

def validateSYNCookie (ackNum : Value) (rounds : ℕ) : Option (Option Value) :=
  sc.validateFrom t (ackNum - 1) rounds 0

theorem generateWithCounter_bits (counter : Value) :
    sc.generateWithCounter t counter &&& countermsk = counter &&& countermsk := by
  have hshift : sc.hashTuple t counter <<< counterbits &&& countermsk = 0 := by
    apply eq_of_toNat_eq
    rw [toNat_and, toNat_shiftLeft, Nat.shiftLeft_eq]
    refine (Nat.and_two_pow_sub_one_eq_mod _ 5).trans ?_
    show _ = 0
    simp only [counterbits]
    omega
  rw [generateWithCounter, and_or_distrib_right, hshift, BitVec.and_assoc, BitVec.and_self]
  exact zero_or

/-- One round: the counter bits only spare a hash. -/
theorem validateFrom_succ (cookie : Value) (rounds : ℕ) (delta : Value) :
    sc.validateFrom t cookie (rounds + 1) delta = if delta ≤ sc.maxCounterDelta then
        if sc.generateWithCounter t (sc.counter - delta) = cookie then some (some cookie)
        else sc.validateFrom t cookie rounds (delta + 1) else some none := by
  rw [validateFrom]
  by_cases heq : sc.generateWithCounter t (sc.counter - delta) = cookie
  · rw [← heq, sc.generateWithCounter_bits]
    simp
  · simp [heq]

theorem toNat_next {delta d : Value} (h : delta.toNat < d.toNat) :
    (delta + 1).toNat = delta.toNat + 1 := by
  exact Nat.mod_eq_of_lt (lt_of_le_of_lt h d.isLt)

/-- A cookie that some delta from here on reproduces is accepted. -/
theorem validateFrom_accepts {cookie d : Value} (hmax : d ≤ sc.maxCounterDelta)
    (heq : sc.generateWithCounter t (sc.counter - d) = cookie) (n : ℕ) {delta : Value}
    (hd : delta.toNat + n = d.toNat) :
    sc.validateFrom t cookie (n + 1) delta = some (some cookie) := by
  rw [le_def] at hmax
  induction n generalizing delta with
  | zero =>
    obtain rfl : delta = d := eq_of_toNat_eq hd
    rw [validateFrom_succ, if_pos (le_def.mpr hmax), if_pos heq]
  | succ n ih =>
  rw [validateFrom_succ, if_pos (le_def.mpr (by omega))]
  split_ifs
  · rfl
  · exact ih (by rw [toNat_next (d := d) (by omega)]; omega)

theorem validateFrom_sound {cookie c : Value} (rounds : ℕ) {delta : Value}
    (h : sc.validateFrom t cookie rounds delta = some (some c)) :
    c = cookie ∧ ∃ d ≤ sc.maxCounterDelta, sc.generateWithCounter t (sc.counter - d) = c := by
  induction rounds generalizing delta with
  | zero => cases h
  | succ rounds ih =>
    rw [validateFrom_succ] at h
    split_ifs at h with hle heq
    · cases h
      exact ⟨rfl, delta, hle, heq⟩
    · exact ih h
    · cases h

theorem validateFrom_stops {cookie d : Value} (hmax : sc.maxCounterDelta.toNat < d.toNat) (n : ℕ)
    {delta : Value} (hd : delta.toNat + n = d.toNat) :
    (sc.validateFrom t cookie (n + 1) delta).isSome := by
  induction n generalizing delta with
  | zero =>
    rw [validateFrom_succ, if_neg (by rw [le_def]; omega)]
    rfl
  | succ n ih =>
  rw [validateFrom_succ]
  split_ifs
  · rfl
  · exact ih (by rw [toNat_next (d := d) (by omega)]; omega)
  · rfl

/-- The widest window has no end: only a counter of the cookie stops the loop. -/
theorem validateFrom_loops {cookie : Value} (hmax : sc.maxCounterDelta = allOnes 32)
    (hnone : ∀ counter, sc.generateWithCounter t counter ≠ cookie) (rounds : ℕ) (delta : Value) :
    sc.validateFrom t cookie rounds delta = none := by
  induction rounds generalizing delta with
  | zero => rfl
  | succ rounds ih =>
    rw [validateFrom_succ, hmax, if_pos (le_def.mpr (Nat.le_pred_of_lt delta.isLt)),
      if_neg (hnone _), ih]

/-- Validation ends unless the window is the whole range and no counter gives the cookie. -/
theorem validation_ends_iff (ackNum : Value) :
    (∃ rounds, (sc.validateSYNCookie t ackNum rounds).isSome = true) ↔
      sc.maxCounterDelta ≠ allOnes 32 ∨
        ∃ counter, sc.generateWithCounter t counter = ackNum - 1 := by
  by_cases hmax : sc.maxCounterDelta = allOnes 32
  · constructor
    · rintro ⟨rounds, hends⟩
      by_contra! hnone
      rw [validateSYNCookie, sc.validateFrom_loops t hmax hnone.2] at hends
      cases hends
    · rintro (hne | ⟨counter, heq⟩)
      · exact absurd hmax hne
      · refine ⟨_, Option.isSome_of_eq_some (sc.validateFrom_accepts t (d := sc.counter - counter)
          ?_ ?_ _ (Nat.zero_add _))⟩
        · rw [hmax]
          exact le_def.mpr (Nat.le_pred_of_lt (BitVec.isLt _))
        · rw [show sc.counter - (sc.counter - counter) = counter by bv_omega, heq]
  · have hne : sc.maxCounterDelta.toNat ≠ (allOnes 32).toNat :=
      fun heq => hmax (eq_of_toNat_eq heq)
    rw [toNat_allOnes] at hne
    have hnext := @toNat_next sc.maxCounterDelta (allOnes 32) (by
      rw [toNat_allOnes]
      omega)
    exact iff_of_true
      ⟨_, sc.validateFrom_stops t (d := sc.maxCounterDelta + 1) (by omega) _ (Nat.zero_add _)⟩
      (.inl hmax)

theorem iterate_incrementCounter (k : ℕ) :
    incrementCounter^[k] sc = { sc with counter := sc.counter + BitVec.ofNat 32 k } := by
  induction k with
  | zero => simp
  | succ k ih =>
    rw [Function.iterate_succ_apply', ih, ofNat_add, ← BitVec.add_assoc]
    rfl

/-- A cookie is accepted for as many increments as configured, only cookies of the counters
in that window are, and validation ends unless the window is the whole range and the cookie none
of its own. -/
theorem cookies_complete_and_sound {k : ℕ} (hk : k ≤ sc.maxCounterDelta.toNat) :
    (∃ rounds, (incrementCounter^[k] sc).validateSYNCookie t (sc.makeSYNCookie t + 1) rounds =
      some (some (sc.makeSYNCookie t))) ∧
    (∀ ackNum rounds c, sc.validateSYNCookie t ackNum rounds = some (some c) →
      c = ackNum - 1 ∧ ∃ d ≤ sc.maxCounterDelta, sc.generateWithCounter t (sc.counter - d) = c) ∧
    ∀ ackNum, (∃ rounds, (sc.validateSYNCookie t ackNum rounds).isSome = true) ↔
      sc.maxCounterDelta ≠ allOnes 32 ∨
        ∃ counter, sc.generateWithCounter t counter = ackNum - 1 := by
  have hnat : (BitVec.ofNat 32 k).toNat = k := Nat.mod_eq_of_lt (by omega)
  refine ⟨⟨k + 1, ?_⟩, fun _ _ _ => sc.validateFrom_sound t _, sc.validation_ends_iff t⟩
  rw [iterate_incrementCounter, validateSYNCookie, BitVec.add_sub_cancel]
  refine validateFrom_accepts _ t (d := BitVec.ofNat 32 k) ?_ ?_ k ?_
  · rwa [le_def, hnat]
  · rw [BitVec.add_sub_cancel]
    rfl
  · rw [hnat]
    exact Nat.zero_add k

def zeroJar (maxCounterDelta : Value) : SynCookieJar := ⟨0, maxCounterDelta, .replicate 16 0, rfl⟩

def browser : Tuple := ⟨[10, 0, 0, 2], [10, 0, 0, 1], 49152, 80, 1000⟩

theorem cookies_complete_and_sound_once : ∃ rounds,
    (zeroJar 1).incrementCounter.validateSYNCookie browser
      ((zeroJar 1).makeSYNCookie browser + 1) rounds =
      some (some ((zeroJar 1).makeSYNCookie browser)) :=
  (cookies_complete_and_sound (zeroJar 1) browser (k := 1) (by decide)).1

/-- Two counters share a cookie, so some other cookie has no counter at all. -/
theorem exists_cookie_of_no_counter : ∃ cookie, ∀ counter,
    (zeroJar (allOnes 32)).generateWithCounter browser counter ≠ cookie := by
  by_contra! hall
  have : Finite Value := .of_injective toFin fun _ _ => eq_of_toFin_eq
  have hinj := Finite.injective_iff_surjective.mpr hall
  exact absurd (@hinj 64237 80973 (by decide +kernel)) (by decide)

/-- Reset accepts the widest window, with which the validation of some cookie never ends. -/
theorem validation_never_ends :
    (zeroJar 1).reset (some (.replicate 16 0)) (allOnes 32) = (zeroJar (allOnes 32), true) ∧
    ∃ ackNum, ∀ rounds, (zeroJar (allOnes 32)).validateSYNCookie browser ackNum rounds = none := by
  obtain ⟨cookie, hnone⟩ := exists_cookie_of_no_counter
  refine ⟨rfl, cookie + 1, fun rounds => ?_⟩
  rw [validateSYNCookie, BitVec.add_sub_cancel]
  exact validateFrom_loops _ browser rfl hnone rounds 0

end SynCookieJar

end Lneto.SynCookies
