import Lneto.NtpFrame

/-!
The time client: two exchanges with a server, each of which gives an offset and a
round trip, and their averages. The arithmetic of the time stamps notes its overflows.
-/
namespace Lneto.NtpClient

open NtpFrame TracedInts Regions
open Views (Fault carried carried_inside)
open UInt32 (ofNat ofInt toNat_add)

namespace Timestamp

def sub (t v : Timestamp) : Traced ℤ := do
  let dsec ← int64 ((t.sec.toNat : ℤ) - v.sec.toNat)
  let dfra ← int64 ((t.fra.toNat : ℤ) - v.fra.toNat)
  let scaled ← uint64 (dfra.natAbs * second)
  let size ← int64 (scaled / maxUint32)
  let part ← int64 (if dfra < 0 then -size else size)
  let whole ← int64 (dsec * second)
  int64 (whole + part)

def add (t : Timestamp) (d : ℤ) : Traced Timestamp := do
  let rest ← uint64 (d.tmod second)
  let scaled ← uint64 (rest * maxUint32)
  let more := UInt32.ofNat (scaled / second).toNat
  let carry : UInt32 := if 2 ^ 32 ≤ t.fra.toNat + more.toNat then 1 else 0
  pure ⟨t.sec + (UInt32.ofInt (d.tdiv second) + carry), t.fra + more⟩

/-- The time of a stamp, as it is shown. -/
def time (t : Timestamp) : Traced ℤ := do
  let whole ← int64 (second * t.sec.toNat)
  let scaled ← int64 (second * t.fra.toNat)
  let off ← int64 (whole + scaled / maxUint32)
  pure (baseTime + off)

def uint64 (t : Timestamp) : ℕ := t.sec.toNat * 2 ^ 32 + t.fra.toNat

/-- The time that is `d` after a stamp is one of era 0. -/
def Reaches (s : Timestamp) (d : ℤ) : Prop :=
  0 ≤ uint64 s * second + d * 4294967296 ∧
    uint64 s * second + d * 4294967296 < 18446744073709551616 * second

instance (s : Timestamp) (d : ℤ) : Decidable (Reaches s d) := inferInstanceAs (Decidable (_ ∧ _))

/-- The time a stamp stands for, in parts of a nanosecond of which 2^32-1 make one. -/
def value (t : Timestamp) : ℤ :=
  (t.sec.toNat : ℤ) * (1000000000 * 4294967295) + t.fra.toNat * 1000000000

/-- The stamp of a time of era 0, up to three fractions of a second too early. -/
structure Marks (s : Timestamp) (t : ℤ) : Prop where
  low : 0 ≤ t
  high : t < 4294967296 * 1000000000
  early : t * 4294967295 - 3000000000 < value s
  late : value s ≤ t * 4294967295

theorem sub_eq (t v : Timestamp) : sub t v = pure (((t.sec.toNat : ℤ) - v.sec.toNat) * 1000000000 +
      if (t.fra.toNat : ℤ) - v.fra.toNat < 0 then
        -((((t.fra.toNat : ℤ) - v.fra.toNat).natAbs * 1000000000 : ℤ) / 4294967295)
      else (((t.fra.toNat : ℤ) - v.fra.toNat).natAbs * 1000000000 : ℤ) / 4294967295) := by
  have ht := t.sec.toNat_lt
  have hv := v.sec.toNat_lt
  have ht' := t.fra.toNat_lt
  have hv' := v.fra.toNat_lt
  unfold sub second maxUint32
  rw [int64_exact (by omega) (by omega), pure_then, int64_exact (by omega) (by omega), pure_then,
    uint64_exact (by omega) (by omega), pure_then, int64_exact (by omega) (by omega), pure_then,
    int64_exact (by omega) (by omega), pure_then, int64_exact (by omega) (by omega), pure_then,
    int64_exact (by omega) (by omega)]

theorem sub_value (t v : Timestamp) :
    ∃ d, sub t v = pure d ∧ value t - value v - 4294967295 < d * 4294967295 ∧
      d * 4294967295 < value t - value v + 4294967295 := by
  unfold value
  exact ⟨_, sub_eq t v, by omega, by omega⟩

theorem time_value (s : Timestamp) :
    ∃ t, time s = pure t ∧ value s - 4294967295 < t * 4294967295 ∧ t * 4294967295 ≤ value s := by
  have hs := s.sec.toNat_lt
  have hs' := s.fra.toNat_lt
  unfold time value second maxUint32 baseTime
  rw [int64_exact (by omega) (by omega), pure_then, int64_exact (by omega) (by omega), pure_then,
    int64_exact (by omega) (by omega), pure_then]
  exact ⟨_, rfl, by omega, by omega⟩

theorem toNat_word {x : ℤ} (hlow : 0 ≤ x) (hhigh : x < 4294967296) :
    ((ofNat x.toNat).toNat : ℤ) = x := by
  rw [UInt32.toNat_ofNat', Nat.mod_eq_of_lt (by omega)]
  exact Int.toNat_of_nonneg hlow

section
variable {t : ℤ} {s : Timestamp} (hlow : 0 ≤ t) (hhigh : t < 4294967296 * 1000000000)
  (h : stamp t = .ok s)
include hlow hhigh h

theorem stamp_fields : (s.sec.toNat : ℤ) = t / 1000000000 ∧
      (s.fra.toNat : ℤ) = t % 1000000000 * 4294967295 / 1000000000 := by
  rw [stamp, timestampFromTime_ok hlow hhigh] at h
  cases h
  exact ⟨toNat_word (by omega) (by omega), toNat_word (by omega) (by omega)⟩

theorem marks_stamp : Marks s t := by
  obtain ⟨hsec, hfra⟩ := stamp_fields hlow hhigh h
  refine ⟨hlow, hhigh, ?_, ?_⟩
  all_goals
    rw [value, hsec, hfra]
    omega

end

theorem sub_marks {s s' : Timestamp} {t t' : ℤ} (h : Marks s t) (h' : Marks s' t') :
    ∃ d, sub s s' = pure d ∧ t - t' - 1 ≤ d ∧ d ≤ t - t' + 1 := by
  obtain ⟨d, hsub, hlow, hhigh⟩ := sub_value s s'
  obtain ⟨-, -, hearly, hlate⟩ := h
  obtain ⟨-, -, hearly', hlate'⟩ := h'
  exact ⟨d, hsub, by omega, by omega⟩

theorem toNat_add_ofInt (a c : UInt32) (q : ℤ) :
    ((a + (ofInt q + c)).toNat : ℤ) = (a.toNat + q + c.toNat) % 4294967296 := by
  have hwhole : ((ofInt q).toNat : ℤ) = q % 4294967296 := by
    rw [ofInt]
    exact toNat_word (by omega) (by omega)
  rw [toNat_add, toNat_add]
  omega

theorem add_value {s : Timestamp} {d : ℤ} (hd : 0 ≤ d.tmod second) (h : Reaches s d) :
    ∃ s', add s d = pure s' ∧ value s + d * 4294967295 - 2000000000 < value s' ∧
      value s' ≤ value s + d * 4294967295 := by
  have hdiv := Int.mul_tdiv_add_tmod d second
  have hlt : d.tmod second < second := Int.tmod_lt_of_pos d (by decide)
  have hsign : d < 0 → d.tmod second ≤ 0 := by
    intro hneg
    have hrest := Int.tmod_nonneg second (show 0 ≤ -d by omega)
    rw [Int.neg_tmod] at hrest
    omega
  obtain ⟨hlow, hhigh⟩ := h
  unfold add
  generalize d.tdiv second = q at *
  generalize d.tmod second = r at *
  unfold uint64 at hlow hhigh
  unfold second at *
  unfold maxUint32
  have hmore := @toNat_word (r * 4294967295 / 1000000000) (by omega) (by omega)
  rw [uint64_exact (by omega) (by omega), pure_then, uint64_exact (by omega) (by omega), pure_then]
  generalize ofNat (r * 4294967295 / 1000000000).toNat = more at hmore
  have hs' := s.fra.toNat_lt
  refine ⟨_, rfl, ?_⟩
  split_ifs with hcarry
  · have hsec : ((s.sec + (ofInt q + 1)).toNat : ℤ) = s.sec.toNat + q + 1 := by
      rw [toNat_add_ofInt, UInt32.toNat_one]
      omega
    have hfra : (s.fra + more).toNat + 4294967296 = s.fra.toNat + more.toNat := by
      rw [toNat_add]
      omega
    simp only [value, hsec]
    omega
  · have hsec : ((s.sec + (ofInt q + 0)).toNat : ℤ) = s.sec.toNat + q + 0 := by
      rw [toNat_add_ofInt, UInt32.toNat_zero]
      omega
    have hfra : (s.fra + more).toNat = s.fra.toNat + more.toNat := by
      rw [toNat_add]
      omega
    simp only [value, hsec, hfra]
    omega

/-- A negative part below a second is taken as one near 2^64, which adds 0.29 or 1.29 s. -/
theorem add_value_back {s : Timestamp} {d : ℤ} (hd : d.tmod second < 0) (h : Reaches s d) :
    value (add s d).val < value s + (d - 3) * 4294967295 ∨
      value s + (d + 3) * 4294967295 < value (add s d).val := by
  have hdiv := Int.mul_tdiv_add_tmod d second
  have hlt : -second < d.tmod second := by
    have hrest := Int.tmod_lt_of_pos (-d) (show 0 < second by decide)
    rw [Int.neg_tmod] at hrest
    omega
  obtain ⟨hlow, hhigh⟩ := h
  have hadd : (add s d).val = ⟨s.sec + (ofInt (d.tdiv second) +
      if 2 ^ 32 ≤ s.fra.toNat + (ofNat (d.tmod second % 2 ^ 64 * maxUint32 % 2 ^ 64 /
        second).toNat).toNat then 1 else 0),
      s.fra + ofNat (d.tmod second % 2 ^ 64 * maxUint32 % 2 ^ 64 / second).toNat⟩ := rfl
  rw [hadd]
  generalize d.tdiv second = q at *
  generalize d.tmod second = r at *
  unfold uint64 at hlow hhigh
  unfold second maxUint32 at *
  have hscaled : r % 2 ^ 64 * 4294967295 % 2 ^ 64 = 2 ^ 64 + r * 4294967295 := by omega
  rw [hscaled]
  have hs := s.sec.toNat_lt
  have hs' := s.fra.toNat_lt
  have hmore := UInt32.toNat_ofNat' (n := ((2 ^ 64 + r * 4294967295) / 1000000000).toNat)
  generalize ofNat ((2 ^ 64 + r * 4294967295) / 1000000000).toNat = more at hmore ⊢
  have hfar : (more.toNat * 1000000000 : ℤ) - r * 4294967295 < 9900000000000000000 ∧
      1200000000000000000 < (more.toNat * 1000000000 : ℤ) - r * 4294967295 := by
    have hturns : (more.toNat : ℤ) = (2 ^ 64 + r * 4294967295) / 1000000000 - 12884901888 ∨
        (more.toNat : ℤ) = (2 ^ 64 + r * 4294967295) / 1000000000 - 17179869184 := by omega
    clear hmore
    rcases hturns with h | h
    all_goals
      rw [h]
      omega
  clear hmore hscaled hadd
  have hmore := more.toNat_lt
  rw [value, value, toNat_add_ofInt]
  split_ifs with hcarry
  · have hfra : ((s.fra + more).toNat : ℤ) = s.fra.toNat + more.toNat - 4294967296 := by
      rw [toNat_add]
      omega
    rw [hfra, UInt32.toNat_one]
    rcases lt_trichotomy ((s.sec.toNat + q + (1 : ℕ)) / 4294967296) 0 with h | h | h
    all_goals omega
  · have hfra : ((s.fra + more).toNat : ℤ) = s.fra.toNat + more.toNat := by
      rw [toNat_add]
      omega
    rw [hfra, UInt32.toNat_zero]
    rcases lt_trichotomy ((s.sec.toNat + q + (0 : ℕ)) / 4294967296) 0 with h | h | h
    all_goals omega

theorem add_marks {t d : ℤ} {s : Timestamp} (hlow : 0 ≤ t) (hd : 0 ≤ d)
    (hhigh : t + d < 4294967296 * 1000000000) (h : stamp t = .ok s) :
    ∃ s', add s d = pure s' ∧ Marks s' (t + d) := by
  obtain ⟨hsec, hfra⟩ := stamp_fields hlow (by omega) h
  have hreach : Reaches s d := by
    unfold Reaches uint64 second
    omega
  obtain ⟨s', hadd, hearly, hlate⟩ := add_value (Int.tmod_nonneg second hd) hreach
  unfold value at hearly hlate
  exact ⟨s', hadd, by omega, hhigh, by unfold value; omega, by unfold value; omega⟩

theorem stamps_measure (s s' : Timestamp) (d : ℤ) :
    (∀ t, 0 ≤ t → t < 4294967296 * 1000000000 → ∃ s t', timestampFromTime t = pure (.ok s) ∧
      time s = pure t' ∧ t - 2 ≤ t' ∧ t' ≤ t + 2) ∧
    (∀ t t', 0 ≤ t → t ≤ t' → t' < 4294967296 * 1000000000 → stamp t = .ok s →
      stamp t' = .ok s' → uint64 s ≤ uint64 s') ∧
    (∃ d, sub s s' = pure d ∧ sub s' s = pure (-d)) ∧
    (Reaches s d → (0 ≤ d.tmod second → (add s d).inRange = true) ∧
      (0 ≤ d.tmod second ↔
        ∃ d', sub (add s d).val s = pure d' ∧ d - 2 ≤ d' ∧ d' ≤ d + 2)) := by
  refine ⟨fun t hlow hhigh => ?_, fun t t' hlow hle hhigh h h' => ?_, ?_, fun hreach => ?_⟩
  · have hok := timestampFromTime_ok hlow hhigh
    obtain ⟨-, -, hearly, hlate⟩ := marks_stamp hlow hhigh (congrArg Traced.val hok)
    obtain ⟨t', htime, hlow', hhigh'⟩ := time_value _
    exact ⟨_, t', hok, htime, by omega, by omega⟩
  · obtain ⟨hsec, hfra⟩ := stamp_fields hlow (by omega) h
    obtain ⟨hsec', hfra'⟩ := stamp_fields (by omega) hhigh h'
    have hdiv : t / 1000000000 = t' / 1000000000 ∨ t / 1000000000 + 1 ≤ t' / 1000000000 := by omega
    unfold uint64
    rcases hdiv with hsame | hlater
    · omega
    · omega
  · refine ⟨_, sub_eq s s', (sub_eq s' s).trans (congrArg pure ?_)⟩
    omega
  · refine ⟨fun hd => ?_, fun hd => ?_, fun ⟨e, he, hclose⟩ => ?_⟩
    · obtain ⟨s', hadd, -⟩ := add_value hd hreach
      rw [hadd]
      rfl
    · obtain ⟨s', hadd, hearly, hlate⟩ := add_value hd hreach
      obtain ⟨d', hsub, hlow, hhigh⟩ := sub_value s' s
      rw [hadd]
      exact ⟨d', hsub, by omega, by omega⟩
    · obtain ⟨d', hsub, hlow, hhigh⟩ := sub_value (add s d).val s
      cases congrArg Traced.val (hsub.symm.trans he)
      by_contra! hneg
      have hfar := add_value_back hneg hreach
      omega

theorem stamps_measure_back : ∃ d', sub (add ⟨3, 7⟩ (-2000000000)).val ⟨3, 7⟩ = pure d' ∧
      -2000000000 - 2 ≤ d' ∧ d' ≤ -2000000000 + 2 :=
  ((stamps_measure _ ⟨0, 0⟩ _).2.2.2 (by decide)).2.1 (by decide)

/-- A nanosecond back is 0.29 s forward. -/
theorem back_is_forward : Reaches ⟨3, 7⟩ (-1) ∧
    (add ⟨3, 7⟩ (-1)).val = ⟨3, 1266874892⟩ ∧ sub ⟨3, 1266874892⟩ ⟨3, 7⟩ = pure 294967294 := by
  decide +kernel

end Timestamp

open Timestamp

inductive State where
  | closed
  | send1
  | await1
  | send2
  | await2
  | done
deriving DecidableEq, Repr

def zeroTime : ℤ := -59926608000 * second

/-- `t1` to `t4` are the stamps of the last exchange: request sent and received, reply sent and
received. -/
structure Client where
  connID : UInt64 := 0
  start : ℤ := zeroTime
  t1 : Timestamp := {}
  t2 : Timestamp := {}
  t3 : Timestamp := {}
  t4 : Timestamp := {}
  offset1 : ℤ := 0
  rtt1 : ℤ := 0
  state : State := .closed
  serverStratum : UInt8 := 0
  sysprec : UInt8 := 0

namespace Client

def reset (c : Client) (sysprec : UInt8) : Client :=
  { connID := c.connID + 1, sysprec, state := .send1 }

def isDone (c : Client) : Bool := c.state = .done

def request (c : Client) (frm : Frame) : Frame :=
  let frm := frm.clearHeader
  let frm := frm.setStratum stratumUnsync
  let frm := frm.setPoll 6
  let frm := frm.setPrecision c.sysprec
  let frm := frm.setTransmitTime c.t1
  frm.setFlags modeClient version4 leapNoWarning

def sendRequest (c : Client) (now : ℤ) (next : State) (frm : Frame) :
    Traced (Client × Except Err (Option Frame)) := do
  match ← timestampFromTime now with
  | .error e => pure ({ c with start := now, t1 := {} }, .error e)
  | .ok t1 =>
    let c := { c with start := now, t1, state := next }
    pure (c, .ok (some (c.request frm)))

def encapsulate (c : Client) (now : ℤ) (carrierData : Bytes) (offsetToFrame : ℤ) :
    Except Fault (Traced (Client × Except Err (Option Frame))) :=
  if c.isDone = true then .ok (pure (c, .ok none))
  else do
    let payload ← carried carrierData offsetToFrame
    match newFrame payload with
    | .error e => return pure (c, .error e)
    | .ok frm =>
      match c.state with
      | .send1 => return c.sendRequest now .await1 frm
      | .send2 => return c.sendRequest now .await2 frm
      | _ => return pure (c, .ok none)

def offset (c : Client) : Traced ℤ := do
  let there ← Timestamp.sub c.t2 c.t1
  let back ← Timestamp.sub c.t3 c.t4
  let both ← int64 (there + back)
  int64 (both.tdiv 2)

def rtt (c : Client) : Traced ℤ := do
  let away ← Timestamp.sub c.t4 c.t1
  let held ← Timestamp.sub c.t3 c.t2
  int64 (away - held)

def average (a b : ℤ) : Traced ℤ := do
  let both ← int64 (a + b)
  int64 (both.tdiv 2)

def stamped (c : Client) (frm : Frame) (t4 : Timestamp) : Client :=
  { c with t2 := frm.receiveTime, t3 := frm.transmitTime, t4 }

def receive (c : Client) (now : ℤ) (frm : Frame) : Traced (Client × Option Err) :=
  let xmt := frm.transmitTime
  let orig := frm.originTime
  if xmt = orig ∨ orig ≠ c.t1 then pure (c, some .packetDrop)
  else do
    let t4 ← Timestamp.add c.t1 (timeSub now c.start)
    let c := c.stamped frm t4
    let offset ← c.offset
    let rtt ← c.rtt
    if c.state = .await1 then
      pure ({ c with
        serverStratum := frm.stratum, offset1 := offset, rtt1 := rtt, state := .send2 }, none)
    else do
      -- the averages that are logged
      let _ ← average c.offset1 offset
      let _ ← average c.rtt1 rtt
      pure ({ c with state := .done }, none)

def demux (c : Client) (now : ℤ) (carrierData : Bytes) (frameOffset : ℤ) :
    Except Fault (Traced (Client × Option Err)) :=
  if c.isDone = true then .ok (pure (c, none))
  else do
    let payload ← carried carrierData frameOffset
    match newFrame payload with
    | .error e => return pure (c, some e)
    | .ok frm =>
      match c.state with
      | .await1 => return c.receive now frm
      | .await2 => return c.receive now frm
      | _ => return pure (c, none)

def offsetUnsynced (c : Client) : Traced ℤ :=
  if c.isDone = true then do
    let offset2 ← c.offset
    average c.offset1 offset2
  else pure 0

def roundTripDelay (c : Client) : Traced ℤ :=
  if c.isDone = true then do
    let rtt2 ← c.rtt
    average c.rtt1 rtt2
  else pure (-1)

end Client

open Client

/-- An exchange with a server whose clock is ahead by `theta`: when the request is sent, the delays
of both paths and the time the server holds it. -/
structure Exchange (theta : ℤ) where
  sent : ℤ
  there : ℤ
  hold : ℤ
  back : ℤ
  there_nonneg : 0 ≤ there
  hold_nonneg : 0 ≤ hold
  back_nonneg : 0 ≤ back
  client_low : 0 ≤ sent
  client_high : sent + there + hold + back < 4294967296 * 1000000000
  server_low : 0 ≤ sent + there + theta
  server_high : sent + there + theta + hold < 4294967296 * 1000000000

namespace Exchange

variable {theta : ℤ} (x : Exchange theta)

def arrival : ℤ := x.sent + x.there + theta

def departure : ℤ := x.arrival + x.hold

def received : ℤ := x.sent + x.there + x.hold + x.back

structure Reply (frm : Frame) : Prop where
  echoes : stamp x.sent = .ok frm.originTime
  receive : stamp x.arrival = .ok frm.receiveTime
  transmit : stamp x.departure = .ok frm.transmitTime

/-- An offset and a round trip as good as an exchange can give. -/
structure Near (offset rtt : ℤ) : Prop where
  offset : 2 * (offset - theta).natAbs ≤ (x.there - x.back).natAbs + 8
  rtt : (rtt - (x.there + x.back)).natAbs ≤ 4

end Exchange

open Exchange

theorem half_bounds (x : ℤ) : x - 1 ≤ 2 * x.tdiv 2 ∧ 2 * x.tdiv 2 ≤ x + 1 := by
  rcases le_total 0 x with hx | hx
  · rw [Int.tdiv_eq_ediv_of_nonneg hx]
    omega
  have hneg : x.tdiv 2 = -((-x) / 2) := by
    rw [← Int.tdiv_eq_ediv_of_nonneg (by omega : 0 ≤ -x), Int.neg_tdiv, neg_neg]
  omega

theorem average_eq {a b : ℤ} (ha : a.natAbs < 4611686018427387904)
    (hb : b.natAbs < 4611686018427387904) :
    ∃ m, average a b = pure m ∧ a + b - 1 ≤ 2 * m ∧ 2 * m ≤ a + b + 1 := by
  have hhalf := half_bounds (a + b)
  unfold average
  rw [int64_exact (by omega) (by omega), pure_then, int64_exact (by omega) (by omega)]
  exact ⟨_, rfl, hhalf.1, hhalf.2⟩

theorem average_offset {a b m theta : ℤ} {p q : ℕ} (ha : 2 * (a - theta).natAbs ≤ p + 3)
    (hb : 2 * (b - theta).natAbs ≤ q + 3) (hlow : a + b - 1 ≤ 2 * m) (hhigh : 2 * m ≤ a + b + 1) :
    4 * (m - theta).natAbs ≤ p + q + 16 := by omega

theorem average_rtt {a b m x y : ℤ} (ha : (a - x).natAbs ≤ 2) (hb : (b - y).natAbs ≤ 2)
    (hlow : a + b - 1 ≤ 2 * m) (hhigh : 2 * m ≤ a + b + 1) :
    (2 * m - (x + y)).natAbs ≤ 8 := by omega

structure Measured {theta : ℤ} (x : Exchange theta) (c : Client) : Prop where
  t1 : Timestamp.Marks c.t1 x.sent
  t2 : Timestamp.Marks c.t2 x.arrival
  t3 : Timestamp.Marks c.t3 x.departure
  t4 : Timestamp.Marks c.t4 x.received

theorem Measured.results {theta : ℤ} {x : Exchange theta} {c : Client} (h : Measured x c) :
    ∃ o r, c.offset = pure o ∧ c.rtt = pure r ∧
      2 * (o - theta).natAbs ≤ (x.there - x.back).natAbs + 3 ∧
      (r - (x.there + x.back)).natAbs ≤ 2 ∧ o.natAbs < 4611686018427387904 ∧
      r.natAbs < 4611686018427387904 := by
  obtain ⟨a, ha, ha0, ha1⟩ := sub_marks h.t2 h.t1
  obtain ⟨b, hb, hb0, hb1⟩ := sub_marks h.t3 h.t4
  obtain ⟨d, hd, hd0, hd1⟩ := sub_marks h.t4 h.t1
  obtain ⟨e, he, he0, he1⟩ := sub_marks h.t3 h.t2
  have hhalf := half_bounds (a + b)
  obtain ⟨sent, there, hold, back, hthere, hhold, hback, hlow, hhigh, hlow', hhigh'⟩ := x
  simp only [arrival, departure, received] at *
  unfold offset rtt
  rw [ha, pure_then, hb, pure_then, int64_exact (by omega) (by omega), pure_then,
    int64_exact (by omega) (by omega), hd, pure_then, he, pure_then,
    int64_exact (by omega) (by omega)]
  exact ⟨_, _, rfl, rfl, by omega, by omega, by omega, by omega⟩

/-- A client about to send a request, and the state in which it then awaits the reply. -/
def Sends (c : Client) (next : State) : Prop :=
  (c.state = .send1 ∧ next = .await1) ∨ (c.state = .send2 ∧ next = .await2)

theorem timestampFromTime_era {t : ℤ} (hlow : 0 ≤ t) (hhigh : t < 4294967296 * 1000000000) :
    ∃ s, timestampFromTime t = pure (.ok s) ∧ stamp t = .ok s := by
  refine ⟨_, timestampFromTime_ok hlow hhigh, ?_⟩
  rw [stamp, timestampFromTime_ok hlow hhigh]
  rfl

theorem request_transmitTime (c : Client) (frm : Frame) : (c.request frm).transmitTime = c.t1 := by
  simp only [request, Frame.setFlags, Frame.setTransmitTime, Frame.transmitTime]
  rw [Frame.timeAt_put_apart _ (by decide) (by simp), Frame.timeAt_put_same _ _ (by decide)]

theorem encapsulate_sends {c : Client} {next : State} {theta : ℤ} (x : Exchange theta)
    {carrierData : Bytes} {offsetToFrame : ℤ} (hst : Sends c next) (hoffset : 0 ≤ offsetToFrame)
    (hroom : offsetToFrame + sizeHeader ≤ carrierData.length) :
    ∃ s q, stamp x.sent = .ok s ∧ q.transmitTime = s ∧
      c.encapsulate x.sent carrierData offsetToFrame =
        .ok (pure ({ c with start := x.sent, t1 := s, state := next }, .ok (some q))) := by
  have hlow := x.client_low
  have hhigh := x.client_high
  have hthere := x.there_nonneg
  have hhold := x.hold_nonneg
  have hback := x.back_nonneg
  obtain ⟨s, hstamp, hs⟩ := timestampFromTime_era hlow (show x.sent < _ by omega)
  have hbuf := carried_inside hoffset (show offsetToFrame ≤ carrierData.length by omega)
  obtain ⟨frm, hframe⟩ : ∃ frm, newFrame (carrierData.drop offsetToFrame.toNat) = .ok frm :=
    ⟨_, newFrame_whole (by rw [List.length_drop]; omega)⟩
  have hsend : c.sendRequest x.sent next frm =
      pure ({ c with start := x.sent, t1 := s, state := next },
        .ok (some
          (({ c with start := x.sent, t1 := s, state := next } : Client).request frm))) := by
    unfold sendRequest
    rw [hstamp, pure_then]
  refine ⟨s, _, hs, request_transmitTime { c with start := x.sent, t1 := s, state := next } frm, ?_⟩
  rcases hst with ⟨hst, rfl⟩ | ⟨hst, rfl⟩
  all_goals
    simp only [encapsulate, isDone, hst, hbuf, bind, Except.bind, hframe, hsend]
    rfl

structure Awaits {theta : ℤ} (x : Exchange theta) (c : Client) : Prop where
  start : c.start = x.sent
  t1 : stamp x.sent = .ok c.t1

/-- A reply from the server of the exchange whose transmit stamp is not the one the client sent. -/
structure Taken {theta : ℤ} (x : Exchange theta) (carrierData : Bytes) (frameOffset : ℤ)
    (frm : Frame) : Prop where
  carried : ∃ buf, Views.carried carrierData frameOffset = .ok buf ∧ newFrame buf = .ok frm
  reply : x.Reply frm
  distinct : frm.transmitTime ≠ frm.originTime

section
variable {theta : ℤ} {x : Exchange theta} {c : Client} {frm : Frame} (h : Awaits x c)
  (hreply : x.Reply frm)
include h hreply

theorem Awaits.stamps :
    frm.originTime = c.t1 ∧ ∃ t4, add c.t1 (timeSub x.received c.start) = pure t4 ∧
      Measured x (c.stamped frm t4) := by
  have horigin : frm.originTime = c.t1 := Except.ok.inj (hreply.echoes.symm.trans h.t1)
  have hlow := x.client_low
  have hhigh := x.client_high
  have hthere := x.there_nonneg
  have hhold := x.hold_nonneg
  have hback := x.back_nonneg
  have hlow' := x.server_low
  have hhigh' := x.server_high
  have helapsed : timeSub x.received c.start = x.there + x.hold + x.back := by
    rw [h.start, timeSub, received]
    omega
  obtain ⟨t4, hadd, hmarks⟩ := @add_marks x.sent (x.there + x.hold + x.back) c.t1 hlow
    (by omega) (by omega) h.t1
  have hreceived : x.sent + (x.there + x.hold + x.back) = x.received := by
    rw [received]
    omega
  rw [hreceived] at hmarks
  refine ⟨horigin, t4, by rw [helapsed, hadd], ?_, ?_, ?_, hmarks⟩
  · exact marks_stamp hlow (by omega) h.t1
  · exact marks_stamp hlow' (by rw [arrival]; omega) hreply.receive
  · exact marks_stamp (by rw [departure, arrival]; omega) hhigh' hreply.transmit

theorem Awaits.receive (hdistinct : frm.transmitTime ≠ frm.originTime) :
    ∃ t4 o r, (c.stamped frm t4).offset = pure o ∧ (c.stamped frm t4).rtt = pure r ∧
      (2 * (o - theta).natAbs ≤ (x.there - x.back).natAbs + 3 ∧
        (r - (x.there + x.back)).natAbs ≤ 2 ∧ o.natAbs < 4611686018427387904 ∧
        r.natAbs < 4611686018427387904) ∧
      c.receive x.received frm = if c.state = .await1 then pure ({ c.stamped frm t4 with
            serverStratum := frm.stratum, offset1 := o, rtt1 := r, state := .send2 }, none)
        else
          (do
            let _ ← Client.average c.offset1 o
            let _ ← Client.average c.rtt1 r
            pure ({ c.stamped frm t4 with state := .done }, none)) := by
  obtain ⟨horigin, t4, hadd, hmeasured⟩ := h.stamps hreply
  obtain ⟨o, r, hoffset, hrtt, hbounds⟩ := hmeasured.results
  refine ⟨t4, o, r, hoffset, hrtt, hbounds, ?_⟩
  have hpass : ¬ (frm.transmitTime = frm.originTime ∨ frm.originTime ≠ c.t1) := by
    rintro (hsame | hother)
    · exact hdistinct hsame
    · exact hother horigin
  unfold Client.receive
  simp only [if_neg hpass, hadd, pure_then, hoffset, hrtt]
  rfl

end

theorem demux_receives {c : Client} {now : ℤ} {carrierData buf : Bytes} {frameOffset : ℤ}
    {frm : Frame} (hst : c.state = .await1 ∨ c.state = .await2)
    (hbuf : carried carrierData frameOffset = .ok buf) (hframe : newFrame buf = .ok frm) :
    c.demux now carrierData frameOffset = .ok (c.receive now frm) := by
  rcases hst with hst | hst
  all_goals
    simp only [demux, isDone, hst, hbuf, bind, Except.bind, hframe]
    rfl

structure Noted {theta : ℤ} (x : Exchange theta) (c : Client) : Prop where
  offset : 2 * (c.offset1 - theta).natAbs ≤ (x.there - x.back).natAbs + 3
  rtt : (c.rtt1 - (x.there + x.back)).natAbs ≤ 2
  small : c.offset1.natAbs < 4611686018427387904
  short : c.rtt1.natAbs < 4611686018427387904

theorem demux_first {theta : ℤ} {x : Exchange theta} {c : Client} {carrierData : Bytes}
    {frameOffset : ℤ} {frm : Frame} (h : Awaits x c) (hst : c.state = .await1)
    (htaken : Taken x carrierData frameOffset frm) :
    ∃ c', c.demux x.received carrierData frameOffset = .ok (pure (c', none)) ∧ c'.state = .send2 ∧
      Noted x c' := by
  obtain ⟨buf, hbuf, hframe⟩ := htaken.carried
  obtain ⟨t4, o, r, -, -, hbounds, hreceive⟩ := h.receive htaken.reply htaken.distinct
  rw [if_pos hst] at hreceive
  refine ⟨_, by rw [demux_receives (.inl hst) hbuf hframe, hreceive], rfl, ?_⟩
  exact ⟨hbounds.1, hbounds.2.1, hbounds.2.2.1, hbounds.2.2.2⟩

theorem demux_second {theta : ℤ} {x y : Exchange theta} {c : Client} {carrierData : Bytes}
    {frameOffset : ℤ} {frm : Frame} (hnoted : Noted x c) (h : Awaits y c)
    (hst : c.state = .await2) (htaken : Taken y carrierData frameOffset frm) :
    ∃ c' o r offset rtt, c.demux y.received carrierData frameOffset = .ok (pure (c', none)) ∧
      c'.state = .done ∧ c'.offset = pure o ∧ c'.rtt = pure r ∧ y.Near o r ∧
      c'.offsetUnsynced = pure offset ∧ c'.roundTripDelay = pure rtt ∧
      4 * (offset - theta).natAbs ≤ (x.there - x.back).natAbs + (y.there - y.back).natAbs + 16 ∧
      (2 * rtt - (x.there + x.back + (y.there + y.back))).natAbs ≤ 8 := by
  obtain ⟨buf, hbuf, hframe⟩ := htaken.carried
  obtain ⟨t4, o, r, hoffset, hrtt, ⟨hnear, hnear', hsmall, hshort⟩, hreceive⟩ :=
    h.receive htaken.reply htaken.distinct
  obtain ⟨hx, hx', hxsmall, hxshort⟩ := hnoted
  obtain ⟨m, haverage, hm0, hm1⟩ := average_eq hxsmall hsmall
  obtain ⟨n, haverage', hn0, hn1⟩ := average_eq hxshort hshort
  rw [if_neg (by rw [hst]; decide), haverage, pure_then, haverage', pure_then] at hreceive
  refine ⟨{ c.stamped frm t4 with state := .done }, o, r, m, n, ?_, rfl, hoffset, hrtt,
    ⟨hnear.trans (Nat.add_le_add_left (by decide) _), hnear'.trans (by decide)⟩, ?_, ?_,
    average_offset hx hnear hm0 hm1, average_rtt hx' hnear' hn0 hn1⟩
  · rw [demux_receives (.inr hst) hbuf hframe, hreceive]
  · have hdone : ({ c.stamped frm t4 with state := .done } : Client).offset = pure o := hoffset
    simp only [offsetUnsynced, isDone, decide_true, if_true, hdone, pure_then]
    exact haverage
  have hdone : ({ c.stamped frm t4 with state := .done } : Client).rtt = pure r := hrtt
  simp only [roundTripDelay, isDone, decide_true, if_true, hdone, pure_then]
  exact haverage'

/-- Two exchanges with such replies measure the offset and the round trip, each by itself and on
average, without overflow. -/
theorem exchanges_measure {theta : ℤ} (c : Client) (sysprec : UInt8) (x y : Exchange theta)
    {b₁ b₂ r₁ r₂ : Bytes} {o₁ o₂ p₁ p₂ : ℤ} {f g : Frame}
    (hroom₁ : 0 ≤ o₁ ∧ o₁ + sizeHeader ≤ b₁.length) (hroom₂ : 0 ≤ o₂ ∧ o₂ + sizeHeader ≤ b₂.length)
    (hf : Taken x r₁ p₁ f) (hg : Taken y r₂ p₂ g) : ∃ c₁ q₁ c₂ c₃ q₂ c₄ o r offset rtt,
      (c.reset sysprec).encapsulate x.sent b₁ o₁ = .ok (pure (c₁, .ok (some q₁))) ∧
      stamp x.sent = .ok q₁.transmitTime ∧
      c₁.demux x.received r₁ p₁ = .ok (pure (c₂, none)) ∧ x.Near c₂.offset1 c₂.rtt1 ∧
      c₂.encapsulate y.sent b₂ o₂ = .ok (pure (c₃, .ok (some q₂))) ∧
      stamp y.sent = .ok q₂.transmitTime ∧
      c₃.demux y.received r₂ p₂ = .ok (pure (c₄, none)) ∧
      c₄.offset = pure o ∧ c₄.rtt = pure r ∧ y.Near o r ∧
      c₄.offsetUnsynced = pure offset ∧ c₄.roundTripDelay = pure rtt ∧
      4 * (offset - theta).natAbs ≤ (x.there - x.back).natAbs + (y.there - y.back).natAbs + 16 ∧
      (2 * rtt - (x.there + x.back + (y.there + y.back))).natAbs ≤ 8 := by
  obtain ⟨s₁, q₁, hs₁, hq₁, hsend₁⟩ := encapsulate_sends x
    (show Sends (c.reset sysprec) .await1 from .inl ⟨rfl, rfl⟩) hroom₁.1 hroom₁.2
  obtain ⟨c₂, hdemux₁, hstate₂, hnoted⟩ := demux_first
    (c := { c.reset sysprec with start := x.sent, t1 := s₁, state := .await1 }) ⟨rfl, hs₁⟩ rfl hf
  obtain ⟨s₂, q₂, hs₂, hq₂, hsend₂⟩ := encapsulate_sends y
    (show Sends c₂ .await2 from .inr ⟨hstate₂, rfl⟩) hroom₂.1 hroom₂.2
  obtain ⟨c₄, o, r, offset, rtt, hdemux₂, -, hoffset, hrtt, hnear, hresults⟩ := demux_second
    (c := { c₂ with start := y.sent, t1 := s₂, state := .await2 }) (x := x)
    ⟨hnoted.offset, hnoted.rtt, hnoted.small, hnoted.short⟩ ⟨rfl, hs₂⟩ rfl hg
  refine ⟨_, q₁, c₂, _, q₂, c₄, o, r, offset, rtt, hsend₁, by rw [hs₁, hq₁], hdemux₁, ⟨?_, ?_⟩,
    hsend₂, by rw [hs₂, hq₂], hdemux₂, hoffset, hrtt, hnear, hresults⟩
  · exact hnoted.offset.trans (Nat.add_le_add_left (by decide) _)
  · exact hnoted.rtt.trans (by decide)

def replyFrame (origin receive transmit : Timestamp) : Frame :=
  ⟨36 :: List.replicate 23 0 ++ origin.bytes ++ receive.bytes ++ transmit.bytes, by
    simp only [List.length_append, List.length_cons, List.length_replicate, Timestamp.length_bytes]
    decide⟩

def aheadBy : Exchange 500000000 :=
  ⟨3000000000, 10000000, 1000000, 20000000, by decide, by decide, by decide, by decide, by decide,
    by decide, by decide⟩

theorem exchanges_measure_ahead :
    ∃ c₁ q₁ c₂, (({} : Client).reset 0).encapsulate 3000000000 (List.replicate 48 0) 0 =
        .ok (pure (c₁, .ok (some q₁))) ∧
      c₁.demux 3031000000
        (replyFrame ⟨3, 0⟩ ⟨3, 2190433320⟩ ⟨3, 2194728287⟩).buf 0 = .ok (pure (c₂, none)) ∧
      aheadBy.Near c₂.offset1 c₂.rtt1 := by
  have htaken : Taken aheadBy (replyFrame ⟨3, 0⟩ ⟨3, 2190433320⟩ ⟨3, 2194728287⟩).buf 0
      (replyFrame ⟨3, 0⟩ ⟨3, 2190433320⟩ ⟨3, 2194728287⟩) :=
    ⟨⟨_, rfl, rfl⟩, ⟨by decide +kernel, by decide +kernel, by decide +kernel⟩, by decide +kernel⟩
  obtain ⟨c₁, q₁, c₂, -, -, -, -, -, -, -, hsend, -, hdemux, hnear, -⟩ :=
    @exchanges_measure _ {} 0 aheadBy aheadBy (List.replicate 48 0) (List.replicate 48 0)
      _ _ 0 0 _ _ _ _ ⟨by decide, by decide⟩ ⟨by decide, by decide⟩ htaken htaken
  exact ⟨c₁, q₁, c₂, hsend, hdemux, hnear⟩

def sameInstant : Exchange 0 :=
  ⟨3000000000, 0, 0, 0, by decide, by decide, by decide, by decide, by decide, by decide, by decide⟩

/-- The reply of such a server is dropped. -/
theorem instant_reply_dropped : sameInstant.Reply (replyFrame ⟨3, 0⟩ ⟨3, 0⟩ ⟨3, 0⟩) ∧
      ∃ c₁ q₁, (({} : Client).reset 0).encapsulate sameInstant.sent (List.replicate 48 0) 0 =
          .ok (pure (c₁, .ok (some q₁))) ∧ q₁.transmitTime = ⟨3, 0⟩ ∧
        c₁.demux sameInstant.received (replyFrame ⟨3, 0⟩ ⟨3, 0⟩ ⟨3, 0⟩).buf 0 =
          .ok (pure (c₁, some .packetDrop)) := by
  refine ⟨⟨by decide +kernel, by decide +kernel, by decide +kernel⟩, ?_⟩
  obtain ⟨s₁, q₁, hs₁, hq₁, hsend₁⟩ := encapsulate_sends sameInstant
    (show Sends (({} : Client).reset 0) .await1 from .inl ⟨rfl, rfl⟩) (le_refl 0)
    (show (0 : ℤ) + sizeHeader ≤ (List.replicate 48 (0 : UInt8)).length by decide)
  have hstamp : stamp sameInstant.sent = .ok ⟨3, 0⟩ := by decide +kernel
  obtain rfl : s₁ = ⟨3, 0⟩ := Except.ok.inj (hs₁.symm.trans hstamp)
  refine ⟨_, q₁, hsend₁, hq₁, ?_⟩
  have hsame : (replyFrame ⟨3, 0⟩ ⟨3, 0⟩ ⟨3, 0⟩).transmitTime =
      (replyFrame ⟨3, 0⟩ ⟨3, 0⟩ ⟨3, 0⟩).originTime := by decide +kernel
  have hcarried : carried (replyFrame ⟨3, 0⟩ ⟨3, 0⟩ ⟨3, 0⟩).buf 0 =
      .ok (replyFrame ⟨3, 0⟩ ⟨3, 0⟩ ⟨3, 0⟩).buf := rfl
  rw [demux_receives (.inl rfl) hcarried rfl]
  unfold Client.receive
  rw [if_pos (.inl hsame)]

end Lneto.NtpClient
