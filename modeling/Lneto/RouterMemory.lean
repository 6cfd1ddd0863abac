import Lneto.TracedInts

/-!
The memory budget of a router. `DefaultRouterConfig` spends a budget per connection
on the buffers of an exchange, and `MemoryUsagePerConnection` counts what they cost.
-/
namespace Lneto.RouterMemory

open TracedInts

inductive Err where
  | invalidConfig
deriving DecidableEq

/-- The sizes of the structs that are counted. -/
structure Sizes where
  exchange : ℤ
  pathValue : ℤ
  job : ℤ
  exchange_pos : 0 < exchange
  pathValue_pos : 0 < pathValue
  job_pos : 0 < job

/-- Path values and jobs of a 64-bit machine. -/
def wordSizes : Sizes := ⟨1000, 40, 8, by decide, by decide, by decide⟩

structure RouterConfig where
  fixedNumGoroutines : ℤ
  requestHeaderBufferSize : ℤ
  responseHeaderMinBufferSize : ℤ
  requestNumHeaderKVCap : ℤ
deriving DecidableEq

def minRequestHeaderBuffer : ℤ := 32
def minResponseHeaderBuffer : ℤ := 2
def maxExchangeBuffer : ℤ := 65535
def bytesPerHeaderField : ℤ := 32
def defaultResponseHeaderBuffer : ℤ := 128
def sizeKV : ℤ := 8
def maxInt : ℤ := 2 ^ 63 - 1

def maxSpendable : ℤ :=
  ((maxExchangeBuffer + defaultResponseHeaderBuffer) * (bytesPerHeaderField + sizeKV)).tdiv
    bytesPerHeaderField

def RouterConfig.workerMode (cfg : RouterConfig) : Bool := 0 < cfg.fixedNumGoroutines

def RouterConfig.validate (cfg : RouterConfig) : Option Err :=
  if (!cfg.workerMode ∧ cfg.fixedNumGoroutines ≠ -1) ∨ cfg.requestNumHeaderKVCap ≤ 0 ∨
      cfg.requestHeaderBufferSize < minRequestHeaderBuffer ∨
      cfg.responseHeaderMinBufferSize < minResponseHeaderBuffer ∨
      maxExchangeBuffer < cfg.responseHeaderMinBufferSize ∨
      maxExchangeBuffer - cfg.responseHeaderMinBufferSize < cfg.requestHeaderBufferSize then
    some .invalidConfig
  else if cfg.workerMode ∧
      (maxInt.tdiv (cfg.requestHeaderBufferSize + cfg.responseHeaderMinBufferSize) <
        cfg.fixedNumGoroutines ∨
      maxInt.tdiv cfg.requestNumHeaderKVCap < cfg.fixedNumGoroutines) then
    some .invalidConfig
  else none

def RouterConfig.memoryUsagePerConnection (cfg : RouterConfig) (sz : Sizes) (maxPathValues : ℤ) :
    Traced ℤ := do
  let maxPathValues := if maxPathValues < 0 then 0 else maxPathValues
  let n ← int64 (sz.exchange + cfg.requestHeaderBufferSize)
  let n ← int64 (n + cfg.responseHeaderMinBufferSize)
  let kvs ← int64 (cfg.requestNumHeaderKVCap * sizeKV)
  let n ← int64 (n + kvs)
  let paths ← int64 (maxPathValues * sz.pathValue)
  let n ← int64 (n + paths)
  if cfg.workerMode then int64 (n + sz.job) else pure n

/-- Everything the exchange costs before any buffer is sized. -/
def fixedCost (sz : Sizes) (numGoroutines maxPathValues : ℤ) : Traced ℤ := do
  let paths ← int64 (maxPathValues * sz.pathValue)
  let fixed ← int64 (sz.exchange + paths)
  if 0 < numGoroutines then int64 (fixed + sz.job) else pure fixed

def defaultRouterConfig (sz : Sizes) (numGoroutines memoryPerConnectionBytes maxPathValues : ℤ) :
    Traced RouterConfig := do
  let numGoroutines := if numGoroutines ≤ 0 then -1 else numGoroutines
  let fixed ← fixedCost sz numGoroutines maxPathValues
  let left ← int64 (memoryPerConnectionBytes - fixed)
  let avail := min left maxSpendable
  let respBuf := min defaultResponseHeaderBuffer (avail.tdiv 4)
  let rest ← int64 (avail - respBuf)
  let scaled ← int64 (rest * bytesPerHeaderField)
  let reqBuf := scaled.tdiv (bytesPerHeaderField + sizeKV)
  let respBuf := max respBuf minResponseHeaderBuffer
  let reqBuf := max reqBuf minRequestHeaderBuffer
  let room ← int64 (maxExchangeBuffer - respBuf)
  let reqBuf := min reqBuf room
  return {
    fixedNumGoroutines := numGoroutines
    requestHeaderBufferSize := reqBuf
    responseHeaderMinBufferSize := respBuf
    requestNumHeaderKVCap := max (reqBuf.tdiv bytesPerHeaderField) 1 }

/-- What an exchange costs before its buffers; a mux without routes has no path values. -/
def Sizes.fixed (sz : Sizes) (numGoroutines maxPathValues : ℤ) : ℤ :=
  sz.exchange + max maxPathValues 0 * sz.pathValue + if 0 < numGoroutines then sz.job else 0

/-- The cost that `DefaultRouterConfig` subtracts, where a mux without routes counts as -1. -/
def Sizes.charged (sz : Sizes) (numGoroutines maxPathValues : ℤ) : ℤ :=
  sz.exchange + maxPathValues * sz.pathValue + if 0 < numGoroutines then sz.job else 0

open RouterConfig
variable {sz : Sizes} {numGoroutines budget maxPathValues : ℤ}

/-- Of what the budget leaves, a quarter at most is the response's, and the request gets
four fifths of the rest with eight bytes for each 32 of them; ten bytes are left at most, unless the
buffers are as large as they can be. -/
theorem defaultRouterConfig_eq (hexchange : 0 ≤ sz.exchange + maxPathValues * sz.pathValue)
    (hmul : -2 ^ 63 ≤ maxPathValues * sz.pathValue)
    (hbudget : sz.charged numGoroutines maxPathValues + 200 ≤ budget) (hint : budget ≤ maxInt) :
    ∃ (cfg : RouterConfig) (spent : ℤ),
      defaultRouterConfig sz numGoroutines budget maxPathValues = pure cfg ∧
      cfg.fixedNumGoroutines = (if numGoroutines ≤ 0 then -1 else numGoroutines) ∧
      32 ≤ cfg.requestHeaderBufferSize ∧ 2 ≤ cfg.responseHeaderMinBufferSize ∧
      cfg.requestHeaderBufferSize + cfg.responseHeaderMinBufferSize ≤ 65535 ∧
      1 ≤ cfg.requestNumHeaderKVCap ∧ cfg.requestNumHeaderKVCap ≤ 2047 ∧
      cfg.requestHeaderBufferSize + cfg.responseHeaderMinBufferSize +
        cfg.requestNumHeaderKVCap * 8 = spent ∧
      sz.charged numGoroutines maxPathValues + spent ≤ budget ∧ spent ≤ 81879 ∧
      (spent < 81879 → budget < sz.charged numGoroutines maxPathValues + spent + 10) := by
  have hpos := sz.exchange_pos
  have hjob := sz.job_pos
  have hmax : maxInt = 2 ^ 63 - 1 := rfl
  have hspend : maxSpendable = 82078 := rfl
  have hcost : fixedCost sz (if numGoroutines ≤ 0 then -1 else numGoroutines) maxPathValues =
      pure (sz.charged numGoroutines maxPathValues) := by
    unfold Sizes.charged at hbudget ⊢
    split_ifs at hbudget ⊢ with hw hle
    all_goals first
      | omega
      | simp (disch := omega) only [fixedCost, int64_exact, pure_then, if_pos, if_neg, Int.add_zero]
  have hleast : 0 ≤ sz.charged numGoroutines maxPathValues := by
    unfold Sizes.charged
    split_ifs <;> omega
  generalize sz.charged numGoroutines maxPathValues = fixed at *
  simp (disch := omega) only [defaultRouterConfig, hcost, hspend, minRequestHeaderBuffer,
    minResponseHeaderBuffer, maxExchangeBuffer, bytesPerHeaderField, defaultResponseHeaderBuffer,
    sizeKV, int64_exact, pure_then, Int.tdiv_eq_ediv_of_nonneg]
  refine ⟨_, _, rfl, rfl, ?_, ?_, ?_, ?_, ?_, rfl, ?_⟩
  all_goals
    dsimp only
    omega

theorem workerMode_eq {cfg : RouterConfig}
    (hgo : cfg.fixedNumGoroutines = if numGoroutines ≤ 0 then -1 else numGoroutines) :
    cfg.workerMode = decide (0 < numGoroutines) := by
  rw [workerMode, hgo]
  split_ifs with h
  · exact (decide_eq_false h.not_gt).symm
  · rfl

theorem validate_none {cfg : RouterConfig} (hnum : numGoroutines ≤ 2 ^ 31)
    (hgo : cfg.fixedNumGoroutines = if numGoroutines ≤ 0 then -1 else numGoroutines)
    (hreq : 32 ≤ cfg.requestHeaderBufferSize) (hresp : 2 ≤ cfg.responseHeaderMinBufferSize)
    (hsum : cfg.requestHeaderBufferSize + cfg.responseHeaderMinBufferSize ≤ 65535)
    (hkv : 1 ≤ cfg.requestNumHeaderKVCap) (hkvs : cfg.requestNumHeaderKVCap ≤ 2047) :
    cfg.validate = none := by
  have hdiv : ∀ d, 0 < d → d ≤ 65535 → ¬ maxInt.tdiv d < cfg.fixedNumGoroutines := by
    intro d hd hle
    have hmax : maxInt = 2 ^ 63 - 1 := rfl
    rw [Int.tdiv_eq_ediv_of_nonneg (by omega)]
    have : 2 ^ 31 ≤ maxInt / d := Int.le_ediv_of_mul_le hd (by omega)
    split_ifs at hgo <;> omega
  rw [validate, if_neg, if_neg]
  · exact fun h => h.2.elim (hdiv _ (by omega) hsum) (hdiv _ (by omega) (by omega))
  · simp only [workerMode_eq hgo, minRequestHeaderBuffer, minResponseHeaderBuffer,
      maxExchangeBuffer, Bool.not_eq_true', decide_eq_false_iff_not]
    split_ifs at hgo <;> omega

section
variable {cfg : RouterConfig} {usage : ℤ}
  (hgo : cfg.fixedNumGoroutines = if numGoroutines ≤ 0 then -1 else numGoroutines)
include hgo

/-- The usage is the sum of its parts, if that sum is an int. -/
theorem usage_eq (hreq : 0 ≤ cfg.requestHeaderBufferSize)
    (hresp : 0 ≤ cfg.responseHeaderMinBufferSize) (hkv : 0 ≤ cfg.requestNumHeaderKVCap)
    (hfit : sz.fixed numGoroutines maxPathValues + (cfg.requestHeaderBufferSize +
      cfg.responseHeaderMinBufferSize + cfg.requestNumHeaderKVCap * 8) ≤ maxInt) :
    cfg.memoryUsagePerConnection sz maxPathValues = pure (sz.fixed numGoroutines maxPathValues +
      (cfg.requestHeaderBufferSize + cfg.responseHeaderMinBufferSize +
        cfg.requestNumHeaderKVCap * 8)) := by
  have hpos := sz.exchange_pos
  have hjob := sz.job_pos
  have hmax : maxInt = 2 ^ 63 - 1 := rfl
  have hmul := Int.mul_nonneg (le_max_right maxPathValues 0) sz.pathValue_pos.le
  have hcount : (if maxPathValues < 0 then 0 else maxPathValues) = max maxPathValues 0 := by omega
  unfold Sizes.fixed at hfit ⊢
  simp only [memoryUsagePerConnection, workerMode_eq hgo, sizeKV, hcount, decide_eq_true_eq]
  generalize max maxPathValues 0 * sz.pathValue = paths at *
  split_ifs at hfit ⊢
  all_goals
    simp (disch := omega) only [int64_exact, pure_then]
    congr 1
    omega

theorem eq_of_usage (h : cfg.memoryUsagePerConnection sz maxPathValues = pure usage) :
    usage = sz.fixed numGoroutines maxPathValues + (cfg.requestHeaderBufferSize +
      cfg.responseHeaderMinBufferSize + cfg.requestNumHeaderKVCap * 8) := by
  have hcount : (if maxPathValues < 0 then 0 else maxPathValues) = max maxPathValues 0 := by omega
  simp only [memoryUsagePerConnection, workerMode_eq hgo, sizeKV, hcount, decide_eq_true_eq] at h
  have h := int64_then (int64_then (int64_then (int64_then (int64_then (int64_then h)))))
  unfold Sizes.fixed
  split_ifs at h ⊢
  · rw [int64_of_inRange (congrArg Traced.inRange h)] at h
    have hlast := (Traced.mk.inj h).1
    omega
  · have hlast := (Traced.mk.inj h).1
    omega

end

/-- The configuration is valid and costs no more than the budget, and nothing wraps. -/
def KeepsBudget (sz : Sizes) (numGoroutines budget maxPathValues : ℤ) : Prop :=
  ∃ cfg usage, defaultRouterConfig sz numGoroutines budget maxPathValues = pure cfg ∧
    cfg.validate = none ∧ cfg.memoryUsagePerConnection sz maxPathValues = pure usage ∧
    usage ≤ budget

/-- With a registered mux every budget of 200 bytes over the fixed cost is kept. Without one, and
structs of the source's proportions, only a budget that pays for the largest buffers is. -/
theorem defaultRouterConfig_keeps_budget (sz : Sizes) (numGoroutines budget maxPathValues : ℤ)
    (hnum : numGoroutines ≤ 2 ^ 31) (hbudget : sz.fixed numGoroutines maxPathValues + 200 ≤ budget)
    (hint : budget ≤ maxInt) (hmux : -1 ≤ maxPathValues) :
    (0 ≤ maxPathValues → KeepsBudget sz numGoroutines budget maxPathValues) ∧
    (10 ≤ sz.pathValue → sz.pathValue ≤ sz.exchange →
      (KeepsBudget sz numGoroutines budget maxPathValues ↔
        0 ≤ maxPathValues ∨ sz.fixed numGoroutines maxPathValues + 81879 ≤ budget)) := by
  have hkeeps : 0 ≤ maxPathValues → KeepsBudget sz numGoroutines budget maxPathValues := by
    intro hpaths
    have hmul := Int.mul_nonneg hpaths sz.pathValue_pos.le
    have hpos := sz.exchange_pos
    have hfixed : sz.fixed numGoroutines maxPathValues =
      sz.charged numGoroutines maxPathValues := by
      rw [Sizes.fixed, max_eq_left hpaths, Sizes.charged]
    obtain ⟨cfg, spent, hcfg, hgo, hreq, hresp, hsum, hkv, hkvs, hspent, huse, -⟩ :=
      defaultRouterConfig_eq (by omega) (by omega) (hfixed ▸ hbudget) hint
    exact ⟨cfg, _, hcfg, validate_none hnum hgo hreq hresp hsum hkv hkvs,
      usage_eq hgo (by omega) (by omega) (by omega) (by omega), by omega⟩
  refine ⟨hkeeps, fun hleast hmost => ?_⟩
  rcases eq_or_lt_of_le hmux with rfl | hpaths
  swap
  · exact iff_of_true (hkeeps (by omega)) (.inl (by omega))
  have hpos := sz.exchange_pos
  have hfixed : sz.fixed numGoroutines (-1) = sz.charged numGoroutines (-1) + sz.pathValue := by
    rw [Sizes.fixed, Sizes.charged, show max (-1 : ℤ) 0 = 0 from rfl]
    omega
  have hsmall : sz.exchange ≤ maxInt := by
    rw [Sizes.fixed, show max (-1 : ℤ) 0 = 0 from rfl] at hbudget
    have hjob := sz.job_pos
    split_ifs at hbudget <;> omega
  have hmax : maxInt = 2 ^ 63 - 1 := rfl
  have hleast : sz.charged numGoroutines (-1) + 200 ≤ budget := by omega
  obtain ⟨cfg, spent, hcfg, hgo, hreq, hresp, hsum, hkv, hkvs, hspent, huse, hfull, hleft⟩ :=
    defaultRouterConfig_eq (by omega) (by omega) hleast hint
  constructor
  · rintro ⟨cfg', usage, hcfg', -, husage, hle⟩
    cases congrArg Traced.val (hcfg.symm.trans hcfg')
    have heq := eq_of_usage hgo husage
    omega
  · intro hlarge
    exact ⟨cfg, _, hcfg, validate_none hnum hgo hreq hresp hsum hkv hkvs,
      usage_eq hgo (by omega) (by omega) (by omega) (by omega), by omega⟩

theorem defaultRouterConfig_keeps_1300 : KeepsBudget wordSizes 4 1300 2 :=
  (defaultRouterConfig_keeps_budget _ 4 1300 2 (by decide) (by decide) (by decide) (by decide)).1
    (by decide)

/-- A mux without routes reports -1, and the budget gains the size of a path value. -/
theorem defaultRouterConfig_exceeds_unrouted : wordSizes.fixed (-1) (-1) + 200 = 1200 ∧
    ∃ cfg, defaultRouterConfig wordSizes (-1) 1200 (-1) = pure cfg ∧
      cfg.memoryUsagePerConnection wordSizes (-1) = pure 1236 :=
  ⟨rfl, _, rfl, rfl⟩

end Lneto.RouterMemory
