import Lneto.RetransmitTimer
import Mathlib.Logic.Relation

/-!
The round-trip estimator over the life of a timer: its smoothed values stay among the
samples, none of its operations overflows, its timeout keeps its bounds.
-/
namespace Lneto.RttEstimator

open SerialNumbers RetransmitTimer BitVec

variable {r r' : Timer} {sample x y : Duration} {samples : List Duration}

/-- What happens between two samples: expirations, measurements that are no sample, and
whatever the other hooks do outside the estimate. -/
inductive Silent : Timer → Timer → Prop
  | expire (r : Timer) (now : BitVec 64) (una : Segments.Value) : Silent r (r.preTx now una).1
  | ignore (r : Timer) (sample : Duration) (h : sample.toInt ≤ 0) : Silent r (r.updateRTT sample)
  | other {r r' : Timer} (hsrtt : r'.srtt = r.srtt) (hrttvar : r'.rttvar = r.rttvar)
    (hrto : r'.rto = r.rto) (hhave : r'.haveRTT = r.haveRTT) : Silent r r'

/-- A timer with its samples since the last reset, newest first. -/
inductive History : List Duration → Timer → Prop
  | reset (r : Timer) : History [] r.reset
  | sample {samples : List Duration} {r : Timer} {sample : Duration} (h : History samples r)
    (hpos : 0 < sample.toInt) (hle : sample.toInt ≤ 2 ^ 58) :
    History (sample :: samples) (r.updateRTT sample)
  | silent {samples : List Duration} {r r' : Timer} (h : History samples r) (hs : Silent r r') :
    History samples r'

/-- None of the int64 operations of updateRTT overflows. -/
def Exact (r : Timer) (sample : Duration) : Prop :=
  let diff := r.srtt - sample
  let dist := if diff.slt 0 then -diff else diff
  let r' := r.updateRTT sample
  ssubOverflow r.srtt sample = false ∧ negOverflow diff = false ∧
    ssubOverflow dist r.rttvar = false ∧
    saddOverflow r.rttvar ((dist - r.rttvar).sshiftRight rttvarGainShift) = false ∧
    ssubOverflow sample r.srtt = false ∧
    saddOverflow r.srtt ((sample - r.srtt).sshiftRight rttGainShift) = false ∧
    smulOverflow rttvarK r'.rttvar = false ∧ saddOverflow r'.srtt (rttvarK * r'.rttvar) = false

theorem add_exact (hlo : -2 ^ 63 ≤ x.toInt + y.toInt) (hhi : x.toInt + y.toInt < 2 ^ 63) :
    saddOverflow x y = false ∧ (x + y).toInt = x.toInt + y.toInt := by
  have hfits : saddOverflow x y = false := by
    simp only [saddOverflow, Bool.or_eq_false_iff, decide_eq_false_iff_not]
    omega
  exact ⟨hfits, toInt_add_of_not_saddOverflow (by simp [hfits])⟩

theorem mul_exact {a b : ℤ} (hx : x.toInt = a) (hy : y.toInt = b) (hlo : 0 ≤ a * b)
    (hhi : a * b < 2 ^ 63) : smulOverflow x y = false ∧ (x * y).toInt = a * b := by
  have hfits : smulOverflow x y = false := by
    simp only [smulOverflow, Bool.or_eq_false_iff, decide_eq_false_iff_not, hx, hy]
    omega
  exact ⟨hfits, by rw [toInt_mul_of_not_smulOverflow (by simp [hfits]), hx, hy]⟩

section
variable (hx : 0 ≤ x.toInt) (hy : 0 ≤ y.toInt)
include hx hy

theorem sub_exact : ssubOverflow x y = false ∧ (x - y).toInt = x.toInt - y.toInt := by
  have hx' := toInt_lt (x := x)
  have hy' := toInt_lt (x := y)
  have hfits : ssubOverflow x y = false := by
    simp only [ssubOverflow, Bool.or_eq_false_iff, decide_eq_false_iff_not]
    omega
  exact ⟨hfits, toInt_sub_of_not_ssubOverflow (by simp [hfits])⟩

theorem dist_exact : negOverflow (x - y) = false ∧
    (if (x - y).slt 0 then -(x - y) else x - y).toInt =
      max (x.toInt - y.toInt) (y.toInt - x.toInt) := by
  have hx' := toInt_lt (x := x)
  have hy' := toInt_lt (x := y)
  have hdiff := (sub_exact hx hy).2
  have hneg : negOverflow (x - y) = false := by
    rw [negOverflow, hdiff, beq_eq_false_iff_ne]
    omega
  have hzero : (0 : Duration).toInt = 0 := rfl
  refine ⟨hneg, ?_⟩
  split_ifs with hlt
  · rw [slt_iff_toInt_lt] at hlt
    rw [toInt_neg_of_not_negOverflow (by simp [hneg])]
    omega
  · rw [slt_iff_toInt_lt] at hlt
    omega

theorem shift_exact {k : ℕ} (hk : k = 2 ∨ k = 3) : saddOverflow y ((x - y).sshiftRight k) = false ∧
      (y + (x - y).sshiftRight k).toInt = y.toInt + (x.toInt - y.toInt) / 2 ^ k := by
  have hx' := toInt_lt (x := x)
  have hy' := toInt_lt (x := y)
  have hshift : ((x - y).sshiftRight k).toInt = (x.toInt - y.toInt) / 2 ^ k := by
    rw [toInt_sshiftRight, Int.shiftRight_eq_div_pow, (sub_exact hx hy).2]
    norm_cast
  rw [← hshift]
  apply add_exact <;> rw [hshift] <;> rcases hk with rfl | rfl <;> omega

def Fits (r : Timer) (lo hi : ℤ) : Prop :=
  (lo ≤ r.srtt.toInt ∧ r.srtt.toInt ≤ hi) ∧ 0 ≤ r.rttvar.toInt ∧ r.rttvar.toInt ≤ hi

theorem dist_nonneg : 0 ≤ (if (x - y).slt 0 then -(x - y) else x - y).toInt := by
  rw [(dist_exact hx hy).2]
  omega

end

section
variable (h : Fits r 0 (2 ^ 58)) (hpos : 0 < sample.toInt)
include h hpos

/-- Both values move towards the sample by a fraction of the distance. -/
theorem updateRTT_moves : (r.updateRTT sample).haveRTT ∧ if r.haveRTT then
        (r.updateRTT sample).srtt.toInt = r.srtt.toInt + (sample.toInt - r.srtt.toInt) / 8 ∧
        (r.updateRTT sample).rttvar.toInt = r.rttvar.toInt +
          (max (r.srtt.toInt - sample.toInt) (sample.toInt - r.srtt.toInt) - r.rttvar.toInt) / 4
      else (r.updateRTT sample).srtt.toInt = sample.toInt ∧
        (r.updateRTT sample).rttvar.toInt = sample.toInt / 2 := by
  rw [Timer.updateRTT, if_neg fun hle => not_le.mpr hpos (sle_iff_toInt_le.mp hle)]
  cases r.haveRTT with
  | true =>
    have hvar := (shift_exact (dist_nonneg h.1.1 hpos.le) h.2.1 (.inl rfl)).2
    rw [(dist_exact h.1.1 hpos.le).2] at hvar
    exact ⟨rfl, (shift_exact hpos.le h.1.1 (.inr rfl)).2, hvar⟩
  | false =>
    refine ⟨rfl, rfl, ?_⟩
    show (sample.sdiv 2).toInt = sample.toInt / 2
    rw [toInt_sdiv_of_ne_or_ne _ _ (.inr (by decide))]
    exact Int.tdiv_eq_ediv_of_nonneg hpos.le

theorem fits_updateRTT {lo hi : ℤ} (hin : lo ≤ sample.toInt ∧ sample.toInt ≤ hi)
    (hold : r.haveRTT → Fits r lo hi) : Fits (r.updateRTT sample) lo hi := by
  obtain ⟨-, hmoved⟩ := updateRTT_moves h hpos
  unfold Fits at *
  split_ifs at hmoved with hhave
  · have := hold hhave
    omega
  · omega

theorem updateRTT_exact (hle : sample.toInt ≤ 2 ^ 58) : Exact r sample := by
  obtain ⟨⟨h1, h2⟩, h3, h4⟩ := fits_updateRTT h hpos ⟨hpos.le, hle⟩ fun _ => h
  obtain ⟨⟨hsrtt, -⟩, hvar, -⟩ := h
  have hdist := dist_nonneg hsrtt hpos.le
  obtain ⟨hmul, hmul'⟩ := mul_exact (x := rttvarK) (a := 4)
    (y := (r.updateRTT sample).rttvar) rfl rfl (by omega) (by omega)
  exact ⟨(sub_exact hsrtt hpos.le).1, (dist_exact hsrtt hpos.le).1, (sub_exact hdist hvar).1,
    (shift_exact hdist hvar (.inl rfl)).1, (sub_exact hpos.le hsrtt).1,
    (shift_exact hpos.le hsrtt (.inr rfl)).1, hmul, (add_exact (by omega) (by omega)).1⟩

end

theorem currentRTO_range (r : Timer) :
    200000000 ≤ r.currentRTO.toInt ∧ r.currentRTO.toInt ≤ 60000000000 := by
  have hmin : rtoMin.toInt = 200000000 := rfl
  have hmax : rtoMax.toInt = 60000000000 := rfl
  unfold Timer.currentRTO
  split_ifs <;> simp only [slt_iff_toInt_lt] at * <;> omega

theorem currentRTO_twice (r : Timer) : smulOverflow r.currentRTO 2 = false ∧
    (r.currentRTO * 2).toInt = r.currentRTO.toInt * 2 := by
  have := currentRTO_range r
  exact mul_exact rfl rfl (by omega) (by omega)

theorem currentRTO_deadline (r : Timer) {now : Duration} (hnow : now.toInt + 60000000000 < 2 ^ 63) :
    saddOverflow now r.currentRTO = false := by
  have hrange := currentRTO_range r
  have hlow := le_toInt now
  exact (add_exact (by omega) (by omega)).1

theorem currentRTO_le (h : r.currentRTO.toInt ≤ r'.rto.toInt) :
    r.currentRTO.toInt ≤ r'.currentRTO.toInt := by
  have := currentRTO_range r
  have hmin : rtoMin.toInt = 200000000 := rfl
  have hmax : rtoMax.toInt = 60000000000 := rfl
  rw [Timer.currentRTO.eq_def r']
  split_ifs <;> simp only [slt_iff_toInt_lt] at * <;> omega

/-- Between two samples the estimate stays and the timeout does not fall. -/
theorem silent_spec (h : Silent r r') : r'.srtt = r.srtt ∧ r'.rttvar = r.rttvar ∧
    r'.haveRTT = r.haveRTT ∧ r.currentRTO.toInt ≤ r'.currentRTO.toInt := by
  cases h with
  | ignore sample h =>
    rw [Timer.updateRTT, if_pos (sle_iff_toInt_le.mpr h)]
    exact ⟨rfl, rfl, rfl, le_rfl⟩
  | other hsrtt hrttvar hrto hhave =>
    refine ⟨hsrtt, hrttvar, hhave, ?_⟩
    unfold Timer.currentRTO
    rw [hrto]
  | expire now una =>
    have hrange := currentRTO_range r
    have htwice := (currentRTO_twice r).2
    have hgrow : r.currentRTO.toInt ≤ (r.currentRTO * 2).toInt := by omega
    unfold Timer.preTx
    simp only []
    split_ifs
    · exact ⟨rfl, rfl, rfl, le_rfl⟩
    · exact ⟨rfl, rfl, rfl, currentRTO_le hgrow⟩
    · exact ⟨rfl, rfl, rfl, currentRTO_le hrange.2⟩
    · exact ⟨rfl, rfl, rfl, le_rfl⟩

/-- The smoothed values lie among the samples, if there are any. -/
theorem history_fits (h : History samples r) : (r.haveRTT ↔ samples ≠ []) ∧
    Fits r 0 (2 ^ 58) ∧ ∀ lo hi : ℤ, samples ≠ [] →
      (∀ x ∈ samples, lo ≤ x.toInt ∧ x.toInt ≤ hi) → Fits r lo hi := by
  induction h with
  | reset r => exact ⟨by simp [Timer.reset], by simp [Fits, Timer.reset],
      fun _ _ hne => absurd rfl hne⟩
  | sample h hpos hle ih =>
    obtain ⟨hhave, hfits, hin⟩ := ih
    refine ⟨by simp [(updateRTT_moves hfits hpos).1],
      fits_updateRTT hfits hpos ⟨hpos.le, hle⟩ fun _ => hfits, fun lo hi _ hall => ?_⟩
    obtain ⟨hfirst, hrest⟩ := List.forall_mem_cons.mp hall
    exact fits_updateRTT hfits hpos hfirst fun hold => hin lo hi (hhave.mp hold) hrest
  | silent h hs ih =>
    obtain ⟨hsrtt, hvar, hhave, -⟩ := silent_spec hs
    unfold Fits at *
    rwa [hsrtt, hvar, hhave]

/-- The smoothed values lie among the samples since the last reset, no operation of the
estimator overflows, the timeout keeps its bounds and does not fall between two samples. -/
theorem estimator_bounded (h : History samples r) :
    (samples ≠ [] → ∀ lo hi : ℤ, (∀ x ∈ samples, lo ≤ x.toInt ∧ x.toInt ≤ hi) →
      (lo ≤ r.srtt.toInt ∧ r.srtt.toInt ≤ hi) ∧ 0 ≤ r.rttvar.toInt ∧ r.rttvar.toInt ≤ hi) ∧
    (∀ sample : Duration, 0 < sample.toInt → sample.toInt ≤ 2 ^ 58 → Exact r sample) ∧
    smulOverflow r.currentRTO 2 = false ∧
    (∀ now : Duration, now.toInt + 60000000000 < 2 ^ 63 →
      saddOverflow now r.currentRTO = false) ∧
    (200000000 ≤ r.currentRTO.toInt ∧ r.currentRTO.toInt ≤ 60000000000) ∧
    ∀ r', Relation.ReflTransGen Silent r r' → r.currentRTO.toInt ≤ r'.currentRTO.toInt := by
  obtain ⟨-, hfits, hin⟩ := history_fits h
  refine ⟨fun hne lo hi => hin lo hi hne, fun sample => updateRTT_exact hfits,
    (currentRTO_twice r).1, fun now => currentRTO_deadline r, currentRTO_range r,
    fun r' hsilent => ?_⟩
  induction hsilent with
  | refl => exact le_rfl
  | tail _ hs ih => exact ih.trans (silent_spec hs).2.2.2

theorem estimator_bounded_sample :
    (((Timer.reset {}).updateRTT 300000000).updateRTT 200000000).srtt.toInt ≤ 300000000 := by
  have h : History [200000000, 300000000] _ :=
    .sample (.sample (.reset {}) (by decide) (by decide)) (by decide) (by decide)
  exact ((estimator_bounded h).1 (by simp) 200000000 300000000 (by simp)).1.2

end Lneto.RttEstimator
