import Lneto.SendDistance

/-!
How much a control block lets fly. Send compares a segment with the window as it
would lie from snd.NXT on, so that every segment may use the whole window again. Only a
caller that waits until nothing is in flight stays inside the window the peer announced.
-/
namespace Lneto.SendWindow

open Segments SerialNumbers GuardedRuns Control Control.ControlBlock Flags Value
open SendDistance (ahead_ackedUna ackedUna_empty ahead_add_le)

variable {seg : Segment} {tcb tcb' : ControlBlock}

structure Advised where
  tcb : ControlBlock := {}
  peak : ℕ := 0

variable {s s' : Advised}

def step (s : Advised) (op : BlockOp) : Except Panic Advised :=
  (s.tcb.blockStep op).map fun tcb =>
    match op with
    | .recv seg => { tcb, peak := max s.peak seg.wnd.toNat }
    | _ => { s with tcb }

def flight (tcb : ControlBlock) : ℕ := ahead tcb.snd.una tcb.snd.nxt

def octets (seg : Segment) : ℕ :=
  seg.datalen.toNat + (if hasAny seg.flags flagFIN then 1 else 0) +
    (if hasAny seg.flags flagSYN then 1 else 0)

theorem len_le_octets (seg : Segment) : seg.len.toNat ≤ octets seg := by
  rw [Segment.len_eq, octets]
  split_ifs <;> bv_omega

/-- Nothing is in flight when a segment that is no repetition uses sequence space; it is no reset,
no SYN with a FIN, and of a size that buffers have. -/
def Alone (tcb : ControlBlock) (seg : Segment) : Prop :=
  tcb.state ≠ .closed → lessThan seg.seq tcb.snd.nxt = false → 0 < octets seg →
    tcb.snd.una = tcb.snd.nxt ∧ hasAny seg.flags flagRST = false ∧ seg.datalen.toNat < 2 ^ 31 ∧
      ¬(hasAny seg.flags flagSYN = true ∧ hasAny seg.flags flagFIN = true)

instance : Decidable (Alone tcb seg) := by
  unfold Alone
  infer_instance

/-- Segments are sent one at a time, and no ACK lies half the number space away. -/
def Counted (s : Advised) : BlockOp → Prop
  | .send seg => Alone s.tcb seg
  | .recv seg => seg.ack ≠ s.tcb.snd.una + 0x80000000#32 ∧
      seg.ack ≠ s.tcb.snd.iss + 0x80000000#32
  | _ => True

instance (s : Advised) (op : BlockOp) : Decidable (Counted s op) :=
  match op with
  | .send seg => inferInstanceAs (Decidable (Alone s.tcb seg))
  | .recv _ => inferInstanceAs (Decidable (_ ∧ _))
  | .openPassive _ _ | .close | .abort | .queueRST _ | .setRecvWindow _ | .retransmitFrom _ =>
    instDecidableTrue

/-- The largest window announced, of at least one octet and within what is legal. -/
def limit (peak : ℕ) : ℕ := min (max 1 peak) maxWindow.toNat

theorem limit_mono {m n : ℕ} (h : m ≤ n) : limit m ≤ limit n := by
  unfold limit
  omega

theorem limit_lt (n : ℕ) : limit n < 2 ^ 31 :=
  (min_le_right _ _).trans_lt (by decide)

theorem one_le_limit (n : ℕ) : 1 ≤ limit n := le_min (le_max_left _ _) (by decide)

theorem announced (peak : ℕ) (h : seg.wnd ≤ maxWindow) :
    seg.wnd.toNat ≤ limit (max peak seg.wnd.toNat) := by
  have hle : seg.wnd.toNat ≤ maxWindow.toNat := h
  unfold limit
  omega

/-- The peer announced the window of the block and all that is in flight. -/
structure Within (s : Advised) : Prop where
  window : s.tcb.snd.wnd.toNat ≤ limit s.peak
  flies : s.tcb.state ≠ .closed → flight s.tcb ≤ limit s.peak

theorem within_closed (hst : tcb.state = .closed) (hwnd : tcb.snd.wnd = 0) (peak : ℕ) :
    Within ⟨tcb, peak⟩ :=
  ⟨by simp [hwnd], fun h => absurd hst h⟩

theorem within_empty {peak : ℕ} (hwnd : tcb.snd.wnd.toNat ≤ limit peak)
    (hnone : tcb.snd.una = tcb.snd.nxt) : Within ⟨tcb, peak⟩ := by
  refine ⟨hwnd, fun _ => ?_⟩
  rw [flight, hnone, ahead_self]
  exact Nat.zero_le _

/-- Less in flight under the same window or one just announced. -/
theorem Within.shrinks (h : Within s) {peak : ℕ} (hpeak : s.peak ≤ peak)
    (hopen : s.tcb.state = .closed → tcb.state = .closed)
    (hwnd : tcb.snd.wnd = s.tcb.snd.wnd ∨ tcb.snd.wnd.toNat ≤ limit peak)
    (hless : s.tcb.state ≠ .closed → flight tcb ≤ flight s.tcb) : Within ⟨tcb, peak⟩ := by
  refine ⟨?_, fun hst => ?_⟩
  · rcases hwnd with heq | hle
    · simp only [heq]
      exact h.window.trans (limit_mono hpeak)
    · exact hle
  · have hst' : s.tcb.state ≠ .closed := fun hc => hst (hopen hc)
    exact (hless hst').trans ((h.flies hst').trans (limit_mono hpeak))

theorem within_accepted {mid : ControlBlock} {pending : Flags} (h : Within s)
    (huna : seg.ack ≠ s.tcb.snd.una + 0x80000000#32)
    (hiss : seg.ack ≠ s.tcb.snd.iss + 0x80000000#32) (hacc : s.tcb.Accepts seg mid pending) :
    Within ⟨mid.acceptSegment seg pending, max s.peak seg.wnd.toNat⟩ := by
  have hopen : s.tcb.state ≠ .closed := fun hc =>
    incomingError_closed _ seg hc hacc.acceptable
  have hseg := announced s.peak (incomingError_window hacc.acceptable)
  obtain ⟨wnd, _, _, _, _, hwnd, -, -, heq⟩ := acceptSegment_eq mid seg pending
  have huna' : (mid.acceptSegment seg pending).snd.una = mid.ackedUna seg := by rw [heq]
  have hnxt' : (mid.acceptSegment seg pending).snd.nxt = mid.snd.nxt := by rw [heq]
  have hwnd' : (mid.acceptSegment seg pending).snd.wnd = mid.snd.wnd ∨
      (mid.acceptSegment seg pending).snd.wnd = seg.wnd := by
    rw [heq]
    exact hwnd
  -- a block that starts over has nothing in flight
  have hfresh : mid.snd.una = s.tcb.snd.iss → mid.snd.nxt = s.tcb.snd.iss → mid.snd.wnd = seg.wnd →
      Within ⟨mid.acceptSegment seg pending, max s.peak seg.wnd.toNat⟩ := by
    intro hu hn hw
    have heq : (mid.acceptSegment seg pending).snd.wnd = seg.wnd := hwnd'.elim (·.trans hw) id
    refine within_empty (heq ▸ hseg) ?_
    rw [huna', hnxt', ackedUna_empty hu hn hiss, hn]
  -- otherwise snd.UNA moves towards snd.NXT
  have hmove : mid.snd = s.tcb.snd →
      Within ⟨mid.acceptSegment seg pending, max s.peak seg.wnd.toNat⟩ := by
    intro hsnd
    have hacked : mid.ackedUna seg = s.tcb.ackedUna seg := by simp only [ackedUna, hsnd]
    refine h.shrinks (le_max_left _ _) (fun hc => absurd hc hopen) ?_ fun _ => ?_
    · rcases hwnd' with hw | hw
      · exact .inl (hw.trans (by rw [hsnd]))
      · exact .inr (hw ▸ hseg)
    · simp only [flight, huna', hnxt', hacked, hsnd]
      exact ahead_ackedUna ((h.flies hopen).trans_lt (limit_lt _)) huna
  cases rcvState_handled hacc.handled with
  | listenSyn | simultaneousOpen => exact hfresh rfl rfl rfl
  | synAcked | opened | moved => exact hmove rfl
  | finished =>
  have hclosed : (s.tcb.abort.acceptSegment seg 0).state = .closed := by
    rw [heq]
    rfl
  have hzero : (s.tcb.abort.acceptSegment seg 0).snd.wnd = 0 ∨
      (s.tcb.abort.acceptSegment seg 0).snd.wnd = seg.wnd := hwnd'
  refine ⟨?_, fun hst => absurd hclosed hst⟩
  rcases hzero with hw | hw
  · simp only [hw]
    exact Nat.zero_le _
  · exact hw ▸ hseg

theorem within_recv {err : Option Err} (h : Within s) (hack : Counted s (.recv seg))
    (hrecv : s.tcb.recv seg = .ok (tcb', err)) : Within ⟨tcb', max s.peak seg.wnd.toNat⟩ := by
  have hsame : ∀ {t : ControlBlock}, t.snd = s.tcb.snd → t.state = s.tcb.state →
      Within ⟨t, max s.peak seg.wnd.toNat⟩ := by
    intro t hsnd hst
    exact h.shrinks (le_max_left _ _) (fun hc => hst.trans hc) (.inl (by rw [hsnd]))
      fun _ => by simp only [flight, hsnd, le_refl]
  obtain ⟨c, hemit⟩ := s.tcb.triggerChallengeAckEmit_eq
  cases recv_outcome hrecv with
  | accepted hacc => exact within_accepted h hack.1 hack.2 hacc
  | ignored | ackDrop => exact hsame rfl rfl
  | challenge | synChallenge | rstChallenge =>
    rw [hemit]
    exact hsame rfl rfl
  | limit | rstAbort => exact within_closed rfl rfl _
  | preReset _ hacc =>
    exact within_empty (announced s.peak (incomingError_window hacc)) rfl
  | relisten =>
    exact within_empty (h.window.trans (limit_mono (le_max_left _ _))) rfl

/-- Of a segment that begins and ends inside a window the whole is inside. -/
theorem len_le_window {seq len first wnd : BitVec 32} (hseq : inWindow seq first wnd = true)
    (hlast : inWindow (add seq len - 1) first wnd = true) (hwnd : wnd.toNat < 2 ^ 31)
    (hlen : len.toNat ≤ 2 ^ 31) : len.toNat ≤ wnd.toNat := by
  unfold inWindow inRange add at hseq hlast
  rw [decide_eq_true_eq, BitVec.add_comm first, BitVec.add_sub_cancel] at hseq hlast
  have hmove : seq + len - 1 - first = seq - first + (len - 1) := by bv_omega
  rw [hmove] at hlast
  generalize seq - first = x at hseq hlast
  bv_omega

/-- With nothing in flight the window that Send checks is the one the peer announced. -/
theorem Alone.fits (h : Alone tcb seg) (hlegal : tcb.snd.wnd.toNat < 2 ^ 31)
    (hopen : tcb.state ≠ .closed) (hless : lessThan seg.seq tcb.snd.nxt = false)
    (hval : tcb.validateOutgoingSegment seg = none) (hpos : 0 < octets seg) :
    flight tcb = 0 ∧ octets seg ≤ max 1 tcb.snd.wnd.toNat ∧
      (0 < seg.datalen → seg.seq = tcb.snd.nxt →
        inWindow seg.last tcb.snd.una tcb.snd.wnd = true) := by
  obtain ⟨hnone, hrst, hsize, hboth⟩ := h hopen hless hpos
  have hrange : inRange seg.seq tcb.snd.una tcb.snd.nxt = false := by
    rw [hnone, inRange, decide_eq_false_iff_not]
    bv_omega
  have hlen : seg.len.toNat = octets seg := by
    rw [octets] at *
    rw [Segment.len_eq]
    split_ifs at * <;> bv_omega
  have hsmall : octets seg ≤ 2 ^ 31 := by
    rw [octets]
    split_ifs
    · exact absurd ⟨‹_›, ‹_›⟩ hboth
    all_goals omega
  have hne : seg.len ≠ 0 := by
    intro hz
    rw [hz] at hlen
    simp only [BitVec.ofNat_eq_ofNat, BitVec.toNat_ofNat, Nat.zero_mod] at hlen
    omega
  simp only [validateOutgoingSegment, beq_false_of_ne hopen, hrst, hrange, Bool.false_and,
    Bool.and_false, Bool.not_false, Bool.true_and, Bool.false_eq_true, not_false_eq_true, and_true,
    hopen, if_false, true_and] at hval
  split_ifs at hval with _ _ hseq _ hzero hlast
  refine ⟨by rw [flight, hnone, ahead_self], ?_, fun hdata hnext => ?_⟩
  · by_cases hok : tcb.snd.wnd = 0 ∧ seg.datalen = 0 ∧ seg.seq = tcb.snd.nxt
    · refine le_max_of_le_left ?_
      rw [octets, hok.2.1]
      split_ifs
      · exact absurd ⟨‹_›, ‹_›⟩ hboth
      all_goals simp
    · have hok' : (tcb.snd.wnd == 0 && seg.datalen == 0 && seg.seq == tcb.snd.nxt) = false := by
        simpa [and_assoc] using hok
      simp only [hok', Bool.not_false, Bool.and_true, Bool.not_eq_true', Bool.not_eq_false,
        Bool.false_eq_true, not_false_eq_true, and_true, not_not] at hseq hlast
      rw [Segment.last, if_neg hne] at hlast
      exact le_max_of_le_right (hlen ▸ len_le_window hseq hlast hlegal (hlen ▸ hsmall))
  · have hok : (tcb.snd.wnd == 0 && seg.datalen == 0 && seg.seq == tcb.snd.nxt) = false := by
      rw [beq_false_of_ne (show seg.datalen ≠ 0 by bv_omega), Bool.and_false, Bool.false_and]
    simp only [hok, Bool.false_eq_true, not_false_eq_true, and_true, not_not] at hlast
    rwa [hnone]

theorem within_send (h : Within s) (hfit : Counted s (.send seg)) :
    Within { s with tcb := (s.tcb.send seg).1 } := by
  cases herr : (s.tcb.send seg).2 with
  | some err =>
    rw [send_err herr]
    exact h
  | none =>
  obtain ⟨hval, hsent⟩ := send_ok herr
  rw [hsent]
  by_cases hst : s.tcb.state = .closed
  · rw [(commitSend_closed s.tcb seg hst hval).2]
    have hone : flight { snd := { iss := seg.seq, una := seg.seq, nxt := seg.seq + 1, wnd := 1 }
                         rcv := { wnd := seg.wnd }, state := .synSent } = 1 :=
      ahead_advance _ 1 (by omega)
    exact ⟨one_le_limit _, fun _ => hone.le.trans (one_le_limit _)⟩
  obtain ⟨_, _, _, _, hcommit, -, -⟩ := commitSend_eq s.tcb seg hst
  have hwindow := h.window
  have hlt := limit_lt s.peak
  refine ⟨by rw [hcommit]; split_ifs <;> exact hwindow, fun _ => ?_⟩
  rw [hcommit]
  cases hless : lessThan seg.seq s.tcb.snd.nxt with
  | true => exact h.flies hst
  | false =>
  have hone := one_le_limit s.peak
  have hlen := len_le_octets seg
  have hadd := ahead_add_le s.tcb.snd.una s.tcb.snd.nxt seg.len
  have hflies := h.flies hst
  simp only [flight, Bool.false_eq_true, if_false] at hflies ⊢
  by_cases hpos : 0 < octets seg
  · obtain ⟨hnone, hroom, -⟩ := Alone.fits hfit (hwindow.trans_lt hlt) hst hless hval hpos
    unfold flight at hnone
    omega
  · omega

theorem flight_retransmitFrom (hshort : flight tcb < 2 ^ 31) (seq : Value) :
    flight (tcb.retransmitFrom seq).1 ≤ flight tcb := by
  unfold retransmitFrom
  split_ifs with hq hrange
  · exact le_rfl
  · exact le_rfl
  rw [Bool.not_eq_true, Bool.or_eq_false_iff, ← Bool.not_eq_true, ← Bool.not_eq_true,
    lessThan_iff, lessThan_iff] at hrange
  obtain ⟨hback, hahead⟩ := hrange
  unfold flight ahead at *
  bv_omega

theorem close_cases (tcb : ControlBlock) : tcb.close.1 = tcb.abort ∨
    (tcb.close.1.snd = tcb.snd ∧ (tcb.state = .closed → tcb.close.1.state = .closed)) := by
  unfold close
  cases hst : tcb.state <;> simp [hst]

theorem within_step {op : BlockOp} (h : Within s) (hop : Counted s op)
    (hstep : step s op = .ok s') : Within s' := by
  obtain ⟨tcb, htcb, rfl⟩ := map_ok hstep
  cases op with
  | openPassive iss wnd =>
    obtain rfl := Except.ok.inj htcb
    unfold openPassive
    split_ifs
    · exact h
    · exact h
    · exact within_empty (one_le_limit _) rfl
  | send seg =>
    obtain rfl := Except.ok.inj htcb
    exact within_send h hop
  | recv seg =>
    cases hrecv : s.tcb.recv seg with
    | error p => simp [blockStep, hrecv] at htcb
    | ok r =>
    simp only [blockStep, hrecv] at htcb
    obtain rfl := Except.ok.inj htcb
    exact within_recv h hop hrecv
  | close =>
    obtain rfl := Except.ok.inj htcb
    rcases close_cases s.tcb with habort | ⟨hsnd, hst⟩
    · rw [habort]
      exact within_closed rfl rfl _
    · exact h.shrinks le_rfl hst (.inl (by rw [hsnd])) fun _ => by simp only [flight, hsnd, le_rfl]
  | abort =>
    obtain rfl := Except.ok.inj htcb
    exact within_closed rfl rfl _
  | queueRST | setRecvWindow =>
    obtain rfl := Except.ok.inj htcb
    exact h.shrinks le_rfl id (.inl rfl) fun _ => le_rfl
  | retransmitFrom seq =>
  obtain rfl := Except.ok.inj htcb
  refine h.shrinks le_rfl ?_ ?_ fun hst => flight_retransmitFrom
    ((h.flies hst).trans_lt (limit_lt _)) seq
  · unfold retransmitFrom
    split_ifs <;> exact id
  · unfold retransmitFrom
    split_ifs <;> exact .inl rfl

/-- As long as segments are sent one at a time, no more is in flight than the peer announced, and
data accepted at snd.NXT ends inside the window. -/
theorem flight_within_peak {ops : List BlockOp} (hops : Guarded step Counted {} ops)
    (hrun : exec step {} ops = .ok s) : (s.tcb.state ≠ .closed → flight s.tcb ≤ max 1 s.peak) ∧
      ∀ seg, Counted s (.send seg) → s.tcb.state.isSynchronized = true →
        hasAny seg.flags flagRST = false → 0 < seg.datalen → seg.seq = s.tcb.snd.nxt →
        (s.tcb.send seg).2 = none → inWindow seg.last s.tcb.snd.una s.tcb.snd.wnd = true := by
  have hin : Within s := exec_invariant (fun _ _ _ h hop hstep => within_step h hop hstep) ops {} s
    (within_closed rfl rfl 0) hops hrun
  refine ⟨fun hst => (hin.flies hst).trans (min_le_left _ _), ?_⟩
  intro seg halone hsync hrst hdata hseq hsent
  have hopen : s.tcb.state ≠ .closed := by
    intro hc
    rw [hc] at hsync
    cases hsync
  have hpos : 0 < octets seg := by
    unfold octets
    bv_omega
  exact (Alone.fits halone (hin.window.trans_lt (limit_lt _)) hopen (by rw [hseq, lessThan_self])
    (send_ok hsent).1 hpos).2.2 hdata hseq

def tenOctets : List BlockOp :=
  [.openPassive 300 1000, .recv { seq := 100, wnd := 10, flags := flagSYN },
    .send { seq := 300, ack := 101, wnd := 1000, flags := synack },
    .recv { seq := 101, ack := 301, wnd := 10, flags := flagACK },
    .send { seq := 301, ack := 101, wnd := 1000, datalen := 10, flags := flagACK }]

theorem flight_within_peak_ten : ∃ s, exec step {} tenOctets = .ok s ∧
    (s.tcb.state ≠ .closed → flight s.tcb ≤ max 1 s.peak) := by
  obtain ⟨s, hrun, -⟩ : ∃ s, exec step {} tenOctets = .ok s ∧ True :=
    exists_exec (by decide +kernel)
  exact ⟨s, hrun, (flight_within_peak (by decide +kernel) hrun).1⟩

/-- Ten octets in flight fill the window, and Send takes ten more. -/
theorem window_used_twice : ∃ s, exec step {} tenOctets = .ok s ∧ s.peak = 10 ∧
    s.tcb.state.isSynchronized = true ∧ s.tcb.snd.nxt = 311 ∧
    (let seg : Segment := { seq := 311, ack := 101, wnd := 1000, datalen := 10, flags := flagACK }
     (s.tcb.send seg).2 = none ∧ inWindow seg.last s.tcb.snd.una s.tcb.snd.wnd = false ∧
      flight (s.tcb.send seg).1 = 20) :=
  exists_exec (by decide +kernel)

end Lneto.SendWindow
