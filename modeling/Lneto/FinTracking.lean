import Lneto.ControlSteps
import Lneto.GuardedRuns

/-!
The FIN a control block sent. A run carries the sequence number of the last FIN
that Send took and how much sequence space was used after it. In the states that
are watched, snd.NXT stands right behind both.
-/
namespace Lneto.FinTracking

open Segments SerialNumbers GuardedRuns Control Flags ControlBlock

variable {seg : Segment} {tcb : ControlBlock}

structure SentFin where
  seq : Value
  after : ℕ
deriving DecidableEq, Repr

structure Tracked where
  tcb : ControlBlock := {}
  fin : Option SentFin := none
deriving DecidableEq, Repr

variable {s : Tracked}

def spaceUsed (tcb : ControlBlock) (seg : Segment) : ℕ :=
  if Value.lessThan seg.seq tcb.snd.nxt then 0 else seg.len.toNat

/-- The states in which the FIN is followed, and a bound on the space after it. -/
structure Watch where
  states : State → Bool
  bound : ℕ
  pos : 0 < bound
  closing : states .closing = true → states .finWait1 = true
  only : ∀ st, states st = true → st = .finWait1 ∨ st = .closing ∨ st = .lastAck

namespace Tracked

def sent (s : Tracked) (seg : Segment) : Tracked :=
  match s.tcb.send seg with
  | (tcb, some _) => { s with tcb := tcb }
  | (tcb, none) =>
    if s.tcb.state = .closed then { tcb := tcb }
    else if Flags.hasAny seg.flags flagFIN then { tcb := tcb, fin := some ⟨seg.last, 0⟩ }
    else { tcb := tcb, fin := s.fin.map fun f => { f with after := f.after + spaceUsed s.tcb seg } }

structure FinPlaced (w : Watch) (s : Tracked) : Prop where
  window : s.tcb.snd.wnd ≤ maxWindow
  second : s.tcb.pending1 = 0
  noReset : Flags.hasAny s.tcb.pending0 flagFIN = true →
    Flags.hasAny s.tcb.pending0 flagRST = false
  taken : s.tcb.state = .finWait1 ∨ s.tcb.state = .closing →
    Flags.hasAny s.tcb.pending0 flagFIN = false
  placed : w.states s.tcb.state = true → Flags.hasAny s.tcb.pending0 flagFIN = false →
    ∃ f, s.fin = some f ∧ s.tcb.snd.nxt = advance f.seq (1 + f.after) ∧ f.after < w.bound

section Keeping
variable {w : Watch}

/-- A state in which no FIN of the block is waited for. -/
def Quiet (st : State) : Prop := st ≠ .finWait1 ∧ st ≠ .closing ∧ st ≠ .lastAck

theorem finPlaced_of_quiet (hwindow : s.tcb.snd.wnd ≤ maxWindow) (hsecond : s.tcb.pending1 = 0)
    (hno : hasAny s.tcb.pending0 flagFIN → hasAny s.tcb.pending0 flagRST = false)
    (hquiet : Quiet s.tcb.state) : s.FinPlaced w := by
  obtain ⟨h1, h2, h3⟩ := hquiet
  refine ⟨hwindow, hsecond, hno, ?_, ?_⟩
  · rintro (h | h)
    · exact absurd h h1
    · exact absurd h h2
  intro hw
  rcases w.only _ hw with h | h | h
  · exact absurd h h1
  · exact absurd h h2
  · exact absurd h h3

theorem FinPlaced.kept (h : s.FinPlaced w) (hwindow : tcb.snd.wnd ≤ maxWindow)
    (hsecond : tcb.pending1 = s.tcb.pending1)
    (hpending : tcb.pending0 = s.tcb.pending0 ∨ tcb.pending0 = s.tcb.pending0 ||| flagACK)
    (hnxt : tcb.snd.nxt = s.tcb.snd.nxt)
    (hstate : tcb.state = s.tcb.state ∨ (s.tcb.state = .finWait1 ∧ tcb.state = .closing) ∨ Quiet
      tcb.state) : FinPlaced w { s with tcb := tcb } := by
  have hsame : ∀ m : Flags, hasAny flagACK m = false →
      hasAny tcb.pending0 m = hasAny s.tcb.pending0 m := by
    intro m hm
    rcases hpending with hp | hp
    · rw [hp]
    · rw [hp, hasAny_or, hm, Bool.or_false]
  have hfin := hsame flagFIN (by decide)
  have hrst := hsame flagRST (by decide)
  have hno : hasAny tcb.pending0 flagFIN →
      hasAny tcb.pending0 flagRST = false := by
    rw [hfin, hrst]
    exact h.noReset
  rcases hstate with hst | ⟨hst, hst'⟩ | hquiet
  · refine ⟨hwindow, hsecond.trans h.second, hno, ?_, ?_⟩
    · simp only [hst, hfin]
      exact h.taken
    · simp only [hst, hfin, hnxt]
      exact h.placed
  · refine ⟨hwindow, hsecond.trans h.second, hno, fun _ => ?_, fun hw _ => ?_⟩
    · simp only [hfin]
      exact h.taken (.inl hst)
    simp only [hst'] at hw
    simp only [hnxt]
    exact h.placed (by rw [hst]; exact w.closing hw) (h.taken (.inl hst))
  · exact finPlaced_of_quiet hwindow (hsecond.trans h.second) hno hquiet

theorem FinPlaced.refin {s' : Tracked} (h : s.FinPlaced w) (htcb : s'.tcb = s.tcb)
    (hfin : w.states s.tcb.state → s'.fin = s.fin) : s'.FinPlaced w := by
  refine ⟨by rw [htcb]; exact h.window, by rw [htcb]; exact h.second, by rw [htcb]; exact h.noReset,
    by rw [htcb]; exact h.taken, ?_⟩
  rw [htcb]
  intro hw hp
  rw [hfin hw]
  exact h.placed hw hp

theorem finPlaced_abort : FinPlaced w { s with tcb := s.tcb.abort } := by
  refine finPlaced_of_quiet (show (0 : Size) ≤ maxWindow by decide) rfl ?_ ?_
  · intro hfin
    exact absurd (show hasAny 0 flagFIN from hfin) (by decide)
  · simp [Quiet, abort, reset]

/-- A segment made of queued flags: a FIN it carries was queued and goes out next,
with data that fits the window. -/
def Queued (tcb : ControlBlock) (seg : Segment) : Prop :=
  Flags.hasAny seg.flags flagFIN = true →
    Flags.hasAny tcb.pending0 flagFIN = true ∧ seg.datalen ≤ tcb.snd.wnd ∧
      (Flags.hasAny tcb.pending0 flagRST = false → seg.seq = tcb.snd.nxt)

theorem queued_of_pends {payloadLen : ℕ} {seg' : Segment} (hout : tcb.Pends payloadLen (some seg))
    (hseq : seg'.seq = seg.seq) (hlen : seg'.datalen ≤ seg.datalen)
    (hflags : seg'.flags = seg.flags ∨ seg'.flags = seg.flags ||| flagPSH) : Queued tcb seg' := by
  intro hfin
  have hpush : hasAny seg.flags flagFIN := by
    rcases hflags with hf | hf
    · rw [hf] at hfin
      exact hfin
    rw [hf, hasAny_or, show hasAny flagPSH flagFIN = false from by decide, Bool.or_false] at hfin
    exact hfin
  cases hout with
  | challenge =>
    simp only [makeChallengeACK] at hpush
    exact absurd hpush (by decide)
  | resend =>
    simp only [resendSegment] at hpush
    exact absurd hpush (by decide)
  | ordinary =>
  refine ⟨(tcb.hasAny_pendingFlags (by decide)).symm.trans hpush, ?_, ?_⟩
  · have hdata := tcb.ordinary_datalen_le payloadLen
    bv_omega
  intro hrst
  rw [hseq]
  simp only [ordinarySegment, tcb.hasAny_pendingFlags (m := flagRST) (by decide), hrst]
  simp

theorem queued_syn (tcb : ControlBlock) (iss : Value) (wnd : Size) :
    Queued tcb (clientSynSegment iss wnd) :=
  fun h => absurd h (by simp only [clientSynSegment]; decide)

/-- Without FIN a Send leaves the state alone, or leaves CLOSING. -/
theorem sentState_noFin (st : State) {flags : Flags} (hfin : hasAny flags flagFIN = false) :
    sentState st flags = st ∨ sentState st flags = .timeWait := by
  cases st <;> simp [sentState, hfin]

theorem finPlaced_sent (h : s.FinPlaced w) (hqueued : Queued s.tcb seg)
    (hroom : w.states s.tcb.state → ∀ f, s.fin = some f → f.after + spaceUsed s.tcb seg < w.bound)
    : (s.sent seg).FinPlaced w := by
  unfold sent
  cases hsend : s.tcb.send seg with
  | mk tcb err =>
  cases err with
  | some err =>
    have hsame : (s.tcb.send seg).1 = s.tcb :=
      send_err (show (s.tcb.send seg).2 = some err by rw [hsend])
    rw [hsend] at hsame
    simp only [] at hsame ⊢
    rw [hsame]
    exact h
  | none =>
  obtain ⟨hval, hcommit⟩ := send_ok (show (s.tcb.send seg).2 = none by rw [hsend])
  rw [hsend] at hcommit
  simp only [] at hcommit ⊢
  subst hcommit
  by_cases hclosed : s.tcb.state = .closed
  · rw [if_pos hclosed, (s.tcb.commitSend_closed seg hclosed hval).2]
    refine finPlaced_of_quiet (show (1 : Size) ≤ maxWindow by decide) rfl ?_ (by simp [Quiet])
    intro hfin
    exact absurd (show hasAny 0 flagFIN from hfin) (by decide)
  rw [if_neg hclosed]
  obtain ⟨p0, p1, c, nrt, heq, hp0, hp1⟩ := s.tcb.commitSend_eq seg hclosed
  have hleft : p0 = clear s.tcb.pending0 seg.flags := by
    rw [hp0, h.second]
    split_ifs with hz
    · rw [hz]
      simp [clear]
    · rfl
  have hsecond : p1 = 0 := by
    rw [hp1, h.second]
    split_ifs <;> rfl
  have hwnd : (s.tcb.commitSend seg).snd.wnd ≤ maxWindow := by
    rw [heq]
    split_ifs <;> exact h.window
  cases hfin : hasAny seg.flags flagFIN with
  | true =>
    obtain ⟨hp, hdata, hseq⟩ := hqueued hfin
    have hnext := hseq (h.noReset hp)
    have hgone : hasAny (s.tcb.commitSend seg).pending0 flagFIN = false := by
      rw [heq]
      simp only [hleft, hasAny_clear_FIN, hfin, Bool.not_true, Bool.and_false]
    have hnxt : (s.tcb.commitSend seg).snd.nxt = advance seg.last (1 + 0) := by
      rw [heq]
      simp only [hnext, lessThan_self, Bool.false_eq_true, if_false]
      rw [← hnext]
      have hlen : seg.len ≠ 0 := by
        rw [Segment.len_eq, hfin, if_pos rfl]
        have hmax : maxWindow.toNat = 1073725440 := by decide
        have hwindow := h.window
        split_ifs <;> bv_omega
      simp only [Segment.last, if_neg hlen, Value.add, advance]
      bv_omega
    rw [if_pos rfl]
    refine ⟨hwnd, by rw [heq]; exact hsecond, ?_, fun _ => hgone, fun _ _ => ?_⟩
    · rw [hgone]
      simp
    · exact ⟨⟨seg.last, 0⟩, rfl, hnxt, w.pos⟩
  | false =>
  have hkept : hasAny (s.tcb.commitSend seg).pending0 flagFIN =
      hasAny s.tcb.pending0 flagFIN := by
    rw [heq]
    simp only [hleft, hasAny_clear_FIN, hfin, Bool.not_false, Bool.and_true]
  have hno : hasAny (s.tcb.commitSend seg).pending0 flagFIN →
      hasAny (s.tcb.commitSend seg).pending0 flagRST = false := by
    rw [hkept]
    intro hp
    rw [heq]
    simp only [hleft, hasAny_clear_RST, h.noReset hp, Bool.false_and]
  have hsec : (s.tcb.commitSend seg).pending1 = 0 := by
    rw [heq]
    exact hsecond
  rw [if_neg (by simp)]
  rcases sentState_noFin s.tcb.state hfin with hst | hst
  · have hstate : (s.tcb.commitSend seg).state = s.tcb.state := by
      rw [heq]
      exact hst
    refine ⟨hwnd, hsec, hno, ?_, ?_⟩
    · simp only [hstate, hkept]
      exact h.taken
    simp only [hstate, hkept]
    intro hw hp
    obtain ⟨f, hf, hnxt, hlt⟩ := h.placed hw hp
    refine ⟨{ f with after := f.after + spaceUsed s.tcb seg }, by rw [hf]; rfl, ?_, hroom hw f hf⟩
    rw [heq, ← Nat.add_assoc]
    unfold spaceUsed
    split_ifs
    · exact hnxt
    · rw [← advance_advance, ← hnxt]
      simp [advance]
  have hstate : (s.tcb.commitSend seg).state = .timeWait := by
    rw [heq]
    exact hst
  exact finPlaced_of_quiet hwnd hsec hno (by simp [Quiet, hstate])

theorem finPlaced_accepted {mid : ControlBlock} {pending : Flags} (h : s.FinPlaced w)
    (hacc : s.tcb.Accepts seg mid pending) :
    FinPlaced w { s with tcb := mid.acceptSegment seg pending } := by
  obtain ⟨wnd, wl1, wl2, dup, nrt, hwnd, -, -, heq⟩ := acceptSegment_eq mid seg pending
  have hseg := incomingError_window hacc.acceptable
  have hsyn : hasAny synack flagFIN = false := by decide
  rw [heq]
  cases rcvState_handled hacc.handled with
  | listenSyn hst =>
    refine finPlaced_of_quiet ?_ h.second ?_ (by simp [Quiet])
    · rcases hwnd with hw | hw <;> (simp only [hw]; exact hseg)
    · simp only [hasAny_or, hsyn]
      simp
  | synAcked hst =>
    refine h.kept ?_ rfl (.inr rfl) rfl (.inr (.inr (by simp [Quiet])))
    rcases hwnd with hw | hw
    · simp only [hw]; exact h.window
    · simp only [hw]; exact hseg
  | simultaneousOpen hst =>
    refine finPlaced_of_quiet ?_ h.second ?_ (by simp [Quiet])
    · rcases hwnd with hw | hw <;> (simp only [hw]; exact hseg)
    simp only [hasAny_or, hsyn, Bool.or_false]
    intro hfin
    rw [resetRcv, resetSnd] at hfin ⊢
    rw [h.noReset hfin]
    decide
  | opened hst =>
    refine h.kept ?_ rfl (.inl (by simp)) rfl (.inr (.inr (by simp [Quiet])))
    rcases hwnd with hw | hw
    · simp only [hw]; exact h.window
    · simp only [hw]; exact hseg
  | moved hmove hpending =>
    refine h.kept ?_ rfl ?_ rfl ?_
    · rcases hwnd with hw | hw
      · simp only [hw]; exact h.window
      · simp only [hw]; exact hseg
    · rcases hpending with rfl | rfl
      · exact .inl (by simp)
      · exact .inr rfl
    cases hmove with
    | stay => exact .inl rfl
    | simultaneousFin hst => exact .inr (.inl ⟨hst, rfl⟩)
    | _ => exact .inr (.inr (by simp [Quiet]))
  | finished hst =>
  refine finPlaced_of_quiet ?_ rfl ?_ (by simp [Quiet, abort, reset])
  · rcases hwnd with hw | hw
    · simp only [hw]
      exact (by decide : (0 : Size) ≤ maxWindow)
    · simp only [hw]; exact hseg
  · intro hfin
    exact absurd (show hasAny (0 ||| 0) flagFIN from hfin) (by decide)

theorem finPlaced_recv {err : Option Err} (h : s.FinPlaced w)
    (hrecv : s.tcb.recv seg = .ok (tcb, err)) : FinPlaced w { s with tcb := tcb } := by
  obtain ⟨c, hemit⟩ := s.tcb.triggerChallengeAckEmit_eq
  cases recv_outcome hrecv with
  | accepted hacc => exact finPlaced_accepted h hacc
  | ignored => exact h
  | challenge =>
    rw [hemit]
    exact h.kept h.window rfl (.inl rfl) rfl (.inl rfl)
  | limit | rstAbort => exact finPlaced_abort
  | synChallenge | rstChallenge =>
    rw [hemit]
    exact h.kept h.window rfl (.inr rfl) rfl (.inl rfl)
  | ackDrop => exact h.kept h.window rfl (.inr rfl) rfl (.inl rfl)
  | preReset hpre hacc =>
    refine finPlaced_of_quiet (incomingError_window hacc) h.second ?_ ?_
    · intro hfin
      exact absurd hfin (by simp only [resetSnd]; decide)
    · cases hst : s.tcb.state <;> simp_all [Quiet, resetSnd, State.isPreestablished]
  | relisten hrst hst =>
  refine finPlaced_of_quiet h.window h.second ?_ ?_
  · intro hfin
    exact absurd (show hasAny 0 flagFIN from hfin) (by decide)
  · simp [Quiet, resetSnd, resetRcv]

theorem hasAny_RST_keepAck (p : Flags) : hasAny ((p &&& flagACK) ||| flagFIN) flagRST = false := by
  have hdisjoint : flagACK &&& flagRST = 0 := by decide
  rw [hasAny_or]
  simp only [hasAny, BitVec.and_assoc, hdisjoint]
  simp [flagFIN, flagRST]

theorem finPlaced_close (h : s.FinPlaced w) : FinPlaced w { s with tcb := s.tcb.close.1 } := by
  unfold close
  cases hst : s.tcb.state
  case closeWait =>
    refine ⟨h.window, rfl, fun _ => ?_, ?_, fun _ hno => ?_⟩
    · exact (by decide : hasAny (flagFIN ||| flagACK) flagRST = false)
    · simp
    · exact absurd (show hasAny (flagFIN ||| flagACK) flagFIN = false from hno) (by decide)
  case listen => exact finPlaced_abort
  case synSent => exact finPlaced_abort
  case synRcvd =>
    exact finPlaced_of_quiet h.window h.second (fun _ => hasAny_RST_keepAck _) (by simp [Quiet])
  case established =>
    exact finPlaced_of_quiet h.window h.second (fun _ => hasAny_RST_keepAck _) (by simp [Quiet])
  all_goals exact h

end Keeping

end Tracked

end Lneto.FinTracking
