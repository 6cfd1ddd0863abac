import Lneto.FinTracking

/-!
Passive and simultaneous close over whole runs of a control block that sends
only what PendingSegment offers: when LAST-ACK and CLOSING are left.
-/
namespace Lneto.PassiveClose

open Segments SerialNumbers GuardedRuns Control FinTracking FinTracking.Tracked ControlBlock Except

variable {s s' : Tracked} {seg : Segment}

/-- The calls of a connection that sends only what PendingSegment offers. -/
inductive ExchangeOp where
  | openPassive (iss : Value) (wnd : Size)
  | openActive (iss : Value) (wnd : Size)
  /-- PendingSegment, then Send: the caller fills at most the offered octets, sets
  its window and may push. -/
  | sendPending (payloadLen : ℕ) (filled wnd : Size) (push : Bool)
  | recv (seg : Segment)
  | close
  | abort
  | setRecvWindow (wnd : Size)
deriving DecidableEq, Repr

def filledSegment (seg : Segment) (filled wnd : Size) (push : Bool) : Segment :=
  { seg with
    datalen := if filled < seg.datalen then filled else seg.datalen
    wnd := wnd
    flags := if push then seg.flags ||| flagPSH else seg.flags }

def step (s : Tracked) : ExchangeOp → Except Panic Tracked
  | .openPassive iss wnd =>
    match s.tcb.openPassive iss wnd with
    | (tcb, some _) => .ok { s with tcb := tcb }
    | (tcb, none) => .ok { tcb := tcb }
  | .openActive iss wnd => .ok (s.sent (clientSynSegment iss wnd))
  | .sendPending payloadLen filled wnd push =>
    match s.tcb.pendingSegment payloadLen with
    | .error p => .error p
    | .ok none => .ok s
    | .ok (some seg) => .ok (s.sent (filledSegment seg filled wnd push))
  | .recv seg =>
    match s.tcb.recv seg with
    | .error p => .error p
    | .ok (tcb, _) => .ok { s with tcb := tcb }
  | .close => .ok { s with tcb := s.tcb.close.1 }
  | .abort => .ok { s with tcb := s.tcb.abort }
  | .setRecvWindow wnd => .ok { s with tcb := s.tcb.setRecvWindow wnd }

/-- No ACK leaves a CLOSING block, and less than half the number space is used
after the FIN. -/
def SendOk (s : Tracked) (seg : Segment) : Prop :=
  (s.tcb.state = .closing → Flags.hasAny seg.flags flagACK = false) ∧
    (s.fin.all fun f => decide (f.after + spaceUsed s.tcb seg < 2 ^ 31)) = true

/-- An acceptable ACK in LAST-ACK or CLOSING comes after the FIN was sent and
acknowledges all that was. -/
def AckOk (s : Tracked) (seg : Segment) : Prop :=
  (s.tcb.state = .lastAck ∨ s.tcb.state = .closing) → s.tcb.incomingError seg = none →
    Flags.hasAny seg.flags flagRST = false → Flags.hasAny seg.flags flagACK = true →
      Flags.hasAny s.tcb.pending0 flagFIN = false ∧ seg.ack = s.tcb.snd.nxt

def CloseOk (s : Tracked) : ExchangeOp → Prop
  | .openActive iss wnd => SendOk s (clientSynSegment iss wnd)
  | .sendPending payloadLen filled wnd push =>
    ∀ seg ∈ (s.tcb.pendingSegment payloadLen).toOption.join,
      SendOk s (filledSegment seg filled wnd push)
  | .recv seg => AckOk s seg
  | _ => True

instance (s : Tracked) (seg : Segment) : Decidable (SendOk s seg) := by
  unfold SendOk
  infer_instance

instance (s : Tracked) (seg : Segment) : Decidable (AckOk s seg) := by
  unfold AckOk
  infer_instance

instance (s : Tracked) (op : ExchangeOp) : Decidable (CloseOk s op) :=
  match op with
  | .openPassive _ _ | .close | .abort | .setRecvWindow _ => isTrue trivial
  | .openActive iss wnd => inferInstanceAs (Decidable (SendOk s (clientSynSegment iss wnd)))
  | .sendPending payloadLen filled wnd push =>
    inferInstanceAs (Decidable (∀ seg ∈ (s.tcb.pendingSegment payloadLen).toOption.join,
      SendOk s (filledSegment seg filled wnd push)))
  | .recv seg => inferInstanceAs (Decidable (AckOk s seg))

theorem queued_filled {tcb : ControlBlock} {payloadLen : ℕ} (h : tcb.Pends payloadLen (some seg))
    (filled wnd : Size) (push : Bool) : Tracked.Queued tcb (filledSegment seg filled wnd push) := by
  refine Tracked.queued_of_pends h rfl ?_ ?_
  · simp only [filledSegment]
    split_ifs <;> bv_omega
  simp only [filledSegment]
  split_ifs
  · exact .inr rfl
  · exact .inl rfl

def closeWatch : Watch where
  states st := st == .finWait1 || st == .closing || st == .lastAck
  bound := 2 ^ 31
  pos := by decide
  closing _ := rfl
  only st h := by
    simp only [Bool.or_eq_true, beq_iff_eq] at h
    tauto

theorem roomy (hok : SendOk s seg) : closeWatch.states s.tcb.state → ∀ f, s.fin = some f →
      f.after + spaceUsed s.tcb seg < closeWatch.bound := by
  intro _ f hf
  have hroom := hok.2
  rw [hf, Option.all_some, decide_eq_true_eq] at hroom
  exact hroom

theorem finPlaced_step {op : ExchangeOp} (h : s.FinPlaced closeWatch) (hok : CloseOk s op)
    (hstep : step s op = .ok s') : s'.FinPlaced closeWatch := by
  cases op with
  | openPassive iss wnd =>
    simp only [step, openPassive] at hstep
    split_ifs at hstep
    · obtain rfl := ok.inj hstep
      exact h
    · obtain rfl := ok.inj hstep
      exact h
    obtain rfl := ok.inj hstep
    refine finPlaced_of_quiet (show (1 : Size) ≤ maxWindow by decide) rfl ?_ ?_
    · intro hfin
      exact absurd (show Flags.hasAny 0 flagFIN from hfin) (by decide)
    · simp [Quiet, prepareToHandshake]
  | openActive iss wnd =>
    obtain rfl := ok.inj hstep
    exact finPlaced_sent h (queued_syn _ _ _) (roomy hok)
  | sendPending payloadLen filled wnd push =>
    obtain ⟨r, hr, hout⟩ := s.tcb.pendingSegment_outcome payloadLen
    simp only [step, hr] at hstep
    cases r with
    | none =>
      obtain rfl := ok.inj hstep
      exact h
    | some seg =>
    obtain rfl := ok.inj hstep
    refine finPlaced_sent h (queued_filled hout filled wnd push) (roomy (hok seg ?_))
    rw [hr]
    rfl
  | recv seg =>
    simp only [step] at hstep
    cases hrecv : s.tcb.recv seg with
    | error p =>
      rw [hrecv] at hstep
      cases hstep
    | ok r =>
    rw [hrecv] at hstep
    obtain rfl := ok.inj hstep
    exact finPlaced_recv h hrecv
  | close =>
    obtain rfl := ok.inj hstep
    exact finPlaced_close h
  | abort =>
    obtain rfl := ok.inj hstep
    exact finPlaced_abort
  | setRecvWindow wnd =>
    obtain rfl := ok.inj hstep
    exact h.kept h.window rfl (.inl rfl) rfl (.inl rfl)

/-- The block moves from LAST-ACK to CLOSED or from CLOSING to TIME-WAIT. -/
def Leaves (s s' : Tracked) : Prop :=
  (s.tcb.state = .lastAck ∧ s'.tcb.state = .closed) ∨
    (s.tcb.state = .closing ∧ s'.tcb.state = .timeWait)

def CoversFin (s : Tracked) (seg : Segment) : Prop :=
  Flags.hasAny seg.flags flagACK = true ∧
    ∃ f, s.fin = some f ∧ Value.lessThan f.seq seg.ack = true

/-- What lets a block leave: Abort, a RST, the challenge limit or an ACK of its FIN. -/
def MayLeave (s : Tracked) (op : ExchangeOp) : Prop :=
  op = .abort ∨ ∃ seg, op = .recv seg ∧ (Flags.hasAny seg.flags flagRST = true ∨
    (s.tcb.Challenged seg ∧ s.tcb.tooManyChallengeAcks = true) ∨ CoversFin s seg)

theorem Leaves.changes (h : Leaves s s') : s'.tcb.state ≠ s.tcb.state := by
  rcases h with ⟨h1, h2⟩ | ⟨h1, h2⟩ <;> simp [h1, h2]

theorem not_leaves_sent (hok : SendOk s seg) : ¬ Leaves s (s.sent seg) := by
  have hstate : s.tcb.state ≠ .closed → (s.sent seg).tcb.state = s.tcb.state ∨
      (s.sent seg).tcb.state = sentState s.tcb.state seg.flags := by
    intro hopen
    unfold sent
    cases hsend : s.tcb.send seg with
    | mk tcb err =>
    cases err with
    | some err =>
      have hsame := send_err (show (s.tcb.send seg).2 = some err by rw [hsend])
      rw [hsend] at hsame
      exact .inl (congrArg state hsame)
    | none =>
    obtain ⟨-, hcommit⟩ := send_ok (show (s.tcb.send seg).2 = none by rw [hsend])
    obtain ⟨p0, p1, c, nrt, heq, -⟩ := s.tcb.commitSend_eq seg hopen
    rw [hsend, heq] at hcommit
    simp only [] at hcommit ⊢
    rw [if_neg hopen, hcommit]
    split_ifs <;> exact .inr rfl
  rintro (⟨hst, hst'⟩ | ⟨hst, hst'⟩)
  · rcases hstate (by simp [hst]) with h | h
    · simp [h, hst] at hst'
    · simp [h, hst, sentState] at hst'
  rcases hstate (by simp [hst]) with h | h
  · simp [h, hst] at hst'
  · simp [h, hst, sentState, hok.1 hst] at hst'

theorem coversFin_of_accepts {mid : ControlBlock} {pending : Flags} (h : s.FinPlaced closeWatch)
    (hok : AckOk s seg) (hacc : s.tcb.Accepts seg mid pending)
    (hleave : Leaves s { s with tcb := mid.acceptSegment seg pending }) : CoversFin s seg := by
  have hst : s.tcb.state = .lastAck ∨ s.tcb.state = .closing := by
    rcases hleave with hl | hl
    · exact .inl hl.1
    · exact .inr hl.1
  have hack : Flags.hasAny seg.flags flagACK := by
    have hchange := hleave.changes
    simp only [acceptSegment_state] at hchange
    cases rcvState_handled hacc.handled with
    | finished _ hack => exact hack
    | moved hmove =>
      cases hmove with
      | closingAcked _ hack => exact hack
      | stay => exact absurd rfl hchange
      | _ => simp_all
    | _ => simp_all
  obtain ⟨htaken, hnum⟩ := hok hst hacc.acceptable hacc.notRST hack
  have hwatched : closeWatch.states s.tcb.state := by
    rcases hst with hst | hst <;> rw [hst] <;> rfl
  obtain ⟨f, hf, hnxt, hlt⟩ := h.placed hwatched htaken
  have hlt : f.after < 2 ^ 31 := hlt
  refine ⟨hack, f, hf, ?_⟩
  rw [hnum, hnxt, lessThan_iff, ahead_advance _ _ (by omega)]
  omega

theorem mayLeave_step {op : ExchangeOp} (h : s.FinPlaced closeWatch) (hok : CloseOk s op)
    (hstep : step s op = .ok s') (hleave : Leaves s s') : MayLeave s op := by
  cases op with
  | openPassive iss wnd =>
    have hst : ¬ (s.tcb.state ≠ .closed ∧ s.tcb.state ≠ .timeWait) → False := by
      rcases hleave with hl | hl <;> simp [hl.1]
    simp only [step, openPassive] at hstep
    split_ifs at hstep with h1 h2
    · obtain rfl := ok.inj hstep
      exact absurd rfl hleave.changes
    all_goals exact (hst h1).elim
  | openActive iss wnd =>
    obtain rfl := ok.inj hstep
    exact absurd hleave (not_leaves_sent hok)
  | sendPending payloadLen filled wnd push =>
    obtain ⟨r, hr, -⟩ := s.tcb.pendingSegment_outcome payloadLen
    simp only [step, hr] at hstep
    cases r with
    | none =>
      obtain rfl := ok.inj hstep
      exact absurd rfl hleave.changes
    | some seg =>
    obtain rfl := ok.inj hstep
    refine absurd hleave (not_leaves_sent (hok seg ?_))
    rw [hr]
    rfl
  | recv seg =>
    right
    refine ⟨seg, rfl, ?_⟩
    simp only [step] at hstep
    cases hrecv : s.tcb.recv seg with
    | error p =>
      rw [hrecv] at hstep
      cases hstep
    | ok r =>
    obtain ⟨tcb, err⟩ := r
    rw [hrecv] at hstep
    obtain rfl := ok.inj hstep
    obtain ⟨c, hemit⟩ := s.tcb.triggerChallengeAckEmit_eq
    cases recv_outcome hrecv with
    | accepted hacc => exact .inr (.inr (coversFin_of_accepts h hok hacc hleave))
    | limit hch hmany => exact .inr (.inl ⟨hch, hmany⟩)
    | rstAbort hrst => exact .inl hrst
    | rstChallenge hrst => exact .inl hrst
    | relisten hrst => exact .inl hrst
    | preReset hpre =>
      rcases hleave with hl | hl <;> simp [hl.1, State.isPreestablished] at hpre
    | ignored => exact absurd rfl hleave.changes
    | challenge =>
      rw [hemit] at hleave
      exact absurd rfl hleave.changes
    | synChallenge =>
      rw [hemit] at hleave
      exact absurd rfl hleave.changes
    | ackDrop => exact absurd rfl hleave.changes
  | close =>
    obtain rfl := ok.inj hstep
    rcases hleave with ⟨h3, h4⟩ | ⟨h3, h4⟩ <;> simp [close, h3] at h4
  | abort => exact .inl rfl
  | setRecvWindow wnd =>
    obtain rfl := ok.inj hstep
    exact absurd rfl hleave.changes

/-- In a run with such ACKs, LAST-ACK and CLOSING are left only by Abort, a RST, the
challenge limit or an ACK of the FIN that was sent. -/
theorem leaves_only_on_fin_ack (ops : List ExchangeOp) (hops : Guarded step CloseOk {} ops)
    (s : Tracked) (hrun : exec step {} ops = .ok s) (op : ExchangeOp) (hop : CloseOk s op)
    (s' : Tracked) (hstep : step s op = .ok s') (hleave : Leaves s s') : MayLeave s op := by
  have hplaced : s.FinPlaced closeWatch := by
    refine exec_invariant (I := Tracked.FinPlaced closeWatch) ?_ ops {} s ?_ hops hrun
    · intro t e t' ht hg hs
      exact finPlaced_step ht hg hs
    · exact finPlaced_of_quiet (by decide) rfl (by decide) (by simp [Quiet])
  exact mayLeave_step hplaced hop hstep hleave

def openedOps : List ExchangeOp :=
  [.openPassive 100 1000, .recv { seq := 300, wnd := 1000, flags := flagSYN },
    .sendPending 0 0 1000 false,
    .recv { seq := 301, ack := 101, wnd := 1000, flags := flagACK }]

def lastAckOps : List ExchangeOp :=
  openedOps ++ [.recv { seq := 301, ack := 101, wnd := 1000, flags := flagFIN ||| flagACK },
    .sendPending 0 0 1000 false, .close]

def closingOps : List ExchangeOp :=
  openedOps ++ [.close, .sendPending 0 0 1000 false,
    .recv { seq := 301, ack := 101, wnd := 1000, flags := flagFIN ||| flagACK }]

theorem leaves_only_on_fin_ack_passive :
    ∃ s s', exec step {} (lastAckOps ++ [.sendPending 0 0 1000 false]) = .ok s ∧
      step s (.recv { seq := 302, ack := 102, wnd := 1000, flags := flagACK }) = .ok s' ∧
      Leaves s s' ∧
      MayLeave s (.recv { seq := 302, ack := 102, wnd := 1000, flags := flagACK }) := by
  refine ⟨_, _, rfl, rfl, .inl ⟨by decide, by decide⟩, ?_⟩
  exact leaves_only_on_fin_ack (lastAckOps ++ [.sendPending 0 0 1000 false]) (by decide) _ rfl
    _ (by decide) _ rfl (.inl ⟨by decide, by decide⟩)

theorem not_mayLeave_recv (hrst : Flags.hasAny seg.flags flagRST = false)
    (hacc : s.tcb.incomingError seg = none) (hfin : s.fin = none) : ¬ MayLeave s (.recv seg) := by
  rintro (h | ⟨seg', h, hr | ⟨⟨err, herr, -⟩, -⟩ | ⟨-, f, hf, -⟩⟩)
  · cases h
  · cases h
    rw [hrst] at hr
    cases hr
  · cases h
    rw [hacc] at herr
    cases herr
  · rw [hfin] at hf
    cases hf

/-- LAST-ACK is left on an ACK from before the FIN, and CLOSING by acknowledging the
peer's FIN. -/
theorem leaves_before_fin_ack : (∃ s s' op, exec step {} lastAckOps = .ok s ∧ step s op = .ok s' ∧
      op = .recv { seq := 302, ack := 101, wnd := 1000, flags := flagACK } ∧
      s.fin = none ∧ Leaves s s' ∧ ¬ MayLeave s op) ∧
    ∃ s s' op, exec step {} closingOps = .ok s ∧ step s op = .ok s' ∧
      op = .sendPending 0 0 1000 false ∧ s.fin = some ⟨101, 0⟩ ∧ Leaves s s' ∧
      ¬ MayLeave s op := by
  refine ⟨⟨_, _, .recv { seq := 302, ack := 101, wnd := 1000, flags := flagACK }, rfl, rfl, rfl,
    by decide, .inl ⟨by decide, by decide⟩, ?_⟩, ⟨_, _, .sendPending 0 0 1000 false, rfl, rfl,
    rfl, by decide, .inr ⟨by decide, by decide⟩, ?_⟩⟩
  · exact not_mayLeave_recv (by decide) (by decide) (by decide)
  rintro (h | ⟨seg, h, -⟩)
  · cases h
  · cases h

end Lneto.PassiveClose
