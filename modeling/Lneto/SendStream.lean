import Lneto.SendProgress

/-!
The sent stream over whole runs of a connection. A run carries the bytes that
Write accepted since the open; as long as no call takes the cursors of block
and ring apart, every payload that leaves is the stream at its sequence
number.
-/
namespace Lneto.SendStream

open Segments SerialNumbers GuardedRuns Control TransmitRing Frames Connection SendCursors
  SendProgress Flags ControlBlock State List
open Handler hiding close abort reset

variable {scb : ControlBlock} {tx : RingTx} {pol : PolicyTx} {op : HandlerOp}

section Emitting
variable {h mid : Handler} {stream payload options : List UInt8} {seg : Segment} {room offset : ℕ}
  {awaitingSyn : Bool}

theorem sending_first (h : Sending scb tx stream) (hst : scb.state = .closed) (hw : stream = [])
    (hseq : seg.seq = tx.iss) (hval : scb.validateOutgoingSegment seg = none) :
    Sending (scb.commitSend seg) tx stream := by
  rw [(scb.commitSend_closed seg hst hval).2]
  have hnone : ∀ m : Flags, hasAny 0 m → False := by
    intro m hm
    rw [hasAny_zero] at hm
    cases hm
  refine ⟨h.empty, rfl, fun hs => (hnone _ hs).elim, fun _ => ⟨hw, rfl⟩,
    fun _ => .inr rfl, fun _ => ⟨hasAny_zero _, hseq.symm⟩, ?_, ?_⟩
  · simp [txQueuedDataOpen, txDataOpen]
  · simp [txDataOpen]

theorem filled_queued {pseg : Segment} (hp : h.scb.Pends room (some pseg))
    (hdata : pseg.datalen ≠ 0) :
    h.scb.state.txQueuedDataOpen := by
  cases hp with
  | challenge => exact absurd rfl hdata
  | resend hre =>
    simp only [hasPendingRetransmit, Bool.and_eq_true] at hre
    simp [txQueuedDataOpen, hre.1.1]
  | ordinary =>
  cases hq : h.scb.state.txQueuedDataOpen with
  | true => rfl
  | false => exact absurd (ordinary_bare h.scb room hq).1 hdata

theorem sending_chosen (hs : Sending h.scb h.bufTx stream)
    (hch : Chosen h awaitingSyn room mid (.segment seg offset options payload))
    (hsend : (h.scb.send seg).2 = none) (hawait : awaitingSyn → h.scb.state = .closed ∧ stream = [])
    (hrst : hasAny seg.flags flagRST = false)
    (hfin : hasAny seg.flags flagFIN → mid.bufTx.bufferedUnsent = 0) :
    Sending (h.scb.commitSend seg) mid.bufTx stream ∧
      Drawn stream h.scb.snd.iss seg.seq payload := by
  cases hch with
  | syn hwhy =>
    refine ⟨?_, drawn_nil _ _ _⟩
    rcases hwhy with haw | ⟨-, hst⟩
    · exact sending_first hs (hawait haw).1 (hawait haw).2 rfl (send_ok hsend).1
    have hsyn : hasAny flagSYN flagSYN := by decide
    have hfin : hasAny flagSYN flagFIN = false := by decide
    exact sending_syn hs (.inl hst) (hs.active hst).2 (len_eq_one rfl hfin hsyn) hsyn hfin
  | synackAgain hst =>
    have hsyn : hasAny synack flagSYN := by decide
    have hfin : hasAny synack flagFIN = false := by decide
    exact ⟨sending_syn hs (.inr hst) (hs.opening (by rw [hst]; rfl)).2
      (len_eq_one rfl hfin hsyn) hsyn hfin, drawn_nil _ _ _⟩
  | bare hp hwhy =>
    have hopen : h.scb.state ≠ .closed := by
      refine open_of_pends hs hp ?_ hsend
      rfl
    have hplain : ∀ out : Segment, out.flags = flagACK → out.datalen = 0 →
        Sending (h.scb.commitSend out) h.bufTx stream := by
      intro out hf hd
      have hfin : hasAny out.flags flagFIN = false := by rw [hf]; decide
      have hsyn : hasAny out.flags flagSYN = false := by rw [hf]; decide
      exact sending_quiet hs hopen (.inr (len_eq_zero hd hfin hsyn)) hfin
    cases hp with
    | challenge => exact ⟨hplain _ rfl rfl, drawn_nil _ _ _⟩
    | resend =>
      refine ⟨hplain _ rfl ?_, drawn_nil _ _ _⟩
      rcases hwhy with hf | hd
      · exact absurd hf (by simp only [resendSegment]; decide)
      · exact hd
    | ordinary =>
    refine ⟨?_, drawn_nil _ _ _⟩
    cases hq : h.scb.state.txQueuedDataOpen with
    | false => exact sending_ordinary_bare hs hopen hq hrst rfl
    | true =>
    have hflags : ∀ m, hasAny flagACK m = false → hasAny flagPSH m = false →
        hasAny (h.scb.ordinarySegment room).flags m = hasAny h.scb.pending0 m :=
      fun m hm _ => h.scb.hasAny_pendingFlags hm
    have hdata : (h.scb.ordinarySegment room).datalen = 0 := by
      rcases hwhy with hf | hd
      · have hsyn := hflags flagSYN (by decide) (by decide)
        rw [hf, noSyn_of_state hs (by rintro hst; rw [hst] at hq; cases hq)] at hsyn
        exact absurd hsyn (by decide)
      · exact hd
    have hfill : Filled h.bufTx h.bufTx h.scb.snd.nxt [] := .inl ⟨rfl, rfl⟩
    have hseq : (h.scb.ordinarySegment room).seq = h.scb.snd.nxt := ordinary_seq hrst
    refine (sending_ordinary_data { h.scb.ordinarySegment room with wnd := h.recvWindow } hs hq
      hseq ?_ hflags hfill hfin).1
    exact hdata
  | @filled _ tx _ hp hsyn hdata hmake =>
    have hn : ∀ {n : Size}, n ≠ 0 → 0 < n.toNat := by
      intro n hn
      bv_omega
    have hq := filled_queued hp hdata
    cases hp with
    | challenge => exact absurd rfl hdata
    | resend hre hctl =>
      have hopen : h.scb.state.txDataOpen := by
        simp only [hasPendingRetransmit, Bool.and_eq_true] at hre
        exact hre.1.1
      have hno : ∀ m : Flags, hasAny flagACK m = false → hasAny flagPSH m = false →
          hasAny (h.dataSegment (h.scb.resendSegment room) payload).flags m = false :=
        fun m hm hp => (dataSegment_hasAny _ _ _ hp).trans hm
      exact sending_resend hs hopen rfl rfl (hno _ (by decide) (by decide))
        (hno _ (by decide) (by decide)) (.inr ⟨_, hn hdata, hmake⟩)
    | ordinary hno =>
    have hrst' : hasAny (h.scb.ordinarySegment room).flags flagRST = false :=
      (dataSegment_hasAny _ _ _ (by decide)).symm.trans hrst
    have hseq := ordinary_seq hrst'
    have hflags : ∀ m, hasAny flagACK m = false → hasAny flagPSH m = false →
        hasAny (h.dataSegment (h.scb.ordinarySegment room) payload).flags m =
          hasAny h.scb.pending0 m :=
      fun m hm hp => (dataSegment_hasAny _ _ _ hp).trans (h.scb.hasAny_pendingFlags hm)
    have hfill : Filled h.bufTx tx h.scb.snd.nxt payload := by
      rw [hseq] at hmake
      exact .inr ⟨_, hn hdata, hmake⟩
    have hout := sending_ordinary_data (h.dataSegment (h.scb.ordinarySegment room) payload) hs hq
      hseq rfl hflags hfill hfin
    rw [← hseq] at hout
    exact hout

theorem chosen_queued (hch : Chosen h awaitingSyn room mid (.segment seg offset options payload))
    (hne : payload ≠ []) : h.scb.state.txQueuedDataOpen := by
  cases hch with
  | filled hp hsyn hdata => exact filled_queued hp hdata
  | _ => exact absurd rfl hne

theorem chosen_bare {choice : Choice} (hch : Chosen h awaitingSyn room mid choice)
    (hb : Bare h.bufTx) : mid.bufTx = h.bufTx := by
  cases hch with
  | filled hp hsyn hdata hmake => exact (hb.makePacket hmake).1
  | noPacket hp hsyn hdata hmake => exact makePacket_err hmake
  | _ => rfl

theorem sending_afterSend (hs : Sending h.scb h.bufTx stream) (hscb : mid.scb = h.scb)
    (hbare : Bare h.bufTx → Bare mid.bufTx)
    (hsent : ¬ (h.scb.state = .timeWait ∧ hasAny seg.flags flagACK = true) →
      hasAny seg.flags flagRST = false → Sending (h.scb.commitSend seg) mid.bufTx stream) :
    Sending (mid.afterSend (h.scb.commitSend seg) seg).scb
      (mid.afterSend (h.scb.commitSend seg) seg).bufTx stream := by
  unfold afterSend
  rw [hscb]
  split_ifs with htw hrst
  · have hc := commits seg hs.second (by simp [htw.1])
    refine hs.resting (.inr (.inr ?_)) (fun hb => (hbare hb).reset _ _ _) hc.second
      (hc.noSyn (noSyn_of_state hs (by simp [htw.1])))
    show (h.scb.commitSend seg).state = .timeWait
    rw [hc.state, htw.1]
    rfl
  · exact hs.aborted (fun hb => (hbare hb).reset _ _ _)
  · exact hsent htw (by simpa using hrst)

end Emitting

section Calls
variable {h h' : Handler} {stream : List UInt8}

theorem sending_close (hs : Sending scb tx stream) (hok : scb.close.2 = none) :
    Sending scb.close.1 tx stream := by
  have hsyn : hasAny ((scb.pending0 &&& flagACK) ||| flagFIN) flagSYN = false := by
    rw [hasAny_or]
    simp only [hasAny, BitVec.and_assoc, show flagACK &&& flagSYN = 0 by decide]
    simp [flagFIN, flagSYN]
  unfold close at hok ⊢
  cases hst : scb.state <;> simp only [hst, reduceCtorEq] at hok ⊢
  case closeWait =>
    obtain ⟨a, u, b, hcur⟩ := hs.level (by rw [hst]; rfl)
    refine ⟨hs.empty, rfl, ?_, ?_, ?_, ?_, fun _ => .inr ⟨a, u, b, b, hcur.laid,
      hcur.behind, hcur.acked, hcur.una, hcur.nxt, .inl rfl, ?_, hcur.near⟩, ?_⟩
    · exact fun h => absurd (show hasAny (flagFIN ||| flagACK) flagSYN from h) (by decide)
    all_goals simp [isPreestablished, txDataOpen]
  case listen => exact hs.aborted id
  case synSent => exact hs.aborted id
  case synRcvd =>
    have hpre : scb.state.isPreestablished := by rw [hst]; rfl
    refine ⟨hs.empty, hs.second, ?_, fun _ => hs.opening hpre,
      fun _ => hs.handshake (.inr hst), ?_, ?_, ?_⟩
    · rw [hsyn]
      simp
    all_goals simp [txQueuedDataOpen, txDataOpen]
  case established =>
    obtain ⟨a, u, b, hcur⟩ := hs.level (by rw [hst]; rfl)
    refine ⟨hs.empty, hs.second, ?_, ?_, ?_, ?_, fun _ => .inr ⟨a, u, b, b, hcur.laid,
      hcur.behind, hcur.acked, hcur.una, hcur.nxt, .inl rfl, ?_, hcur.near⟩, ?_⟩
    · rw [hsyn]
      simp
    · simp [isPreestablished]
    · simp
    · simp
    · exact fun _ => hcur.exact (by rw [hst]; rfl)
    · exact fun _ => hs.dups (by rw [hst]; rfl)

theorem close_snd (hopen : scb.close.1.state ≠ .closed) : scb.close.1.snd = scb.snd := by
  revert hopen
  unfold close
  cases scb.state <;> simp [abort, reset]

/-- The ring can follow the rewind of the Policy, if the block takes one. -/
def Follows (h : Handler) (pol : PolicyTx) : Prop :=
  (h.policyEnabled && pol.doRtx) = true → (h.scb.retransmitFrom pol.rtxFrom).2 = true →
    Followed h.bufTx pol.rtxFrom

instance (h : Handler) (pol : PolicyTx) : Decidable (Follows h pol) :=
  inferInstanceAs (Decidable (_ → _ → _))

theorem sending_preTx (hs : Sending h.scb h.bufTx stream) (hfol : Follows h pol) :
    Sending (h.preTx pol).scb (h.preTx pol).bufTx stream := by
  unfold preTx
  split_ifs with hpol
  · cases htake : h.scb.retransmitFrom pol.rtxFrom with
    | mk scb ok =>
    cases ok with
    | false => exact hs
    | true => exact sending_rewound hs (hfol hpol (by rw [htake])) htake
  · exact hs

theorem autoClose_bufTx (h : Handler) : h.autoClose.bufTx = h.bufTx := by
  unfold autoClose
  split_ifs <;> rfl

/-- A failing Send takes no bytes out of the ring unless it ends the connection, a FIN
leaves no unsent bytes, and a reset carries no data. -/
structure Intact (h : Handler) (pol : PolicyTx) (h' : Handler) (r : SendResult) : Prop where
  whole : r.err = none ∨ h'.bufTx = (h.preTx pol).bufTx ∨ h'.scb.state = .closed
  fin : ∀ f ∈ r.frame, Flags.hasAny f.seg.flags flagFIN = true → h'.bufTx.bufferedUnsent = 0
  rst : ∀ f ∈ r.frame, Flags.hasAny f.seg.flags flagRST = true → f.payload = []

instance (h : Handler) (pol : PolicyTx) (h' : Handler) (r : SendResult) :
    Decidable (Intact h pol h' r) :=
  decidable_of_iff ((r.err = none ∨ h'.bufTx = (h.preTx pol).bufTx ∨ h'.scb.state = .closed) ∧
      (∀ f ∈ r.frame, Flags.hasAny f.seg.flags flagFIN = true → h'.bufTx.bufferedUnsent = 0) ∧
      ∀ f ∈ r.frame, Flags.hasAny f.seg.flags flagRST = true → f.payload = [])
    ⟨fun ⟨h1, h2, h3⟩ => ⟨h1, h2, h3⟩, fun ⟨h1, h2, h3⟩ => ⟨h1, h2, h3⟩⟩

theorem sending_transmits {start : Handler} {awaitingSyn : Bool} {room : ℕ} {r : SendResult}
    (ht : Transmits start awaitingSyn room h' r) (hs : Sending start.scb start.bufTx stream)
    (hbuf : start.bufTx = (h.preTx pol).bufTx)
    (hiss : start.scb.state ≠ .closed → start.scb.snd.iss = h.scb.snd.iss)
    (hawait : awaitingSyn → start.scb.state = .closed ∧ stream = []) (hsafe : Intact h pol h' r) :
    Sending h'.scb h'.bufTx stream ∧
      ∀ f ∈ r.frame, Drawn stream h.scb.snd.iss f.seg.seq f.payload := by
  cases ht with
  | yielded hch =>
    refine ⟨?_, by simp⟩
    cases hch with
    | requeued => exact hs
    | nothing => exact hs
    | noPacket hp hsyn hdata hmake =>
      rw [makePacket_err hmake]
      exact hs
  | @refused mid seg _ _ _ err hch hsend =>
    refine ⟨?_, by simp⟩
    rw [chosen_scb hch]
    have hsame : h'.bufTx = start.bufTx := by
      cases hch with
      | filled hp hsyn hdata hmake =>
        have hopen := filled_queued hp hdata
        rcases hsafe.whole with herr | heq | hst
        · cases herr
        · exact heq.trans hbuf.symm
        · rw [show start.scb.state = .closed from hst] at hopen
          cases hopen
      | _ => rfl
    rw [hsame]
    exact hs
  | @emitted mid seg offset options payload hch hsend =>
  have hscb := chosen_scb hch
  rw [hscb] at hsafe hsend ⊢
  -- the guard as it applies to the segment
  have hrst : hasAny seg.flags flagRST → payload = [] :=
    hsafe.rst (mid.frameOf seg offset options payload) rfl
  have hfin : ¬ (start.scb.state = .timeWait ∧ hasAny seg.flags flagACK = true) →
      hasAny seg.flags flagRST = false → hasAny seg.flags flagFIN →
      mid.bufTx.bufferedUnsent = 0 := by
    intro htw hno hf
    have hz := hsafe.fin (mid.frameOf seg offset options payload) rfl hf
    unfold afterSend at hz
    rw [hscb, if_neg htw, hno, if_neg (by simp)] at hz
    exact hz
  refine ⟨sending_afterSend hs hscb (fun hb => (chosen_bare hch hb) ▸ hb) (fun htw hno =>
    (sending_chosen hs hch hsend hawait hno (hfin htw hno)).1), ?_⟩
  rintro f hf
  obtain rfl : mid.frameOf seg offset options payload = f := Option.some.inj hf
  by_cases hnil : payload = []
  · simp only [frameOf, hnil]
    exact drawn_nil _ _ _
  have hq := chosen_queued hch hnil
  have hno : hasAny seg.flags flagRST = false := by
    rw [← Bool.not_eq_true]
    exact fun hr => hnil (hrst hr)
  have htw : ¬ (start.scb.state = .timeWait ∧ hasAny seg.flags flagACK = true) := by
    rintro ⟨hst, -⟩
    rw [hst] at hq
    cases hq
  rw [← hiss (by rintro hst; rw [hst] at hq; cases hq)]
  exact (sending_chosen hs hch hsend hawait hno (hfin htw hno)).2

section
variable (hs : Sending h.scb h.bufTx stream) (hclosed : h.scb.state = .closed → stream = [])
  (hfol : Follows h pol)
include hs hclosed hfol

theorem sending_starts {start : Handler} {awaitingSyn : Bool}
    (hstart : h.Starts pol start awaitingSyn) :
    Sending start.scb start.bufTx stream ∧ start.bufTx = (h.preTx pol).bufTx ∧
      (start.scb.state ≠ .closed →
        start.scb.snd.iss = h.scb.snd.iss ∧ start.scb.snd.una = h.scb.snd.una) ∧
      (awaitingSyn → start.scb.state = .closed ∧ stream = []) := by
  have hpre : Sending (h.preTx pol).autoClose.scb (h.preTx pol).autoClose.bufTx stream := by
    rw [autoClose_scb, autoClose_bufTx]
    exact sending_preTx hs hfol
  obtain ⟨nxt, dup, nrt, hscb⟩ := h.preTx_scb pol
  rw [← autoClose_scb] at hscb
  have hawait : (h.preTx pol).autoClose.awaitingSynSend →
      (h.preTx pol).autoClose.scb.state = .closed ∧ stream = [] := by
    intro haw
    simp only [awaitingSynSend, Bool.and_eq_true, beq_iff_eq] at haw
    refine ⟨haw.2, hclosed ?_⟩
    rw [hscb] at haw
    exact haw.2
  cases hstart with
  | going => exact ⟨hpre, autoClose_bufTx _, fun _ => by rw [hscb]; exact ⟨rfl, rfl⟩, hawait⟩
  | closed hdue hclose =>
  refine ⟨sending_close hpre hclose, autoClose_bufTx _, fun hopen => ?_, fun haw => ?_⟩
  · have hsnd : (h.preTx pol).autoClose.scb.close.1.snd = _ := close_snd hopen
    simp only [hsnd]
    rw [hscb]
    exact ⟨rfl, rfl⟩
  · rw [close, (hawait haw).1] at hclose
    cases hclose

/-- Send keeps the two sides together, and what it emits is the written stream. -/
theorem sending_sends {len : ℕ} {r : SendResult}
    (hsafe : Intact h pol h' r) (hout : Sends h len pol h' r) : Sending h'.scb h'.bufTx stream ∧
      ∀ f ∈ r.frame, Drawn stream h.scb.snd.iss f.seg.seq f.payload := by
  have hpre : Sending (h.preTx pol).autoClose.scb (h.preTx pol).autoClose.bufTx stream := by
    rw [autoClose_scb, autoClose_bufTx]
    exact sending_preTx hs hfol
  cases hout with
  | idle => exact ⟨hs, by simp⟩
  | quiet => exact ⟨hpre, by simp⟩
  | ended =>
    refine ⟨?_, by simp⟩
    exact hpre.aborted (fun hb => hb.reset _ _ _)
  | transmitted hlive hstart ht =>
    obtain ⟨hmid, hbuf, hsame, hawait⟩ := sending_starts hs hclosed hfol hstart
    exact sending_transmits ht hmid hbuf (fun hopen => (hsame hopen).1) hawait hsafe

end

/-- Send follows the Policy back in the stream. -/
def Rewinds (h : Handler) (pol : PolicyTx) : Prop :=
  (h.policyEnabled && pol.doRtx) = true ∧ (h.scb.retransmitFrom pol.rtxFrom).2 = true

instance (h : Handler) (pol : PolicyTx) : Decidable (Rewinds h pol) :=
  inferInstanceAs (Decidable (_ ∧ _))

/-- The window to announce is one that a segment may carry, a FIN is queued behind the last
byte only, and a RST where no data goes with it. -/
def Settled (h : Handler) : Prop :=
  ¬ maxWindow < h.recvWindow ∧
  (hasAny h.scb.pending0 flagFIN = true → h.bufTx.bufferedUnsent = 0) ∧
  (hasAny h.scb.pending0 flagRST = true →
    h.scb.state.txQueuedDataOpen = false ∨ Spent h.bufTx h.scb.rstPtr)

instance (h : Handler) : Decidable (Settled h) := inferInstanceAs (Decidable (_ ∧ _ ∧ _))

/-- The state before Send is settled, and a rewind finds room for a header and neither FIN
nor RST queued. -/
def Ready (h : Handler) (len : ℕ) (pol : PolicyTx) : Prop :=
  Settled h ∧ (Rewinds h pol → sizeHeaderTCP ≤ len ∧
    hasAny h.scb.pending0 flagFIN = false ∧ hasAny h.scb.pending0 flagRST = false)

instance (h : Handler) (len : ℕ) (pol : PolicyTx) : Decidable (Ready h len pol) :=
  inferInstanceAs (Decidable (_ ∧ _))

theorem preTx_kept (hno : ¬ Rewinds h pol) : h.preTx pol = h := by
  unfold preTx
  split_ifs with hpol
  · cases htake : h.scb.retransmitFrom pol.rtxFrom with
    | mk scb ok =>
    cases ok with
    | false => rfl
    | true => exact absurd ⟨hpol, by rw [htake]⟩ hno
  · rfl

/-- What Send starts from is settled, after a rewind and a due close too. -/
theorem Ready.settled {len : ℕ} {start : Handler} {awaitingSyn : Bool} (hr : Ready h len pol)
    (hstart : h.Starts pol start awaitingSyn) : Settled start := by
  have hpre : Settled (h.preTx pol).autoClose := by
    have hrx : (h.preTx pol).autoClose.recvWindow = h.recvWindow := by
      unfold autoClose preTx
      split_ifs <;> (try split) <;> rfl
    obtain ⟨nxt, dup, nrt, hscb⟩ := h.preTx_scb pol
    by_cases hre : Rewinds h pol
    · obtain ⟨-, hfin, hrst⟩ := hr.2 hre
      rw [Settled, hrx, autoClose_scb, hscb]
      simp only [hfin, hrst]
      exact ⟨hr.1.1, nofun, nofun⟩
    · rw [Settled, hrx, autoClose_scb, autoClose_bufTx, preTx_kept hre]
      exact hr.1
  cases hstart with
  | going => exact hpre
  | closed hdue hclose =>
  refine ⟨hpre.1, fun _ => ?_, fun hrst => ?_⟩
  · simp only [closeDue, Bool.and_eq_true, beq_iff_eq] at hdue
    exact hdue.1.1
  · rw [close_pending0 hclose] at hrst
    cases hrst

/-- The next bytes within the window pass the block's check. -/
theorem validateOutgoing_data {seg : Segment} (hq : scb.state.txQueuedDataOpen)
    (hseq : seg.seq = scb.snd.nxt) (hack : hasAny seg.flags flagACK → seg.ack = scb.rcv.nxt)
    (hwnd : ¬ maxWindow < seg.wnd) (hlen : seg.len = seg.datalen) (hpos : scb.snd.wnd ≠ 0)
    (hfits : seg.datalen ≤ scb.snd.wnd) : scb.validateOutgoingSegment seg = none := by
  have hfirst : Value.inWindow seg.seq scb.snd.nxt scb.snd.wnd = true := by
    rw [hseq, Value.inWindow, Value.inRange, Value.add, decide_eq_true_eq]
    bv_omega
  have hlast : Value.inWindow seg.last scb.snd.nxt scb.snd.wnd = true := by
    unfold Segment.last
    split_ifs with hzero
    · exact hfirst
    rw [hlen] at hzero ⊢
    rw [hseq, Value.inWindow, Value.inRange, Value.add, Value.add, decide_eq_true_eq]
    generalize scb.snd.nxt = nxt, scb.snd.wnd = wnd, seg.datalen = n at *
    bv_omega
  have hopen : scb.state ≠ .closed ∧ scb.state ≠ .finWait2 := by
    constructor <;> intro hst <;> rw [hst] at hq <;> cases hq
  have hacked : ¬ (hasAny seg.flags flagACK = true ∧ seg.ack ≠ scb.rcv.nxt) :=
    fun hbad => hbad.2 (hack hbad.1)
  unfold validateOutgoingSegment
  simp only [hfirst, hlast, hopen.1, hopen.2, hwnd, hacked, hpos]
  simp

section
variable {mid : Handler} {awaitingSyn : Bool} {room offset : ℕ} {options payload : List UInt8}
  {seg pseg : Segment} {bytes : List UInt8} (hs : Sending h.scb h.bufTx stream) (hset : Settled h)
include hs hset

/-- With no byte unsent, or a RST, the ring stays as it is. -/
theorem ordinary_kept (hq : h.scb.state.txQueuedDataOpen)
    (hwhy : h.bufTx.bufferedUnsent = 0 ∨ hasAny h.scb.pending0 flagRST = true) {n : ℕ}
    (hmake : h.bufTx.makePacket n (h.scb.ordinarySegment room).seq = .ok (tx, bytes, none)) :
    tx = h.bufTx ∧ bytes = [] := by
  by_cases hrst : hasAny h.scb.pending0 flagRST = true
  · have hseq : (h.scb.ordinarySegment room).seq = h.scb.rstPtr :=
      if_pos ((h.scb.hasAny_pendingFlags (by decide)).trans hrst)
    rw [hseq] at hmake
    rcases hset.2.2 hrst with hno | hspent
    · rw [hno] at hq
      cases hq
    · exact hspent.makePacket hmake
  have hnone := hwhy.resolve_right hrst
  rw [Bool.not_eq_true] at hrst
  rw [ordinary_seq ((h.scb.hasAny_pendingFlags (by decide)).trans hrst)] at hmake
  rcases hs.cursors hq with ⟨-, hw⟩ | ⟨a, u, b, c, hcur⟩
  · exact (hs.empty hw).makePacket hmake
  have hall : b = stream.length := by
    obtain ⟨_, hlay⟩ := hcur.laid
    have hb := hlay.b_le
    have := hlay.bufferedUnsent_eq
    omega
  rw [hcur.nxt] at hmake
  exact makePacket_past hcur.laid hall (hcur.next.imp id (·.1)) hmake

theorem chosen_fin (hch : Chosen h awaitingSyn room mid (.segment seg offset options payload))
    (hfin : hasAny seg.flags flagFIN) : mid.bufTx.bufferedUnsent = 0 ∧ payload = [] := by
  cases hch with
  | syn => exact absurd (show hasAny flagSYN flagFIN from hfin) (by decide)
  | synackAgain => exact absurd (show hasAny synack flagFIN from hfin) (by decide)
  | bare hp => exact ⟨hset.2.1 (pends_flagged hp (by decide) hfin).2.2, rfl⟩
  | filled hp hsyn hdata hmake =>
  rw [dataSegment_hasAny _ _ _ (by decide)] at hfin
  obtain ⟨-, rfl, hpend⟩ := pends_flagged hp (by decide) hfin
  have hnone := hset.2.1 hpend
  obtain ⟨rfl, rfl⟩ := ordinary_kept hs hset (filled_queued hp hdata) (.inl hnone) hmake
  exact ⟨hnone, rfl⟩

theorem chosen_rst (hch : Chosen h awaitingSyn room mid (.segment seg offset options payload))
    (hrst : hasAny seg.flags flagRST) : payload = [] := by
  cases hch with
  | filled hp hsyn hdata hmake =>
    rw [dataSegment_hasAny _ _ _ (by decide)] at hrst
    obtain ⟨-, rfl, hpend⟩ := pends_flagged hp (by decide) hrst
    exact (ordinary_kept hs hset (filled_queued hp hdata) (.inr hpend) hmake).2
  | _ => rfl

/-- The block refuses no segment that took bytes from the ring. -/
theorem refused_kept (hch : Chosen h awaitingSyn room mid (.segment seg offset options payload))
    {err : Err} (hsend : (h.scb.send seg).2 = some err) : mid.bufTx = h.bufTx := by
  cases hch with
  | @filled _ tx _ hp hsyn hdata hmake =>
    have hq := filled_queued hp hdata
    cases hp with
    | challenge => exact absurd rfl hdata
    | resend hre =>
      simp only [hasPendingRetransmit, Bool.and_eq_true, decide_eq_true_eq] at hre
      have hne := hs.dups hre.1.1 fun hz => absurd hre.1.2 (by rw [hz]; decide)
      obtain ⟨a, u, b, hcur⟩ := hs.level hre.1.1
      obtain rfl := hcur.exact hre.1.1
      have hlt : u < b := lt_of_le_of_ne hcur.acked fun heq =>
        hne (by rw [hcur.una, hcur.nxt, heq])
      have hpos : 0 < (h.scb.resendSegment room).datalen.toNat := by bv_omega
      change h.bufTx.makePacket _ h.scb.snd.una = _ at hmake
      rw [hcur.una] at hmake
      exact (makePacket_oldest hcur.laid hcur.near hpos hlt hmake).1
    | ordinary hno =>
    by_cases hwhy : h.bufTx.bufferedUnsent = 0 ∨ hasAny h.scb.pending0 flagRST = true
    · exact (ordinary_kept hs hset hq hwhy hmake).1
    rw [not_or, Bool.not_eq_true] at hwhy
    have hflags : ∀ m, hasAny flagACK m = false → hasAny flagPSH m = false →
        hasAny (h.dataSegment (h.scb.ordinarySegment room) payload).flags m =
          hasAny h.scb.pending0 m :=
      fun m hm hp => (dataSegment_hasAny _ _ _ hp).trans (h.scb.hasAny_pendingFlags hm)
    have hfin : hasAny h.scb.pending0 flagFIN = false := by
      rw [← Bool.not_eq_true]
      exact fun hf => hwhy.1 (hset.2.1 hf)
    have hsyn' := noSyn_of_state hs (by rintro hst; rw [hst] at hq; cases hq)
    have hlim := h.scb.ordinary_datalen_le room
    have hlen := length_makePacket_le hmake
    have hseq : (h.scb.ordinarySegment room).seq = h.scb.snd.nxt :=
      ordinary_seq ((h.scb.hasAny_pendingFlags (by decide)).trans hwhy.2)
    have hval : h.scb.validateOutgoingSegment
        (h.dataSegment (h.scb.ordinarySegment room) payload) = none := by
      refine validateOutgoing_data hq hseq (fun hf => ?_) hset.1 ?_ ?_ ?_
      · rw [dataSegment_hasAny _ _ _ (by decide)] at hf
        exact if_pos hf
      · rw [Segment.len_eq, hflags _ (by decide) (by decide), hflags _ (by decide) (by decide),
          hfin, hsyn']
        simp
      · bv_omega
      · simp only [dataSegment]
        bv_omega
    rw [ControlBlock.send, hval] at hsend
    cases hsend
  | _ => rfl

end

/-- Send leaves things intact from a state that is ready for it. -/
theorem Ready.intact {len : ℕ} {r : SendResult} (hr : Ready h len pol)
    (hs : Sending h.scb h.bufTx stream) (hclosed : h.scb.state = .closed → stream = [])
    (hfol : Follows h pol) (hout : Sends h len pol h' r) : Intact h pol h' r := by
  cases hout with
  | idle err hwhy =>
    refine ⟨.inr (.inl ?_), by simp, by simp⟩
    rw [preTx_kept]
    intro hre
    rcases hwhy with hover | hshort
    · have hq : h.scb.state.txQueuedDataOpen := by
        have htake := hre.2
        unfold retransmitFrom at htake
        split_ifs at htake with hq
        simpa using hq
      simp only [isTxOver, Bool.or_eq_true, Bool.and_eq_true, beq_iff_eq] at hover
      rcases hover with hst | hst <;> rw [hst.1] at hq <;> cases hq
    · have := (hr.2 hre).1
      omega
  | quiet => exact ⟨.inl rfl, by simp, by simp⟩
  | ended => exact ⟨.inr (.inr rfl), by simp, by simp⟩
  | transmitted hlive hstart ht =>
  obtain ⟨hmid, hbuf, -, -⟩ := sending_starts hs hclosed hfol hstart
  have hset := hr.settled hstart
  cases ht with
  | yielded hch =>
    refine ⟨?_, by simp, by simp⟩
    cases hch with
    | requeued | nothing => exact .inl rfl
    | noPacket hp hsyn hdata hmake => exact .inr (.inl ((makePacket_err hmake).trans hbuf))
  | refused hch hsend =>
    rw [chosen_scb hch] at hsend
    exact ⟨.inr (.inl ((refused_kept hmid hset hch hsend).trans hbuf)), by simp, by simp⟩
  | @emitted mid seg offset options payload hch hsend =>
  refine ⟨.inl rfl, ?_, ?_⟩
  · rintro f hf hfin
    obtain rfl : mid.frameOf seg offset options payload = f := Option.some.inj hf
    have hnone := (chosen_fin hmid hset hch hfin).1
    unfold afterSend
    split_ifs
    · exact bufferedUnsent_reset hnone none 0 0
    · exact bufferedUnsent_reset hnone none 0 0
    · exact hnone
  · rintro f hf hrst
    obtain rfl : mid.frameOf seg offset options payload = f := Option.some.inj hf
    exact chosen_rst hmid hset hch hrst

theorem sending_queueRST (hs : Sending scb tx stream) (seq : Value) :
    Sending (scb.queueRST seq) tx stream := by
  have hno : ∀ m : Flags, hasAny flagRST m = false →
      hasAny (scb.queueRST seq).pending0 m = false := fun _ hm => hm
  refine ⟨hs.empty, rfl, ?_, hs.opening, hs.handshake,
    fun hst => ⟨hno _ (by decide), (hs.active hst).2⟩, fun hq => ?_, hs.dups⟩
  · rw [hno flagSYN (by decide)]
    simp
  rcases hs.cursors hq with hnone | ⟨a, u, b, c, hcur⟩
  · exact .inl hnone
  · exact .inr ⟨a, u, b, c, hcur.kept rfl rfl rfl (fun _ => hno _ (by decide)) rfl⟩

theorem sending_taken {scb' : ControlBlock} {tx' : RingTx} {seg : Segment}
    (hs : Sending scb tx stream) (hhalf : seg.ack ≠ scb.snd.una + 0x80000000#32)
    (hrecv : scb.recv seg = .ok (scb', none)) (htx : Freed tx tx' seg scb.snd.una scb'.state) :
    Sending scb' tx' stream := by
  obtain ⟨mid, pending, hacc, rfl⟩ := recv_accepted hrecv
  rw [acceptSegment_state] at htx
  exact sending_accepted hs hhalf hacc htx

/-- No ACK of the packet is half the number space past snd.UNA, where it would count as
both old and new. -/
def AckNear (h : Handler) (pkt : List UInt8) : Prop :=
  match h.parseIncoming pkt with
  | .ok (.ok (_, _, seg)) => seg.ack ≠ h.scb.snd.una + 0x80000000#32
  | _ => True

instance (h : Handler) (pkt : List UInt8) : Decidable (AckNear h pkt) := by
  unfold AckNear
  split <;> infer_instance

theorem AckNear.ack_ne {pkt payload : List UInt8} {tfrm : Frame} {seg : Segment}
    (hnear : AckNear h pkt) (hparse : h.parseIncoming pkt = .ok (.ok (tfrm, payload, seg))) :
    seg.ack ≠ h.scb.snd.una + 0x80000000#32 := by
  rw [AckNear, hparse] at hnear
  exact hnear

theorem sending_received {keep : Bool} {pkt : List UInt8} {err : Option Err}
    (hin : InBounds h.bufRx) (hs : Sending h.scb h.bufTx stream) (hnear : AckNear h pkt)
    (hout : Received h keep pkt h' err) : Sending h'.scb h'.bufTx stream := by
  cases hout with
  | untouched => exact hs
  | staged => exact hs.kept rfl rfl rfl rfl rfl rfl (.inr rfl)
  | rejected hr hrecv => exact sending_rejected hs hrecv
  | finished hr hrecv hclosed =>
    exact sending_taken hs (hnear.ack_ne hr.parsed) hrecv (.inr ⟨rfl, by rw [hclosed]; rfl⟩)
  | reset hr hrecv hdata hshut hstate =>
    refine sending_queueRST (sending_taken hs (hnear.ack_ne hr.parsed) hrecv (.inr ⟨rfl, ?_⟩)) _
    rcases hstate with hst | hst <;> rw [hst] <;> rfl
  | @accepted _ _ _ scb _ hr hrecv _ _ htx =>
    obtain ⟨d, pending, heq, hp⟩ := withPayload_scb scb hin hr.fits
    have htaken := sending_taken hs (hnear.ack_ne hr.parsed) hrecv (.inl htx)
    simp only [heq]
    exact htaken.kept rfl rfl rfl rfl rfl rfl hp
  | @acceptedSyn _ _ _ scb _ hr hrecv _ _ htx =>
  obtain ⟨d, pending, heq, hp⟩ := withPayload_scb scb hin hr.fits
  have htaken := sending_taken hs (hnear.ack_ne hr.parsed) hrecv (.inl htx)
  simp only [withSyn, heq]
  exact htaken.kept rfl rfl rfl rfl rfl rfl hp

theorem sending_left (hs : Sending h.scb h.bufTx stream) (hq : Quiet h h') :
    Sending h'.scb h'.bufTx stream := by
  cases hq with
  | aborted heq =>
    rw [heq]
    exact hs.aborted (fun hb => hb.reset _ _ _)
  | kept d wnd hp hscb htx =>
  have hkept : Sending h'.scb h.bufTx stream := by
    rw [hscb]
    exact hs.kept rfl rfl rfl rfl rfl rfl hp
  have hst : h'.scb.state = h.scb.state := by rw [hscb]
  rcases htx with htx | ⟨hclosed, txbuf, packets, htx⟩
  · rw [htx]
    exact hkept
  -- new buffers come between connections
  rw [isClosed, Bool.or_eq_true, beq_iff_eq, beq_iff_eq, ← hst] at hclosed
  rw [htx]
  refine hkept.resting (hclosed.imp id .inr) (fun hb => hb.reset _ _ _) hkept.second
    (noSyn_of_state hkept ?_)
  rcases hclosed with h | h <;> rw [h] <;> simp

section
variable {b : List UInt8} {n : ℕ} {err : Option Err} (hs : Sending h.scb h.bufTx stream)
include hs

theorem write_laid (hwrite : h.write b = .ok (h', n, err)) :
    (h' = h ∧ n = 0) ∨ (h.scb.state.txDataOpen ∧ b ≠ [] ∧ n = b.length ∧
      ∃ a u k c tx, Cursors h.scb h.bufTx stream a u k c ∧
        Laid tx (h.scb.snd.iss + 1) (stream ++ b) a k ∧ h' = { h with bufTx := tx } ∧
        tx.slist = h.bufTx.slist ∧ tx.rawbuf.length = h.bufTx.rawbuf.length ∧
        stream.length + b.length ≤ a + h.bufTx.rawbuf.length) := by
  unfold write at hwrite
  split_ifs at hwrite with hclosing hopen
  · cases hwrite
    exact .inl ⟨rfl, rfl⟩
  · cases hwrite
    exact .inl ⟨rfl, rfl⟩
  rw [Bool.not_eq_true, Bool.not_eq_false'] at hopen
  obtain ⟨a, u, k, c, hcur⟩ : ∃ a u k c, Cursors h.scb h.bufTx stream a u k c := by
    rcases hs.cursors (by simp [txQueuedDataOpen, hopen]) with ⟨hno, -⟩ | hcur
    · rw [hno] at hopen
      cases hopen
    · exact hcur
  obtain ⟨phase, hlay⟩ := hcur.laid
  by_cases hbad : b = [] ∨ a + h.bufTx.rawbuf.length < stream.length + b.length
  · obtain ⟨e, hw⟩ := hlay.write_refused b hbad
    rw [hw] at hwrite
    cases hwrite
    exact .inl ⟨rfl, rfl⟩
  rw [not_or, not_lt] at hbad
  obtain ⟨tx, hw, hlay', hlist, hlen⟩ := hlay.write b hbad.1 hbad.2
  rw [hw] at hwrite
  cases hwrite
  exact .inr ⟨hopen, hbad.1, rfl, a, u, k, c, tx, hcur, ⟨phase, hlay'⟩, rfl, hlist, hlen, hbad.2⟩

theorem sending_write (hbound : stream.length + b.length < 2 ^ 31 ∨ h.bufTx.rawbuf.length < 2 ^ 31)
    (hwrite : h.write b = .ok (h', n, err)) : Sending h'.scb h'.bufTx (stream ++ b.take n) := by
  rcases write_laid hs hwrite with
    ⟨rfl, rfl⟩ | ⟨hopen, hne, rfl, a, u, k, c, tx, hcur, hlaid, rfl, -, -, hfits⟩
  · simpa using hs
  rw [take_length]
  have hnot : h.scb.state.isPreestablished = false ∧ h.scb.state ≠ .synSent := by
    revert hopen
    cases h.scb.state <;> decide
  have hnear : (stream ++ b).length < a + 2 ^ 31 := by
    rw [length_append]
    omega
  refine ⟨?_, hs.second, hs.syn, ?_, hs.handshake, ?_, fun _ => .inr
    ⟨a, u, k, c, hlaid, hcur.behind, hcur.acked, hcur.una, hcur.nxt, ?_, hcur.exact, hnear⟩,
    hs.dups⟩
  · intro hnil
    exact absurd (append_eq_nil_iff.mp hnil).2 hne
  · simp [hnot.1]
  · exact fun hst => absurd hst hnot.2
  exact .inl (hcur.level hopen)

end

end Calls

structure Streaming where
  h : Handler
  written : List UInt8 := []

variable {s : Streaming}

def step (s : Streaming) : HandlerOp → Except Panic Streaming
  | .write b => (s.h.write b).map fun r => { h := r.1, written := s.written ++ b.take r.2.1 }
  | op => (s.h.handlerStep op).map fun h => { s with h := h }

/-- No second connection is opened, the stream is shorter than half the number space,
ACKs are near, the ring can follow every rewind, and Send leaves things intact and is
not called on a connection closed after a Write. -/
def Regular (s : Streaming) : HandlerOp → Prop
  | .setBuffers _ _ _ | .openActive _ _ _ | .openListen _ _ => False
  | .write b => s.written.length + b.length < 2 ^ 31
  | .recv _ pkt => AckNear s.h pkt
  | .send len extra pol => (s.h.scb.state = .closed → s.written = []) ∧
      ((s.h.policyEnabled && pol.doRtx) = true → (s.h.scb.retransmitFrom pol.rtxFrom).2 = true →
        Followed s.h.bufTx pol.rtxFrom) ∧
      ∀ r, s.h.send len (len + extra) pol = .ok r → Intact s.h pol r.1 r.2
  | .setPolicy _ | .abort | .close | .shutdownRead | .read _ | .requeue => True

instance (s : Streaming) (op : HandlerOp) : Decidable (Regular s op) := by
  cases op <;> unfold Regular <;> infer_instance

/-- As for a regular run, with the state before each Send in place of what Send leaves. -/
def Posed (s : Streaming) : HandlerOp → Prop
  | .send len _ pol => (s.h.scb.state = .closed → s.written = []) ∧ Follows s.h pol ∧
      Ready s.h len pol
  | op => Regular s op

instance (s : Streaming) : (op : HandlerOp) → Decidable (Posed s op)
  | .send _ _ _ => inferInstanceAs (Decidable (_ ∧ _ ∧ _))
  | .write b => inferInstanceAs (Decidable (Regular s (.write b)))
  | .recv keep pkt => inferInstanceAs (Decidable (Regular s (.recv keep pkt)))
  | .setBuffers _ _ _ | .openActive _ _ _ | .openListen _ _ => inferInstanceAs (Decidable False)
  | .setPolicy _ | .abort | .close | .shutdownRead | .read _ | .requeue =>
    inferInstanceAs (Decidable True)

structure Sound (s : Streaming) : Prop where
  bound : s.written.length < 2 ^ 31
  inBounds : InBounds s.h.bufRx
  sending : Sending s.h.scb s.h.bufTx s.written

theorem Posed.regular (hs : Sound s) (hp : Posed s op) : Regular s op := by
  cases op with
  | send len extra pol =>
    obtain ⟨hclosed, hfol, hready⟩ := hp
    exact ⟨hclosed, hfol, fun r hr => hready.intact hs.sending hclosed hfol (sends_of_send hr)⟩
  | _ => exact hp

theorem step_other {s' : Streaming} (hop : ∀ b, op ≠ .write b) (hstep : step s op = .ok s') :
    ∃ h, s.h.handlerStep op = .ok h ∧ { s with h := h } = s' := by
  refine map_ok (Eq.trans ?_ hstep)
  cases op with
  | write b => exact absurd rfl (hop b)
  | _ => rfl

theorem sending_step {h' : Handler} (hin : InBounds s.h.bufRx)
    (hs : Sending s.h.scb s.h.bufTx s.written) (hguard : Regular s op) (hop : ∀ b, op ≠ .write b)
    (hh : s.h.handlerStep op = .ok h') : Sending h'.scb h'.bufTx s.written := by
  cases op with
  | setBuffers | openActive | openListen => exact hguard.elim
  | write b => exact absurd rfl (hop b)
  | recv keep pkt =>
    obtain ⟨err, hr⟩ := map_fst_ok hh
    exact sending_received hin hs hguard (received_of_recv hin hr)
  | send len extra pol =>
    obtain ⟨r, hr⟩ := map_fst_ok hh
    obtain ⟨hclosed, hfol, hsafe⟩ := hguard
    exact (sending_sends hs hclosed hfol (hsafe _ hr) (sends_of_send hr)).1
  | setPolicy | abort | close | shutdownRead | read | requeue =>
    exact sending_left hs (step_quiet hin (by simp) (by simp) (by simp) rfl hh)

theorem sound_step {s' : Streaming} (hs : Sound s) (hguard : Regular s op)
    (hstep : step s op = .ok s') : Sound s' := by
  by_cases hw : ∃ b, op = .write b
  · obtain ⟨b, rfl⟩ := hw
    obtain ⟨⟨h', n, err⟩, hr, rfl⟩ := map_ok hstep
    refine ⟨?_, ?_, sending_write hs.sending (.inl hguard) hr⟩
    · have hsum : s.written.length + b.length < 2 ^ 31 := hguard
      have htake := length_take_le' n b
      dsimp only
      rw [length_append]
      omega
    · obtain ⟨tx, rfl⟩ := write_eq hr
      exact hs.inBounds
  have hop : ∀ b, op ≠ .write b := fun b heq => hw ⟨b, heq⟩
  obtain ⟨h', hh, rfl⟩ := step_other hop hstep
  exact ⟨hs.bound, step_inBounds hs.inBounds hh,
    sending_step (s := s) hs.inBounds hs.sending hguard hop hh⟩

/-- A handler just opened, with a transmit ring that took the initial sequence number. -/
inductive Opened : Handler → Prop
  | active {h : Handler} {localPort remotePort : BitVec 16} {iss : Value}
      (hopen : (h.openActive localPort remotePort iss).2 = none)
      (hring : (h.bufTx.resetOrReuse none 0 iss).2 = none) :
      Opened (h.openActive localPort remotePort iss).1
  | passive {h : Handler} {localPort : BitVec 16} {iss : Value}
      (hopen : (h.openListen localPort iss).2 = none)
      (hring : (h.bufTx.resetOrReuse none 0 iss).2 = none) :
      Opened (h.openListen localPort iss).1

theorem sending_fresh (hring : Bare tx) (hst : scb.state = .closed ∨ scb.state = .listen)
    (hp : scb.pending0 = 0) (hsecond : scb.pending1 = 0) (huna : scb.snd.una = scb.snd.iss) :
    Sending scb tx [] := by
  refine ⟨fun _ => hring, hsecond, ?_, fun _ => ⟨rfl, huna⟩, ?_, ?_, ?_, ?_⟩
  · rw [hp]
    simp [hasAny]
  all_goals rcases hst with hst | hst <;> simp [hst, txQueuedDataOpen, txDataOpen]

theorem opened_sound {h : Handler} (hopen : Opened h) : Sound { h := h } := by
  cases hopen with
  | @active h localPort remotePort iss hok hring =>
    unfold openActive at hok ⊢
    split_ifs at hok ⊢
    exact ⟨by simp, reset_inBounds h localPort remotePort iss,
      sending_fresh (bare_reset hring).1 (.inl rfl) rfl rfl rfl⟩
  | @passive h localPort iss hok hring =>
  unfold openListen openPassive at hok ⊢
  split_ifs at hok ⊢
  exact ⟨by simp, reset_inBounds h localPort 0 iss,
    sending_fresh (bare_reset hring).1 (.inr rfl) rfl rfl rfl⟩

theorem run_sound {h : Handler} {ops : List HandlerOp} (hopen : Opened h)
    (hops : Guarded step Regular { h := h } ops) (hrun : exec step { h := h } ops = .ok s) :
    Sound s :=
  exec_invariant (fun _ _ _ => sound_step) ops _ s (opened_sound hopen) hops hrun

/-- Every data segment of a posed run carries the written bytes that its sequence number
denotes, also on retransmission and after a rewind. -/
theorem sends_written_stream (h : Handler) (hopen : Opened h) (ops : List HandlerOp)
    (hops : Guarded step Posed { h := h } ops) (s : Streaming)
    (hrun : exec step { h := h } ops = .ok s) (len extra : ℕ) (pol : PolicyTx)
    (hnext : Posed s (.send len extra pol)) (h' : Handler) (r : SendResult)
    (hsend : s.h.send len (len + extra) pol = .ok (h', r)) :
    ∀ f ∈ r.frame, Faithful s.written s.h.scb.snd.iss f.seg.seq f.payload := by
  have hs : Sound s := exec_invariant (fun _ _ _ hs hp => sound_step hs (hp.regular hs)) ops _ s
    (opened_sound hopen) hops hrun
  obtain ⟨hclosed, hfol, hsafe⟩ := hnext.regular hs
  intro f hf
  exact ((sending_sends hs.sending hclosed hfol (hsafe _ hsend)
    (Handler.sends_of_send hsend)).2 f hf).faithful hs.bound

def listening : Handler :=
  ((({} : Handler).setBuffers (some (List.replicate 8 0))
    (some (List.replicate 8 0)) 4).1.openListen 80 100).1

theorem opened_listening : Opened listening := .passive (by decide +kernel) (by decide +kernel)

def fourBytesOps (sends : List PolicyTx) : List HandlerOp :=
  Handler.serverOps.drop 2 ++ [.setPolicy true, .write [1, 2, 3, 4]] ++ sends.map (.send 60 0)

/-- Two packets of two bytes, and a rewind to the second. -/
theorem sends_written_stream_rewound :
    ∃ s h' r, exec step { h := listening } (fourBytesOps [{ limit := 2 }, {}]) = .ok s ∧
      s.written = [1, 2, 3, 4] ∧
      s.h.send 60 60 { rtxFrom := 103, doRtx := true } = .ok (h', r) ∧
      r.frame.map (fun f => (f.seg.seq, f.payload)) = some (103, [3, 4]) ∧
      ∀ f ∈ r.frame, Faithful s.written s.h.scb.snd.iss f.seg.seq f.payload := by
  obtain ⟨s, hrun, hw, hnext, hframe⟩ : ∃ s,
      exec step { h := listening } (fourBytesOps [{ limit := 2 }, {}]) = .ok s ∧
      s.written = [1, 2, 3, 4] ∧ Posed s (.send 60 0 { rtxFrom := 103, doRtx := true }) ∧
      (s.h.send 60 60 { rtxFrom := 103, doRtx := true }).toOption.map
        (fun r => r.2.frame.map fun f => (f.seg.seq, f.payload)) = some (some (103, [3, 4])) :=
    exists_exec (by decide +kernel)
  cases hsend : s.h.send 60 60 { rtxFrom := 103, doRtx := true } with
  | error p =>
    rw [hsend] at hframe
    cases hframe
  | ok r =>
  rw [hsend] at hframe
  exact ⟨s, r.1, r.2, hrun, hw, hsend, Option.some.inj hframe, sends_written_stream listening
    opened_listening _ (by decide +kernel) s hrun 60 0 _ hnext _ _ hsend⟩

/-- The Policy rewinds to 103, into the packet of four bytes at 101, and Send repeats
the whole packet there. -/
theorem resends_at_wrong_sequence :
    ∃ s, exec step { h := listening } (fourBytesOps [{}]) = .ok s ∧ s.written = [1, 2, 3, 4] ∧
      s.h.scb.snd.iss = 100 ∧ s.h.scb.snd.una = 101 ∧ s.h.scb.snd.nxt = 105 ∧
      (s.h.send 60 60 { rtxFrom := 103, doRtx := true }).toOption.map
        (fun r => r.2.frame.map fun f => (f.seg.seq, f.payload)) =
          some (some (103, [1, 2, 3, 4])) ∧
      ¬ Faithful s.written s.h.scb.snd.iss 103 [1, 2, 3, 4] :=
  exists_exec (by decide +kernel)

/-- While a regular run takes data, the ring keeps what is in flight, each packet as it was
written at its sequence number, and then all that was written from snd.NXT on. -/
theorem ring_keeps_flight {h : Handler} (hopen : Opened h) {ops : List HandlerOp}
    (hops : Guarded step Regular { h := h } ops) (hrun : exec step { h := h } ops = .ok s)
    (hdata : s.h.scb.state.txDataOpen) :
    s.h.bufTx.bufferedSent = s.h.scb.snd.inFlight.toNat ∧
      (∀ pkt ∈ s.h.bufTx.slist.pkts, (s.h.bufTx.ring pkt.off pkt.endOff).readable =
        (s.written.drop (ahead (s.h.scb.snd.iss + 1) pkt.seq)).take pkt.size.toNat) ∧
      s.h.bufTx.unsentRing.readable =
        s.written.drop (ahead (s.h.scb.snd.iss + 1) s.h.scb.snd.nxt) := by
  have hs := run_sound hopen hops hrun
  obtain ⟨a, u, b, hcur⟩ := hs.sending.level hdata
  obtain rfl := hcur.exact hdata
  obtain ⟨phase, hlay⟩ := hcur.laid
  have hb := hlay.b_le.trans_lt hs.bound
  have hflight : ahead s.h.scb.snd.una s.h.scb.snd.nxt = b - u := by
    rw [hcur.una, hcur.nxt]
    exact ahead_advance_advance _ hlay.a_le (by omega)
  refine ⟨hlay.bufferedSent_eq.trans hflight.symm, fun pkt hp => ?_, ?_⟩
  · obtain ⟨k, hak, hkb, hk⟩ := hlay.packets.mem hp
    rw [hlay.packet_readable hk hak hkb, hk.seq_eq, ahead_advance _ k (by omega)]
  · rw [hlay.unsent_readable, hcur.nxt, ahead_advance _ b (by omega)]

theorem ring_keeps_flight_two :
    ∃ s, exec step { h := listening } (fourBytesOps [{ limit := 2 }]) = .ok s ∧
      s.h.bufTx.bufferedSent = s.h.scb.snd.inFlight.toNat := by
  obtain ⟨s, hrun, hdata⟩ : ∃ s, exec step { h := listening } (fourBytesOps [{ limit := 2 }]) =
    .ok s ∧ s.h.scb.state.txDataOpen := exists_exec (by decide +kernel)
  exact ⟨s, hrun, (ring_keeps_flight opened_listening (by decide +kernel) hrun hdata).1⟩

end Lneto.SendStream
