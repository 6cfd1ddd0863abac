import Lneto.HandlerRuns
import Lneto.TransmitLayout

/-!
The two cursors of the send side. The block counts the sequence numbers
acknowledged and sent, the ring cuts the written stream at two offsets; what was
written is sent as long as both stand at the same places. After the FIN the
block is one ahead, and the ring may lag behind on acknowledgments.
-/
namespace Lneto.SendCursors

open Segments SerialNumbers Control TransmitRing InternalRing Connection Flags ControlBlock State
  SentList

variable {a b c u : ℕ} {rtx tx tx' : RingTx} {st : State}

structure Bare (rtx : RingTx) : Prop where
  two_le : minBufferSize ≤ rtx.rawbuf.length
  pkts : rtx.slist.pkts = []
  sentend : rtx.sentend = 0
  unsentend : rtx.unsentend = 0
  unsentoff : rtx.unsentoff ≤ rtx.rawbuf.length

theorem Bare.laid (h : Bare rtx) (start : Value) : Laid rtx start [] 0 0 := by
  refine ⟨rtx.unsentoff, ?_⟩
  constructor <;>
    simp [h.two_le, h.pkts, h.sentend, h.unsentend, h.unsentoff, PacketsAt, CircularBuffers.Holds]

theorem Bare.recvACK {rtx' : RingTx} {ack : Value} {err : Option Err} (h : Bare rtx)
    (hack : rtx.recvACK ack = .ok (rtx', err)) : rtx' = rtx := by
  rw [RingTx.recvACK, recvAck, newest, h.pkts] at hack
  cases hack
  rfl

/-- No byte is unsent and no packet reaches past the sequence number. -/
def Spent (rtx : RingTx) (seq : Value) : Prop :=
  rtx.unsentRing.isEmpty = true ∧
    (rtx.sentEndSeq.any fun endSeq => Value.lessThan seq endSeq) = false

instance (rtx : RingTx) (seq : Value) : Decidable (Spent rtx seq) :=
  inferInstanceAs (Decidable (_ ∧ _))

theorem Spent.makePacket {rtx' : RingTx} {n : ℕ} {seq : Value} {bytes : List UInt8}
    {err : Option Err} (h : Spent rtx seq)
    (hmake : rtx.makePacket n seq = .ok (rtx', bytes, err)) : rtx' = rtx ∧ bytes = [] := by
  have hnew : rtx.newPacket n seq = .ok (rtx, [], none) := if_pos h.1
  rw [RingTx.makePacket, if_neg (by simp [h.2] : ¬ _ = true), hnew] at hmake
  split_ifs at hmake
  all_goals
    cases hmake
    exact ⟨rfl, rfl⟩

theorem Bare.spent (h : Bare rtx) (seq : Value) : Spent rtx seq :=
  ⟨by simp [ByteRing.isEmpty, RingTx.unsentRing, RingTx.ring, h.unsentend],
    by simp [RingTx.sentEndSeq, newest, h.pkts]⟩

theorem Bare.makePacket {rtx' : RingTx} {n : ℕ} {seq : Value} {bytes : List UInt8}
    {err : Option Err} (h : Bare rtx) (hmake : rtx.makePacket n seq = .ok (rtx', bytes, err)) :
    rtx' = rtx ∧ bytes = [] :=
  (h.spent seq).makePacket hmake

theorem Bare.retransmitFrom (h : Bare rtx) (seq : Value) : rtx.retransmitFrom seq = rtx := by
  rw [RingTx.retransmitFrom, packetContaining, h.pkts]
  rfl

theorem bare_reset {buf : List UInt8} {maxqueued : ℤ} {iss : Value}
    (hok : (rtx.reset buf maxqueued iss).2 = none) :
    Bare (rtx.reset buf maxqueued iss).1 ∧ (rtx.reset buf maxqueued iss).1.iss = iss := by
  unfold RingTx.reset at hok ⊢
  by_cases hq : maxqueued ≤ 0
  · simp [hq] at hok
  rw [if_neg hq] at hok ⊢
  by_cases hlen : buf.length < minBufferSize ∨ (buf.length : ℤ) < maxqueued
  · simp [hlen] at hok
  rw [if_neg hlen]
  rw [not_or, not_lt] at hlen
  exact ⟨⟨hlen.1, rfl, rfl, rfl, Nat.zero_le _⟩, rfl⟩

theorem reset_cases (rtx : RingTx) (buf : Option (List UInt8)) (packets : ℤ) (ack : Value) :
    (rtx.resetOrReuse buf packets ack).1 = rtx ∨ Bare (rtx.resetOrReuse buf packets ack).1 := by
  unfold RingTx.resetOrReuse
  generalize (if packets = 0 then (rtx.slist.cap : ℤ) else packets) = maxqueued
  generalize buf.getD rtx.rawbuf = bytes
  cases hok : (rtx.reset bytes maxqueued ack).2 with
  | none => exact .inr (bare_reset hok).1
  | some err =>
  left
  unfold RingTx.reset at hok ⊢
  split_ifs at hok ⊢ <;> rfl

theorem Bare.reset (h : Bare rtx) (buf : Option (List UInt8)) (packets : ℤ) (ack : Value) :
    Bare (rtx.resetOrReuse buf packets ack).1 := by
  rcases reset_cases rtx buf packets ack with hsame | hbare
  · rw [hsame]
    exact h
  · exact hbare

theorem bufferedUnsent_reset (hnone : rtx.bufferedUnsent = 0) (buf : Option (List UInt8))
    (packets : ℤ) (ack : Value) : (rtx.resetOrReuse buf packets ack).1.bufferedUnsent = 0 := by
  rcases reset_cases rtx buf packets ack with hsame | hbare
  · rw [hsame]
    exact hnone
  · obtain ⟨_, hlay⟩ := hbare.laid 0
    exact hlay.bufferedUnsent_eq

/-- The ring's cuts a and b of the stream, and the block's snd.UNA and snd.NXT as the
offsets u and c past the SYN. -/
structure Cursors (scb : ControlBlock) (tx : RingTx) (stream : List UInt8) (a u b c : ℕ) :
    Prop where
  laid : Laid tx (scb.snd.iss + 1) stream a b
  behind : a ≤ u
  acked : u ≤ c
  una : scb.snd.una = advance (scb.snd.iss + 1) u
  nxt : scb.snd.nxt = advance (scb.snd.iss + 1) c
  next : c = b ∨ (c = b + 1 ∧ b = stream.length ∧ Flags.hasAny scb.pending0 flagFIN = false ∧
    scb.state.txDataOpen = false)
  exact : scb.state.txDataOpen = true → u = a
  near : stream.length < a + 2 ^ 31

structure Sending (scb : ControlBlock) (tx : RingTx) (stream : List UInt8) : Prop where
  empty : stream = [] → Bare tx
  second : scb.pending1 = 0
  syn : Flags.hasAny scb.pending0 flagSYN = true →
    scb.state = .synRcvd ∧ scb.snd.nxt = scb.snd.iss
  opening : scb.state.isPreestablished = true → stream = [] ∧ scb.snd.una = scb.snd.iss
  handshake : scb.state = .synSent ∨ scb.state = .synRcvd →
    scb.snd.nxt = scb.snd.iss ∨ scb.snd.nxt = scb.snd.iss + 1
  active : scb.state = .synSent →
    Flags.hasAny scb.pending0 flagFIN = false ∧ tx.iss = scb.snd.iss
  cursors : scb.state.txQueuedDataOpen = true →
    (scb.state.txDataOpen = false ∧ stream = []) ∨ ∃ a u b c, Cursors scb tx stream a u b c
  dups : scb.state.txDataOpen = true → scb.dupack ≠ 0 → scb.snd.una ≠ scb.snd.nxt

/-- While the connection takes data, the block counts what left the ring. -/
theorem Cursors.level {scb : ControlBlock} {stream : List UInt8}
    (h : Cursors scb tx stream a u b c) (hopen : scb.state.txDataOpen) : c = b := by
  rcases h.next with hc | ⟨-, -, -, hno⟩
  · exact hc
  · rw [hno] at hopen
    cases hopen

theorem Sending.level {scb : ControlBlock} {stream : List UInt8} (h : Sending scb tx stream)
    (hopen : scb.state.txDataOpen) : ∃ a u b, Cursors scb tx stream a u b b := by
  rcases h.cursors (by simp [txQueuedDataOpen, hopen]) with ⟨hno, -⟩ | ⟨a, u, b, c, hcur⟩
  · rw [hno] at hopen
    cases hopen
  · obtain rfl := hcur.level hopen
    exact ⟨a, u, c, hcur⟩

/-- An ACK is taken exactly when it lies past snd.UNA and not past snd.NXT, one half the
number space ahead apart. -/
theorem ackedUna_cases (scb : ControlBlock) (seg : Segment) (start : Value) (huc : u ≤ c)
    (hc : c ≤ u + 2 ^ 31) (huna : scb.snd.una = advance start u)
    (hnxt : scb.snd.nxt = advance start c) (hhalf : seg.ack ≠ scb.snd.una + 0x80000000#32) :
    (∃ p, u < p ∧ p ≤ c ∧ seg.ack = advance start p ∧ scb.ackedUna seg = advance start p ∧
      hasAny seg.flags flagACK = true) ∨
    (scb.ackedUna seg = scb.snd.una ∧ (hasAny seg.flags flagACK →
      ∀ p, u < p → p ≤ c → seg.ack ≠ advance start p)) := by
  obtain ⟨d, hd, hack⟩ : ∃ d, d < 2 ^ 32 ∧ seg.ack = advance start (u + d) := by
    refine ⟨ahead scb.snd.una seg.ack, ahead_lt _ _, ?_⟩
    rw [← advance_advance, ← huna, advance_ahead]
  have hahead : ahead scb.snd.una seg.ack = d := by
    rw [huna, hack, ahead_advance_advance start (by omega) (by omega)]
    omega
  unfold ackedUna
  by_cases hin : 0 < d ∧ u + d ≤ c
  · cases hflag : hasAny seg.flags flagACK with
    | false =>
      exact .inr ⟨rfl, nofun⟩
    | true =>
    have hle : Value.lessThanEq seg.ack scb.snd.nxt := by
      rw [lessThanEq_iff, hack, hnxt, ahead_advance_advance start (by omega) (by omega)]
      omega
    have hlt : Value.lessThan scb.snd.una seg.ack := by
      rw [lessThan_iff, hahead]
      omega
    rw [if_pos ⟨rfl, hle, hlt⟩]
    exact .inl ⟨u + d, by omega, hin.2, hack, hack, rfl⟩
  have hnot : ¬ (hasAny seg.flags flagACK ∧
      Value.lessThanEq seg.ack scb.snd.nxt ∧
      Value.lessThan scb.snd.una seg.ack = true) := by
    rintro ⟨-, hle, hlt⟩
    rw [lessThan_iff, hahead] at hlt
    have hpast : c < u + d := by omega
    have hback := ahead_advance_advance start (le_of_lt hpast) (by omega)
    have hne : advance start c ≠ advance start (u + d) := by
      intro heq
      rw [heq, ahead_self] at hback
      omega
    have hsum := ahead_add_ahead _ _ hne
    rw [lessThanEq_iff, hack, hnxt] at hle
    -- only the opposite point of the number space is on both sides
    have hopp : d = 2 ^ 31 := by omega
    apply hhalf
    rw [hack, huna, hopp, ← advance_advance]
    rfl
  rw [if_neg hnot]
  refine .inr ⟨rfl, fun _ p hup hpc heq => ?_⟩
  rw [hack] at heq
  have hp : ahead (advance start u) (advance start p) = p - u :=
    ahead_advance_advance start (by omega) (by omega)
  rw [← heq, ahead_advance_advance start (by omega) (by omega)] at hp
  omega

theorem Cursors.acked_ring {scb : ControlBlock} {stream : List UInt8} {seg : Segment}
    (h : Cursors scb tx stream a u b c) (hhalf : seg.ack ≠ scb.snd.una + 0x80000000#32)
    (htx : Handler.Acked tx tx' seg scb.snd.una) :
    ∃ a' u', Laid tx' (scb.snd.iss + 1) stream a' b ∧ a ≤ a' ∧ a' ≤ u' ∧ u' ≤ c ∧
      scb.ackedUna seg = advance (scb.snd.iss + 1) u' ∧ (u = a → c = b → u' = a') := by
  have hnear := h.near
  obtain ⟨phase, hlay⟩ := h.laid
  have hb := hlay.b_le
  have hab := hlay.a_le
  have hau := h.behind
  have huc := h.acked
  have hcb : b ≤ c ∧ c ≤ b + 1 := by rcases h.next with hc | ⟨hc, -⟩ <;> omega
  have hsame : tx' = tx → Laid tx' (scb.snd.iss + 1) stream a b := by
    rintro rfl
    exact ⟨phase, hlay⟩
  unfold Handler.Acked at htx
  -- the ACK as an offset from the ring's first cut
  obtain ⟨e, he, hack⟩ : ∃ e, e < 2 ^ 32 ∧ seg.ack = advance (scb.snd.iss + 1) (a + e) := by
    refine ⟨ahead (advance (scb.snd.iss + 1) a) seg.ack, ahead_lt _ _, ?_⟩
    rw [← advance_advance, advance_ahead]
  have hring : (∃ err, tx.recvACK seg.ack = .ok (tx', err)) →
      (a + e ≤ b ∧ Laid tx' (scb.snd.iss + 1) stream (a + e) b) ∨ (b < a + e ∧ tx' = tx) := by
    rintro ⟨err, hrecv⟩
    by_cases hin : a + e ≤ b
    · obtain ⟨rtx', err', hok, hlaid, -⟩ := hlay.recvACK (by omega) (t := a + e) (by omega) hin
      rw [hack, hok] at hrecv
      cases hrecv
      exact .inl ⟨hin, hlaid⟩
    obtain ⟨err', hok⟩ := hlay.recvACK_outside (by omega) (t := a + e) (by omega) (by omega)
    rw [hack, hok] at hrecv
    cases hrecv
    exact .inr ⟨by omega, rfl⟩
  have hsame_pos : ∀ p, a ≤ p → p < a + 2 ^ 32 → seg.ack = advance (scb.snd.iss + 1) p →
      p = a + e := by
    intro p hap hpa heq
    have h1 := ahead_advance_advance (scb.snd.iss + 1) hap (by omega)
    rw [← heq, hack, ahead_advance_advance _ (by omega) (by omega)] at h1
    omega
  rcases ackedUna_cases scb seg _ huc (by omega) h.una h.nxt hhalf with
    ⟨p, hup, hpc, hp, hout, hflag⟩ | ⟨hout, hnot⟩
  · have hpe := hsame_pos p (by omega) (by omega) hp
    have hne : seg.ack ≠ scb.snd.una := by
      rw [h.una, hp]
      exact (seq_ne_of_lt _ hup (by omega)).symm
    rw [if_pos ⟨hflag, hne⟩] at htx
    rcases hring htx with ⟨hin, hlaid⟩ | ⟨hin, heq⟩
    · exact ⟨a + e, p, hlaid, by omega, by omega, hpc, hout, by omega⟩
    · exact ⟨a, p, hsame heq, le_rfl, by omega, hpc, hout, by omega⟩
  rw [hout, h.una]
  split_ifs at htx with hcond
  · rcases hring htx with ⟨hin, hlaid⟩ | ⟨hin, heq⟩
    · have hlow : a + e ≤ u := by
        by_contra hgt
        exact hnot hcond.1 (a + e) (by omega) (by omega) hack
      refine ⟨a + e, u, hlaid, by omega, hlow, huc, rfl, fun hua _ => ?_⟩
      have : e = 0 := by omega
      exfalso
      apply hcond.2
      rw [hack, h.una, this, hua]
      rfl
    · exact ⟨a, u, hsame heq, le_rfl, hau, huc, rfl, fun hua _ => hua⟩
  · exact ⟨a, u, hsame htx, le_rfl, hau, huc, rfl, fun hua _ => hua⟩

theorem hasAny_pending {p p' m : Flags} (hp : p' = p ∨ p' = p ||| flagACK)
    (hm : hasAny flagACK m = false) : hasAny p' m = hasAny p m := by
  rcases hp with rfl | rfl
  · rfl
  · rw [hasAny_or, hm, Bool.or_false]

theorem Cursors.kept {scb scb' : ControlBlock} {stream : List UInt8}
    (h : Cursors scb tx stream a u b c) (hiss : scb'.snd.iss = scb.snd.iss)
    (huna : scb'.snd.una = scb.snd.una) (hnxt : scb'.snd.nxt = scb.snd.nxt)
    (hfin : hasAny scb.pending0 flagFIN = false → hasAny scb'.pending0 flagFIN = false)
    (hopen : scb'.state.txDataOpen = scb.state.txDataOpen) : Cursors scb' tx stream a u b c := by
  refine ⟨by rw [hiss]; exact h.laid, h.behind, h.acked, by rw [huna, hiss]; exact h.una,
    by rw [hnxt, hiss]; exact h.nxt, ?_, by rw [hopen]; exact h.exact, h.near⟩
  rcases h.next with hc | ⟨hc, hb, hno, hdata⟩
  · exact .inl hc
  · exact .inr ⟨hc, hb, hfin hno, hopen.trans hdata⟩

section Keeping
variable {scb scb' : ControlBlock} {tx : RingTx} {stream : List UInt8}

/-- Queueing an ACK and everything about windows and the receive side. -/
theorem Sending.kept (h : Sending scb tx stream) (hiss : scb'.snd.iss = scb.snd.iss)
    (huna : scb'.snd.una = scb.snd.una) (hnxt : scb'.snd.nxt = scb.snd.nxt)
    (hst : scb'.state = scb.state) (hsecond : scb'.pending1 = scb.pending1)
    (hdup : scb'.dupack = scb.dupack)
    (hp : scb'.pending0 = scb.pending0 ∨ scb'.pending0 = scb.pending0 ||| flagACK) :
    Sending scb' tx stream := by
  have hsyn := hasAny_pending hp (m := flagSYN) (by decide)
  have hfin := hasAny_pending hp (m := flagFIN) (by decide)
  refine ⟨h.empty, hsecond.trans h.second, ?_, ?_, ?_, ?_, ?_, ?_⟩
  · rw [hsyn, hst, hnxt, hiss]
    exact h.syn
  · rw [hst, huna, hiss]
    exact h.opening
  · rw [hst, hnxt, hiss]
    exact h.handshake
  · rw [hst, hfin, hiss]
    exact h.active
  · rw [hst]
    intro hopen
    rcases h.cursors hopen with hnone | ⟨a, u, b, c, hcur⟩
    · exact .inl hnone
    · exact .inr ⟨a, u, b, c, hcur.kept hiss huna hnxt (fun hno => hfin.trans hno) (by rw [hst])⟩
  · rw [hst, hdup, huna, hnxt]
    exact h.dups

/-- A state in which neither a handshake nor data is under way. -/
def Resting (st : State) : Prop := st = .closed ∨ st = .finWait2 ∨ st = .timeWait

theorem Sending.resting (h : Sending scb tx stream) (hrest : Resting scb'.state)
    (hempty : Bare tx → Bare tx') (hsecond : scb'.pending1 = 0)
    (hsyn : hasAny scb'.pending0 flagSYN = false) : Sending scb' tx' stream := by
  refine ⟨fun hw => hempty (h.empty hw), hsecond, ?_, ?_, ?_, ?_, ?_, ?_⟩
  · rw [hsyn]
    simp
  all_goals
    rcases hrest with hst | hst | hst <;> simp [hst, isPreestablished, txQueuedDataOpen, txDataOpen]

theorem Sending.aborted (h : Sending scb tx stream) (hempty : Bare tx → Bare tx') :
    Sending scb.abort tx' stream :=
  h.resting (.inl rfl) hempty rfl (hasAny_zero _)

end Keeping

theorem hasAll_ACK (f : Flags) : hasAll f flagACK = hasAny f flagACK := by
  have hbit : f &&& flagACK = if f.getLsbD 4 then flagACK else 0 := BitVec.and_twoPow f 4
  rw [hasAll, hasAny, hbit]
  cases f.getLsbD 4 <;> decide

theorem Bare.acked {seg : Segment} {una : Value} (h : Bare tx)
    (htx : Handler.Acked tx tx' seg una) : tx' = tx := by
  unfold Handler.Acked at htx
  split_ifs at htx
  · obtain ⟨err, hrecv⟩ := htx
    exact h.recvACK hrecv
  · exact htx

section Receiving
variable {scb scb' mid : ControlBlock} {tx tx' : RingTx} {stream : List UInt8} {seg : Segment}
  {pending : Flags}

/-- A rejected segment leaves the cursors where they are, or ends the connection, or
starts the handshake over. -/
theorem sending_rejected {e : Err} (h : Sending scb tx stream)
    (hrecv : scb.recv seg = .ok (scb', some e)) : Sending scb' tx stream := by
  obtain ⟨c, hemit⟩ := scb.triggerChallengeAckEmit_eq
  cases recv_outcome hrecv with
  | ignored => exact h
  | challenge =>
    rw [hemit]
    exact h.kept rfl rfl rfl rfl rfl rfl (.inl rfl)
  | limit | rstAbort => exact h.aborted id
  | synChallenge | rstChallenge =>
    rw [hemit]
    exact h.kept rfl rfl rfl rfl rfl rfl (.inr rfl)
  | ackDrop => exact h.kept rfl rfl rfl rfl rfl rfl (.inr rfl)
  | preReset hpre =>
    have hno : ∀ m : Flags, hasAny flagRST m = false →
        hasAny (({ scb with pending0 := flagRST, rstPtr := seg.ack }.resetSnd scb.snd.iss
          seg.wnd).pending0) m = false := fun m hm => hm
    have hdata : scb.state.txQueuedDataOpen = false ∧ scb.state.txDataOpen = false := by
      revert hpre
      cases scb.state <;> decide
    refine ⟨h.empty, h.second, ?_, fun _ => ⟨(h.opening hpre).1, rfl⟩,
      fun _ => .inl rfl, fun hst => ⟨hno _ (by decide), (h.active hst).2⟩, ?_, ?_⟩
    · rw [hno flagSYN (by decide)]
      simp
    · intro hopen
      exact absurd (hdata.1.symm.trans hopen) (by simp)
    · intro hopen
      exact absurd (hdata.2.symm.trans hopen) (by simp)
  | relisten hrst hst =>
  have hw : stream = [] := (h.opening (by rw [hst]; rfl)).1
  refine ⟨h.empty, h.second, ?_, fun _ => ⟨hw, rfl⟩, ?_, ?_, ?_, ?_⟩
  · intro hsyn
    exact absurd (show hasAny 0 flagSYN from hsyn) (by decide)
  all_goals simp [resetSnd, resetRcv, txQueuedDataOpen, txDataOpen]

section
variable (h : Sending scb tx stream) (hst : scb.state = .synSent ∨ scb.state = .synRcvd)
  (hkept : scb.dropCheck seg = (scb, none)) (hack : hasAny seg.flags flagACK)
  (hnum : seg.ack = scb.snd.una + 1) (hhalf : seg.ack ≠ scb.snd.una + 0x80000000#32)
include h hst hkept hack hnum hhalf

theorem synAck_moves : scb.snd.nxt = scb.snd.iss + 1 ∧ scb.ackedUna seg = scb.snd.iss + 1 := by
  have hpre : scb.state.isPreestablished := by rcases hst with hst | hst <;> rw [hst] <;> rfl
  have huna := (h.opening hpre).2
  have hle : Value.lessThanEq seg.ack scb.snd.nxt := by
    cases hle : Value.lessThanEq seg.ack scb.snd.nxt with
    | true => rfl
    | false =>
    have hdrop : scb.acksUnsentData seg := by
      rw [acksUnsentData, hasAll_ACK, hack, hle]
      rfl
    have hest : (scb.state == .established) = false := by
      rcases hst with hst | hst <;> rw [hst] <;> rfl
    simp only [dropCheck, hest, hpre, hdrop, Bool.false_and, Bool.or_true,
      Bool.and_self, Bool.false_eq_true, if_false, if_true] at hkept
    exact absurd (congrArg Prod.snd hkept) (by simp)
  have hnxt : scb.snd.nxt = scb.snd.iss + 1 := by
    rcases h.handshake hst with hn | hn
    · rw [lessThanEq_iff, hn, hnum, huna] at hle
      have : ahead (scb.snd.iss + 1) scb.snd.iss = 2 ^ 32 - 1 := by
        unfold ahead
        bv_omega
      omega
    · exact hn
  refine ⟨hnxt, ?_⟩
  have hnum' : seg.ack = advance scb.snd.iss 1 := by rw [hnum, huna]; rfl
  rcases ackedUna_cases scb seg scb.snd.iss (u := 0) (c := 1) (by omega) (by omega)
    (by rw [huna, advance_zero]) hnxt hhalf with ⟨p, hp0, hp1, -, hout, -⟩ | ⟨-, hnot⟩
  · obtain rfl : p = 1 := by omega
    exact hout
  · exact absurd hnum' (hnot hack 1 (by omega) (by omega))

theorem sending_opened (hmid : mid.snd = scb.snd) (hopen : mid.state = .established)
    (hsecond : mid.pending1 = scb.pending1) (hp0 : mid.pending0 = scb.pending0)
    (hp : pending = 0 ∨ pending = flagACK) : Sending (mid.acceptSegment seg pending) tx stream := by
  obtain ⟨hnxt, hacked⟩ := synAck_moves h hst hkept hack hnum hhalf
  have hpre : scb.state.isPreestablished := by rcases hst with hst | hst <;> rw [hst] <;> rfl
  obtain ⟨hw, huna⟩ := h.opening hpre
  obtain ⟨wnd, wl1, wl2, dup, nrt, -, -, hdup, heq⟩ := acceptSegment_eq mid seg pending
  have hmoved : mid.ackedUna seg = mid.snd.iss + 1 := by
    rw [ackedUna, hmid]
    exact hacked
  have hdup0 : dup = 0 := by
    apply hdup
    rw [hmoved, hmid, huna]
    bv_omega
  have hsyn : hasAny (mid.pending0 ||| pending) flagSYN = false := by
    have hpend : mid.pending0 ||| pending = mid.pending0 ∨
        mid.pending0 ||| pending = mid.pending0 ||| flagACK := by
      rcases hp with rfl | rfl <;> simp
    rw [hasAny_pending hpend (by decide), hp0]
    cases hs : hasAny scb.pending0 flagSYN with
    | false => rfl
    | true =>
    have := (h.syn hs).2
    bv_omega
  rw [heq]
  refine ⟨h.empty, hsecond.trans h.second, ?_, ?_, ?_, ?_, fun _ => .inr ?_, ?_⟩
  · rw [hsyn]
    simp
  · simp [hopen, isPreestablished]
  · simp [hopen]
  · simp [hopen]
  · refine ⟨0, 0, 0, 0, ?_, le_rfl, le_rfl, ?_, ?_, .inl rfl, fun _ => rfl, by simp [hw]⟩
    · rw [hw]
      exact (h.empty hw).laid _
    · rw [advance_zero]
      exact hmoved
    · rw [advance_zero]
      simp only [hmid, hnxt]
  · intro _ hne
    exact absurd hdup0 hne

end

/-- What Recv does to the ring: an ACK frees bytes, except that data answered with a
reset is dropped with its ACK. -/
def Freed (tx tx' : RingTx) (seg : Segment) (una : Value) (st : State) : Prop :=
  Handler.Acked tx tx' seg una ∨ (tx' = tx ∧ st.txDataOpen = false)

theorem Bare.freed {una : Value} (h : Bare tx) (htx : Freed tx tx' seg una st) : tx' = tx := by
  rcases htx with htx | ⟨htx, -⟩
  · exact h.acked htx
  · exact htx

theorem Cursors.freed (h : Cursors scb tx stream a u b c)
    (hhalf : seg.ack ≠ scb.snd.una + 0x80000000#32) (htx : Freed tx tx' seg scb.snd.una st) :
    ∃ a' u', Laid tx' (scb.snd.iss + 1) stream a' b ∧ a ≤ a' ∧ a' ≤ u' ∧ u' ≤ c ∧
      scb.ackedUna seg = advance (scb.snd.iss + 1) u' ∧
      (st.txDataOpen → u = a → c = b → u' = a') := by
  rcases htx with htx | ⟨rfl, hdata⟩
  · obtain ⟨a', u', hlaid, haa, hau, huc, hout, hex⟩ := h.acked_ring hhalf htx
    exact ⟨a', u', hlaid, haa, hau, huc, hout, fun _ => hex⟩
  have hnear := h.near
  obtain ⟨phase, hlay⟩ := h.laid
  have hb := hlay.b_le
  have hab := hlay.a_le
  have hau := h.behind
  have hcb : c ≤ b + 1 := by rcases h.next with hc | ⟨hc, -⟩ <;> omega
  have hno : st.txDataOpen → False := by
    rw [hdata]
    simp
  rcases ackedUna_cases scb seg _ h.acked (by omega) h.una h.nxt hhalf with
    ⟨p, hup, hpc, -, hout, -⟩ | ⟨hout, -⟩
  · exact ⟨a, p, h.laid, le_rfl, by omega, hpc, hout, fun ho => (hno ho).elim⟩
  · exact ⟨a, u, h.laid, le_rfl, hau, h.acked, hout.trans h.una, fun ho => (hno ho).elim⟩

section
variable (h : Sending scb tx stream) (hhalf : seg.ack ≠ scb.snd.una + 0x80000000#32)
include h hhalf

theorem sending_moved (htx : Freed tx tx' seg scb.snd.una st) (hfrom : scb.state.txQueuedDataOpen)
    (hto : st.txQueuedDataOpen) (hsame : st.txDataOpen = scb.state.txDataOpen)
    (hp : pending = 0 ∨ pending = flagACK) :
    Sending ({ scb with state := st }.acceptSegment seg pending) tx' stream := by
  obtain ⟨wnd, wl1, wl2, dup, nrt, -, hdups, hdup0, heq⟩ :=
    acceptSegment_eq { scb with state := st } seg pending
  have hacked : ackedUna { scb with state := st } seg = scb.ackedUna seg := rfl
  have hpend : scb.pending0 ||| pending = scb.pending0 ∨
      scb.pending0 ||| pending = scb.pending0 ||| flagACK := by
    rcases hp with rfl | rfl
    · exact .inl (by simp)
    · exact .inr rfl
  have hsyn : hasAny (scb.pending0 ||| pending) flagSYN = false := by
    rw [hasAny_pending hpend (by decide)]
    cases hs : hasAny scb.pending0 flagSYN with
    | false => rfl
    | true =>
      rw [(h.syn hs).1] at hfrom
      cases hfrom
  have hnot : st.isPreestablished = false ∧ st ≠ .synSent ∧ st ≠ .synRcvd := by
    revert hto
    cases st <;> decide
  rw [heq, hacked]
  have hempty : stream = [] → Bare tx' := by
    intro hw
    rw [(h.empty hw).freed htx]
    exact h.empty hw
  refine ⟨hempty, h.second, ?_, ?_, ?_, ?_, fun _ => ?_, ?_⟩
  · rw [hsyn]
    simp
  · simp [hnot.1]
  · simp [hnot.2.1, hnot.2.2]
  · simp [hnot.2.1]
  · rcases h.cursors hfrom with ⟨hdata, hw⟩ | ⟨a, u, b, c, hcur⟩
    · exact .inl ⟨hsame.trans hdata, hw⟩
    obtain ⟨a', u', hlaid, haa, hau, huc, hout, hex⟩ := hcur.freed hhalf htx
    have hnear := hcur.near
    refine .inr ⟨a', u', b, c, hlaid, hau, huc, hout, hcur.nxt, ?_, ?_, by omega⟩
    · rcases hcur.next with hc | ⟨hc, hb, hfin, hdata⟩
      · exact .inl hc
      · exact .inr ⟨hc, hb, (hasAny_pending hpend (by decide)).trans hfin, hsame.trans hdata⟩
    intro hopen
    have hopen' : scb.state.txDataOpen := hsame.symm.trans hopen
    exact hex hopen (hcur.exact hopen') (hcur.level hopen')
  intro hopen hne
  have hstay : scb.ackedUna seg = scb.snd.una := by
    by_contra hmove
    exact hne (hdup0 hmove)
  simp only [hstay]
  rcases hdups with hz | hold | hout
  · exact absurd hz hne
  · exact h.dups (hsame.symm.trans hopen) (fun hz => hne (hold.trans hz))
  · exact hout

/-- An accepted segment keeps the two sides together. -/
theorem sending_accepted (hacc : scb.Accepts seg mid pending)
    (htx : Freed tx tx' seg scb.snd.una mid.state) :
    Sending (mid.acceptSegment seg pending) tx' stream := by
  obtain ⟨wnd, wl1, wl2, dup, nrt, -, -, -, heq⟩ := acceptSegment_eq mid seg pending
  have hbare : scb.state.isPreestablished → tx' = tx := fun hpre =>
    (h.empty (h.opening hpre).1).freed htx
  -- a handshake that starts over acknowledges nothing
  have hfresh : ∀ m : ControlBlock, m.snd.una = scb.snd.una → m.snd.nxt = scb.snd.una →
      m.ackedUna seg = scb.snd.una := by
    intro m hm hn
    rcases ackedUna_cases m seg scb.snd.una (u := 0) (c := 0) le_rfl
      (by omega) (by rw [hm, advance_zero]) (by rw [hn, advance_zero]) (by rw [hm]; exact hhalf)
      with ⟨p, hp0, hp1, -⟩ | ⟨hout, -⟩
    · omega
    · exact hout.trans hm
  have hrest : ∀ st, mid = { scb with state := st } → Resting st →
      scb.state.isSynchronized → pending = 0 ∨ pending = flagACK →
      Sending (mid.acceptSegment seg pending) tx' stream := by
    rintro st rfl hr hsync hp
    have hs : hasAny scb.pending0 flagSYN = false := by
      cases hs : hasAny scb.pending0 flagSYN with
      | false => rfl
      | true =>
        rw [(h.syn hs).1] at hsync
        cases hsync
    refine h.resting (by rw [heq]; exact hr) (fun hb => (hb.freed htx) ▸ hb) (by
      rw [heq]; exact h.second) ?_
    rw [heq]
    rcases hp with rfl | rfl
    · simpa using hs
    · simp only [hasAny_or, hs]
      decide
  cases rcvState_handled hacc.handled with
  | listenSyn hst =>
    have hpre : scb.state.isPreestablished := by rw [hst]; rfl
    obtain ⟨hw, huna⟩ := h.opening hpre
    rw [hbare hpre, heq]
    have hacked := hfresh { ((scb.resetSnd scb.snd.iss seg.wnd).resetRcv scb.rcv.wnd seg.seq) with
      pending0 := synack, state := .synRcvd } huna.symm huna.symm
    refine ⟨h.empty, h.second, fun _ => ⟨rfl, rfl⟩, fun _ => ⟨hw, hacked.trans huna⟩,
      fun _ => .inl rfl, ?_, ?_, ?_⟩
    · simp
    · simp [txQueuedDataOpen, txDataOpen]
    · simp [txDataOpen]
  | simultaneousOpen hst =>
    have hpre : scb.state.isPreestablished := by rw [hst]; rfl
    obtain ⟨hw, huna⟩ := h.opening hpre
    rw [hbare hpre, heq]
    have hacked := hfresh { ((scb.resetSnd scb.snd.iss seg.wnd).resetRcv scb.rcv.wnd seg.seq) with
      state := .synRcvd } huna.symm huna.symm
    refine ⟨h.empty, h.second, fun _ => ⟨rfl, rfl⟩, fun _ => ⟨hw, hacked.trans huna⟩,
      fun _ => .inl rfl, ?_, ?_, ?_⟩
    · simp
    · simp [txQueuedDataOpen, txDataOpen]
    · simp [txDataOpen]
  | synAcked hst hsyn hack hnum =>
    rw [hbare (by rw [hst]; rfl)]
    exact sending_opened h (.inl hst) hacc.kept hack hnum hhalf rfl rfl rfl rfl (.inr rfl)
  | opened hst hack hnum =>
    rw [hbare (by rw [hst]; rfl)]
    rw [hasAll_ACK] at hack
    exact sending_opened h (.inr hst) hacc.kept hack hnum hhalf rfl rfl rfl rfl (.inl rfl)
  | moved hmove hp =>
    cases hmove with
    | stay hsync =>
      cases hq : scb.state.txQueuedDataOpen with
      | true => exact sending_moved h hhalf htx hq hq rfl hp
      | false =>
      refine hrest scb.state rfl ?_ hsync hp
      revert hq hsync
      cases scb.state <;> simp [Resting, isSynchronized, txQueuedDataOpen, txDataOpen, isClosed]
    | peerFin hst =>
      exact sending_moved h hhalf htx (by rw [hst]; rfl) rfl (by rw [hst]; rfl) hp
    | simultaneousFin hst =>
      exact sending_moved h hhalf htx (by rw [hst]; rfl) rfl (by rw [hst]; rfl) hp
    | bothFins hst => exact hrest _ rfl (.inr (.inr rfl)) (by rw [hst]; rfl) hp
    | ownFinAcked hst => exact hrest _ rfl (.inr (.inl rfl)) (by rw [hst]; rfl) hp
    | peerFinLast hst => exact hrest _ rfl (.inr (.inr rfl)) (by rw [hst]; rfl) hp
    | closingAcked hst => exact hrest _ rfl (.inr (.inr rfl)) (by rw [hst]; rfl) hp
  | finished hst =>
  refine h.resting (.inl (by rw [heq]; rfl)) (fun hb => (hb.freed htx) ▸ hb) (by rw [heq]; rfl) ?_
  rw [heq]
  exact (by decide : hasAny (0 ||| 0) flagSYN = false)

end

end Receiving

end Lneto.SendCursors
