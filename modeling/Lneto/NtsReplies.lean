import Lneto.NtsServer

/-!
The responses of the authenticated server. Beside the server runs a ledger of the
requests it accepted and the responses it sent. As long as no request is accepted while
another one waits, the slot above and the stack below hold the same request.
-/
namespace Lneto.NtsReplies

open NtpFrame NtpExtensions NtsServer GuardedRuns List
open NtpServer.Server (transmitTimeAt)
open Views (carried_inside)
open Server

variable {now offsetToFrame : ℤ} {carrierData : Bytes} {sv : Server} {cfg : ServerConfig}
  {connID : UInt64}

/-- A request the server accepted, with what it calls for in the response. -/
structure Request where
  id : ℕ
  uid : Bytes
  origin : Timestamp
deriving DecidableEq, Repr

structure Answer where
  request : Request
  response : Bytes

/-- The response is authentic and both its identifier and its origin time are those of the
request. -/
def Answer.Right (s2c : Aead) (a : Answer) : Prop :=
  ∃ frm, newFrame a.response = .ok frm ∧ Opens s2c frm ∧
    uniqueID frm.extensionFields = a.request.uid ∧ frm.originTime = a.request.origin

structure Watched where
  sv : Server
  accepted : List Request := []
  waiting : List Request := []
  answered : List Answer := []

variable {w : Watched}

inductive ServerOp where
  | demux (carrierData : Bytes) (frameOffset : ℤ)
  | encapsulate (now : ℤ) (rand : Option (ℕ → UInt8)) (cookie carrierData : Bytes)
      (offsetToFrame : ℤ)

namespace Watched

def accept (w : Watched) (sv : Server) (req : Request) : Watched :=
  { w with sv, accepted := w.accepted ++ [req], waiting := w.waiting ++ [req] }

def answer (w : Watched) (sv : Server) (response : Bytes) : Watched :=
  match w.waiting.getLast? with
  | none => { w with sv }
  | some request =>
    { w with
      sv
      waiting := w.waiting.dropLast
      answered := w.answered ++ [{ request, response }] }

end Watched

def watch (w : Watched) : ServerOp → Except Panic Watched
  | .demux carrierData frameOffset => do
    match ← w.sv.demux carrierData frameOffset with
    | (sv, some _) => return { w with sv }
    | (sv, none) =>
      return w.accept sv
        { id := w.accepted.length
          uid := uniqueIDAt carrierData frameOffset
          origin := transmitTimeAt carrierData frameOffset }
  | .encapsulate now rand cookie carrierData offsetToFrame => do
    match ← w.sv.encapsulate now rand cookie carrierData offsetToFrame with
    | (sv, .ok (some e)) => return w.answer sv (e.carrier.take e.n)
    | (sv, _) => return { w with sv }

/-- The nonce of a packet is one that the cipher takes without a panic. -/
def nonceFits (c : Aead) (carrierData : Bytes) (frameOffset : ℤ) : Bool :=
  match newFrame (carrierData.drop frameOffset.toNat) with
  | .error _ => true
  | .ok frm =>
    match readAuth frm with
    | .error _ => true
    | .ok auth => auth.nonce.length == c.nonceSize || !c.strict

def accepts (s : Server) (carrierData : Bytes) (frameOffset : ℤ) : Bool :=
  match s.demux carrierData frameOffset with
  | .ok (_, none) => true
  | _ => false

/-- No other request waits and the identifier fits; or the clock has a stamp, the random source
works and the cookie fits. -/
def Sparing (w : Watched) : ServerOp → Prop
  | .demux carrierData frameOffset =>
    (0 ≤ frameOffset ∧ frameOffset ≤ carrierData.length) ∧
      nonceFits w.sv.c2s carrierData frameOffset = true ∧
      (accepts w.sv carrierData frameOffset = true →
        w.waiting = [] ∧ (uniqueIDAt carrierData frameOffset).length ≤ 32)
  | .encapsulate now rand cookie carrierData offsetToFrame =>
    w.sv.hasPending = true →
      Ample w.sv cookie carrierData offsetToFrame ∧ (stamp now).isOk = true ∧ rand.isSome = true ∧
        w.sv.bodySize cookie ≤ maxAuthBody + 512

instance (s : Server) (cookie carrierData : Bytes) (offsetToFrame : ℤ) :
    Decidable (Ample s cookie carrierData offsetToFrame) :=
  inferInstanceAs (Decidable (_ ∧ _ ∧ _))

instance (w : Watched) (op : ServerOp) : Decidable (Sparing w op) :=
  match op with
  | .demux _ _ => inferInstanceAs (Decidable ((_ ∧ _) ∧ _ ∧ (_ → _ ∧ _)))
  | .encapsulate _ _ _ _ _ => inferInstanceAs (Decidable (_ → _ ∧ _ ∧ _ ∧ _))

/-- The slot holds the identifier of the one request that waits. -/
def Slot (w : Watched) : Prop :=
  (w.sv.hasPending = false ∧ w.waiting = []) ∨
    (w.sv.hasPending = true ∧ ∃ r, w.waiting = [r] ∧ w.sv.pending.uid = r.uid)

structure Ledger (w : Watched) : Prop where
  capacity : w.sv.ntpState.capacity = 4
  pending_eq : w.sv.ntpState.pending = w.waiting.map Request.origin
  slot : Slot w
  all : (w.answered.map Answer.request ++ w.waiting).Perm w.accepted
  ids : w.accepted.map Request.id = List.range w.accepted.length
  right : ∀ a ∈ w.answered, a.Right w.sv.s2c

theorem Ledger.nodup (h : Ledger w) : w.accepted.Nodup := by
  apply Nodup.of_map Request.id
  rw [h.ids]
  exact nodup_range

theorem reset_ok (h : reset connID cfg = .ok sv) :
    sv.ntpState.capacity = 4 ∧ sv.ntpState.pending = [] ∧ sv.hasPending = false := by
  unfold reset at h
  split at h
  · split_ifs at h
    cases h
    exact ⟨rfl, rfl, rfl⟩
  · cases h

theorem Ledger.start (h : reset connID cfg = .ok sv) : Ledger { sv } := by
  obtain ⟨hcap, hpending, hslot⟩ := reset_ok h
  exact ⟨hcap, hpending, .inl ⟨hslot, rfl⟩, .refl _, rfl, fun a ha => absurd ha not_mem_nil⟩

theorem demux_total {s : Server} {frameOffset : ℤ} (hlow : 0 ≤ frameOffset)
    (hhigh : frameOffset ≤ carrierData.length) (hnonce : nonceFits s.c2s carrierData frameOffset) :
    ∃ r, s.demux carrierData frameOffset = .ok r := by
  have hbuf := carried_inside hlow hhigh
  obtain ⟨⟨ntpState, r⟩, hntp⟩ := s.ntpState.demux_total hbuf
  unfold nonceFits at hnonce
  simp only [demux, hbuf, below, Except.mapError, ok_then]
  cases hframe : newFrame (carrierData.drop frameOffset.toNat) with
  | error e => exact ⟨_, rfl⟩
  | ok frm =>
  rw [hframe] at hnonce
  simp only at hnonce ⊢
  split_ifs with hempty
  · exact ⟨_, rfl⟩
  cases hauth : readAuth frm with
  | error e => exact ⟨_, rfl⟩
  | ok auth =>
  rw [hauth] at hnonce
  simp only at hnonce ⊢
  have hopen : s.c2s.unseal auth.nonce auth.ciphertext auth.aad =
      .ok (s.c2s.openUp auth.nonce auth.ciphertext auth.aad) := by
    refine if_neg ?_
    rintro ⟨hsize, hstrict⟩
    rw [hstrict, beq_false_of_ne hsize] at hnonce
    cases hnonce
  rw [hopen]
  cases s.c2s.openUp auth.nonce auth.ciphertext auth.aad with
  | none => exact ⟨_, rfl⟩
  | some plain =>
  simp only [hntp]
  cases r with
  | none | some => exact ⟨_, rfl⟩

theorem Ledger.demux {frameOffset : ℤ} (h : Ledger w)
    (hsparing : Sparing w (.demux carrierData frameOffset)) :
    ∃ w', watch w (.demux carrierData frameOffset) = .ok w' ∧ Ledger w' := by
  obtain ⟨⟨hlow, hhigh⟩, hnonce, hfree⟩ := hsparing
  obtain ⟨⟨sv, r⟩, hrun⟩ := demux_total hlow hhigh hnonce
  simp only [watch, hrun, ok_then]
  obtain ⟨rfl, hr⟩ | ⟨rfl, room, p, rfl, huid⟩ := demux_cases hrun
  · obtain ⟨e, rfl⟩ := Option.ne_none_iff_exists'.1 hr
    exact ⟨_, rfl, h⟩
  obtain ⟨hwaiting, hshort⟩ := hfree (by simp only [accepts, hrun])
  rw [take_of_length_le hshort] at huid
  refine ⟨_, rfl, h.capacity, ?_, .inr ⟨rfl, ⟨w.accepted.length,
    uniqueIDAt carrierData frameOffset, transmitTimeAt carrierData frameOffset⟩, ?_, huid⟩, ?_, ?_,
    h.right⟩
  · simp only [Watched.accept, NtpServer.Server.push, h.pending_eq, map_append, map_cons, map_nil]
  · simp only [Watched.accept, hwaiting, nil_append]
  · simp only [Watched.accept]
    rw [← append_assoc]
    exact h.all.append_right _
  · simp only [Watched.accept, map_append, map_cons, map_nil, h.ids,
      length_append, length_singleton, range_succ]

theorem Ledger.encapsulate {rand : Option (ℕ → UInt8)} {cookie : Bytes} (h : Ledger w)
    (hsparing : Sparing w (.encapsulate now rand cookie carrierData offsetToFrame)) :
    ∃ w', watch w (.encapsulate now rand cookie carrierData offsetToFrame) = .ok w' ∧ Ledger w' ∧
      w'.accepted = w.accepted ∧ w'.waiting = [] := by
  rcases h.slot with ⟨hidle, hnil⟩ | ⟨hpending, req, hwaiting, huid⟩
  · have hrun : w.sv.encapsulate now rand cookie carrierData offsetToFrame = .ok (w.sv, .ok none) :=
      if_pos hidle
    simp only [watch, hrun, ok_then]
    exact ⟨_, rfl, h, rfl, hnil⟩
  obtain ⟨hample, hclock, hrand, hbody⟩ := hsparing hpending
  obtain ⟨bytes, rfl⟩ := Option.isSome_iff_exists.1 hrand
  obtain ⟨xmt, hstamp⟩ : ∃ xmt, stamp now = .ok xmt := by
    cases hs : stamp now with
    | error e =>
      rw [hs] at hclock
      cases hclock
    | ok xmt => exact ⟨xmt, rfl⟩
  have hlast : w.sv.ntpState.pending.getLast? = some req.origin := by
    rw [h.pending_eq, hwaiting]
    rfl
  obtain ⟨e, frm, hrun, hframe, hopens, hunique, horigin⟩ :=
    @encapsulate_answers w.sv now bytes cookie carrierData offsetToFrame _ _ hpending hlast
      hstamp hample hbody
  simp only [watch, hrun, ok_then]
  have hanswer : ∀ sv, w.answer sv (e.carrier.take e.n) =
      { w with
        sv, waiting := []
        answered := w.answered ++ [{ request := req, response := e.carrier.take e.n }] } := by
    intro sv
    simp only [Watched.answer, hwaiting, getLast?_singleton, dropLast_singleton]
  refine ⟨_, rfl, ?_, ?_, ?_⟩
  · rw [hanswer]
    refine ⟨h.capacity, ?_, .inl ⟨rfl, rfl⟩, ?_, h.ids, ?_⟩
    · simp only [NtpServer.Server.pop, h.pending_eq, hwaiting, map_cons, map_nil,
        dropLast_singleton]
    · refine Perm.trans ?_ h.all
      rw [hwaiting, append_nil, map_append]
      exact .refl _
    intro a ha
    rcases mem_append.1 ha with ha | ha
    · exact h.right a ha
    · rw [mem_singleton.1 ha]
      exact ⟨frm, hframe, hopens, hunique.trans huid, horigin⟩
  · rw [hanswer]
  · rw [hanswer]

/-- Room is left below whenever the slot is empty. -/
structure Unwedged (w : Watched) : Prop where
  capacity : w.sv.ntpState.capacity = 4
  room : w.sv.hasPending = false → w.sv.ntpState.pending.length ≤ 3

theorem Unwedged.start (h : reset connID cfg = .ok sv) : Unwedged { sv } := by
  obtain ⟨hcap, hpending, -⟩ := reset_ok h
  exact ⟨hcap, fun _ => by simp only [hpending, length_nil]; omega⟩

theorem below_encapsulate {h h' : NtpServer.Server} {r : Except Err (Option Frame)}
    (hrun : h.encapsulate now carrierData offsetToFrame = .ok (h', r)) :
    h'.capacity = h.capacity ∧ (∀ frm, r = .ok (some frm) → h'.pending.length + 1 ≤ h.capacity) ∧
      (r = .ok none → h'.pending = []) := by
  have hfits := h.fits
  obtain ⟨hnil, rfl, rfl⟩ | ⟨-, rfl, e, rfl⟩ | ⟨-, rfl, origin, hlast, hr⟩ :=
    NtpServer.Server.encapsulate_cases hrun
  · exact ⟨rfl, fun frm hr => by simp at hr, fun _ => hnil⟩
  · exact ⟨rfl, fun frm hr => by simp at hr, fun hr => by simp at hr⟩
  have hne : h.pending ≠ [] := by
    intro hnil
    rw [hnil] at hlast
    cases hlast
  have hpos := length_pos_iff.2 hne
  refine ⟨rfl, fun frm _ => ?_, fun hnone => ?_⟩
  · simp only [NtpServer.Server.pop, length_dropLast]
    omega
  rcases hr with ⟨e, -, rfl⟩ | ⟨xmt, frm, -, rfl⟩
  · cases hnone
  · cases hnone

theorem encapsulate_room {s s' : Server} {rand : Option (ℕ → UInt8)} {cookie : Bytes}
    {r : Except Err (Option Emission)} (hcap : s.ntpState.capacity = 4)
    (hroom : s.hasPending = false → s.ntpState.pending.length ≤ 3)
    (hrun : s.encapsulate now rand cookie carrierData offsetToFrame = .ok (s', r)) :
    s'.ntpState.capacity = 4 ∧
      (s'.hasPending = false ∨ r = .ok none → s'.ntpState.pending.length ≤ 3) := by
  unfold encapsulate at hrun
  by_cases hidle : s.hasPending = false
  · rw [if_pos hidle] at hrun
    cases hrun
    exact ⟨hcap, fun _ => hroom hidle⟩
  rw [if_neg hidle] at hrun
  by_cases hshort : (carrierData.length : ℤ) - offsetToFrame < minServerCarrierRoom
  · rw [if_pos hshort] at hrun
    cases hrun
    refine ⟨hcap, ?_⟩
    rintro (hfalse | hnone)
    · exact absurd hfalse hidle
    · cases hnone
  rw [if_neg hshort] at hrun
  obtain ⟨⟨ntpState, r'⟩, hntp, hrun⟩ := ok_bind hrun
  obtain ⟨hcap', hsent, hnone⟩ := below_encapsulate (below_ok hntp)
  rw [hcap] at hcap' hsent
  rcases r' with e | _ | frm
  · cases hrun
    exact ⟨hcap', fun hor => absurd hor (by simp [hidle])⟩
  · cases hrun
    exact ⟨hcap', fun _ => by simp only [hnone rfl, length_nil]; omega⟩
  have hlen : ntpState.pending.length ≤ 3 := by
    have := hsent frm rfl
    omega
  obtain ⟨g, -, hrun⟩ := ok_bind hrun
  cases rand with
  | none =>
    cases hrun
    exact ⟨hcap', fun _ => hlen⟩
  | some bytes =>
  obtain ⟨plain, -, hrun⟩ := ok_bind hrun
  obtain ⟨body, -, hrun⟩ := ok_bind hrun
  obtain ⟨g', -, hrun⟩ := ok_bind hrun
  cases hrun
  exact ⟨hcap', fun _ => hlen⟩

theorem Unwedged.step {w' : Watched} {op : ServerOp} (h : Unwedged w)
    (hstep : watch w op = .ok w') : Unwedged w' := by
  cases op with
  | demux carrierData frameOffset =>
    obtain ⟨⟨sv, r⟩, hrun, hstep⟩ := ok_bind hstep
    obtain ⟨rfl, hr⟩ | ⟨rfl, room, p, rfl, -⟩ := demux_cases hrun
    · obtain ⟨e, rfl⟩ := Option.ne_none_iff_exists'.1 hr
      cases hstep
      exact h
    · cases hstep
      exact ⟨h.capacity, nofun⟩
  | encapsulate now rand cookie carrierData offsetToFrame =>
  obtain ⟨⟨sv, r⟩, hrun, hstep⟩ := ok_bind hstep
  obtain ⟨hcap, hroom⟩ := encapsulate_room h.capacity h.room hrun
  have hsv : w'.sv = sv := by
    rcases r with e | _ | e
    · cases hstep
      rfl
    · cases hstep
      rfl
    cases hstep
    simp only [Watched.answer]
    cases w.waiting.getLast? with
    | none | some => rfl
  exact ⟨by rw [hsv, hcap], fun hfalse => by rw [hsv] at hfalse ⊢; exact hroom (.inl hfalse)⟩

/-- When there is nothing more to send, the next valid packet is accepted. -/
def Receptive (s : Server) : Prop :=
  ∀ now rand cookie carrierData offsetToFrame s',
    s.encapsulate now rand cookie carrierData offsetToFrame = .ok (s', .ok none) →
    ∀ carrierData' frameOffset, Valid s' carrierData' frameOffset →
      ∃ s'', s'.demux carrierData' frameOffset = .ok (s'', none)

theorem Unwedged.receptive (h : Unwedged w) : Receptive w.sv := by
  intro now rand cookie carrierData offsetToFrame s' hrun carrierData' frameOffset hvalid
  obtain ⟨hcap, hroom⟩ := encapsulate_room h.capacity h.room hrun
  have hlen := hroom (.inr rfl)
  exact demux_takes hvalid (by omega)

/-- Every accepted request has been answered or waits for the next call, and every response is
that of its request. -/
structure Served (w : Watched) : Prop where
  right : ∀ a ∈ w.answered, a.Right w.sv.s2c
  all : (w.answered.map Answer.request ++ w.waiting).Perm w.accepted
  once : w.accepted.Nodup
  /-- The next call answers all that waits. -/
  drained : ∀ now rand cookie carrierData offsetToFrame,
    Sparing w (.encapsulate now rand cookie carrierData offsetToFrame) →
    ∃ w', watch w (.encapsulate now rand cookie carrierData offsetToFrame) = .ok w' ∧
      (w'.answered.map Answer.request).Perm w.accepted ∧ ∀ a ∈ w'.answered, a.Right w'.sv.s2c

theorem Ledger.served (h : Ledger w) : Served w where
  right := h.right
  all := h.all
  once := h.nodup
  drained := by
    intro now rand cookie carrierData offsetToFrame hsparing
    obtain ⟨w', hrun, h', haccepted, hnil⟩ := h.encapsulate hsparing
    have hall := h'.all
    rw [hnil, append_nil, haccepted] at hall
    exact ⟨w', hrun, hall, h'.right⟩

theorem Ledger.step {op : ServerOp} (h : Ledger w) (hsparing : Sparing w op) :
    ∃ w', watch w op = .ok w' ∧ Ledger w' := by
  cases op with
  | demux carrierData frameOffset => exact h.demux hsparing
  | encapsulate now rand cookie carrierData offsetToFrame =>
    obtain ⟨w', hrun, h', -⟩ := h.encapsulate hsparing
    exact ⟨w', hrun, h'⟩

/-- No run wedges the server, and a run in which requests come one at a time answers each of
them. -/
theorem sparing_runs_answer {connID : UInt64} {cfg : ServerConfig} {sv : Server}
    (hreset : Server.reset connID cfg = .ok sv) (ops : List ServerOp) :
    (∀ w, exec watch { sv } ops = .ok w → Receptive w.sv) ∧
      (Guarded watch Sparing { sv } ops → ∃ w, exec watch { sv } ops = .ok w ∧ Served w) := by
  refine ⟨?_, ?_⟩
  · intro w hrun
    have hroom : Unwedged w :=
      exec_always (fun s op s' hs hstep => hs.step hstep) ops _ w (.start hreset) hrun
    exact hroom.receptive
  intro hguard
  obtain ⟨w, hrun, h⟩ := exec_safe (fun s op hs hg => hs.step hg) ops _ (Ledger.start hreset) hguard
  exact ⟨w, hrun, h.served⟩

def sumCipher : Aead where
  nonceSize := 2
  overhead := 1
  sealUp nonce plain data := plain ++ [(nonce ++ plain ++ data).sum]
  openUp nonce ciphertext data :=
    if ciphertext.getLast? = some (nonce ++ ciphertext.dropLast ++ data).sum then
      some ciphertext.dropLast
    else none
  strict := true
  length_sealUp := by
    intro nonce plain data _
    rw [length_append, length_singleton]
  openUp_sealUp := by
    intro nonce plain data _
    rw [List.getLast?_concat, dropLast_concat, if_pos rfl]

def sumConfig : ServerConfig :=
  { c2s := some sumCipher, s2c := some sumCipher, refID := .replicate 4 0 }

def sumServer : Server :=
  { connID := 1
    c2s := sumCipher
    s2c := sumCipher
    ntpState := ⟨1, 0, 0, .replicate 4 0, [], 4, Nat.zero_le 4⟩
    pending := .empty
    hasPending := false
    fits := by decide }

theorem reset_sum : reset 0 sumConfig = .ok sumServer := rfl

def request (transmit : Timestamp) (uid : Bytes) : Bytes :=
  let front := NtpServer.requestFrame transmit ++ uidField uid
  front ++ extField extNTSAuthAndEEF (sumCipher.body [1, 2] [] front)

def send : ServerOp := .encapsulate 3000000000 (some fun _ => 7) [] (List.replicate 150 0) 0

theorem sparing_runs_answer_two : ∃ w, exec watch { sv := sumServer }
        [.demux (request ⟨2, 7⟩ [1, 2, 3, 4]) 0, send, .demux (request ⟨2, 9⟩ [5, 6, 7, 8]) 0,
          send] = .ok w ∧
      w.answered.map Answer.request = [⟨0, [1, 2, 3, 4], ⟨2, 7⟩⟩, ⟨1, [5, 6, 7, 8], ⟨2, 9⟩⟩] ∧
      Served w := by
  obtain ⟨w, hrun, hserved⟩ := (sparing_runs_answer reset_sum
    [.demux (request ⟨2, 7⟩ [1, 2, 3, 4]) 0, send, .demux (request ⟨2, 9⟩ [5, 6, 7, 8]) 0, send]).2
      (by decide +kernel)
  have hanswered : w.answered.map Answer.request =
      [⟨0, [1, 2, 3, 4], ⟨2, 7⟩⟩, ⟨1, [5, 6, 7, 8], ⟨2, 9⟩⟩] :=
    ok_observe (f := fun t : Watched => t.answered.map Answer.request) hrun (by decide +kernel)
  exact ⟨w, hrun, hanswered, hserved⟩

/-- Of two requests that come before a response only the second is answered; the first waits for
good. -/
theorem first_of_two_unanswered : ∃ w, exec watch { sv := sumServer }
        [.demux (request ⟨2, 7⟩ [1, 2, 3, 4]) 0, .demux (request ⟨2, 9⟩ [5, 6, 7, 8]) 0, send] =
          .ok w ∧
      w.accepted.length = 2 ∧ w.waiting = [⟨0, [1, 2, 3, 4], ⟨2, 7⟩⟩] ∧
      ∀ now rand cookie carrierData offsetToFrame,
        w.sv.encapsulate now rand cookie carrierData offsetToFrame = .ok (w.sv, .ok none) := by
  obtain ⟨w, hrun, hlen, hwaiting, hidle⟩ : ∃ w, exec watch { sv := sumServer }
      [.demux (request ⟨2, 7⟩ [1, 2, 3, 4]) 0, .demux (request ⟨2, 9⟩ [5, 6, 7, 8]) 0, send] =
        .ok w ∧
      w.accepted.length = 2 ∧ w.waiting = [⟨0, [1, 2, 3, 4], ⟨2, 7⟩⟩] ∧ w.sv.hasPending = false :=
    exists_exec (by decide +kernel)
  exact ⟨w, hrun, hlen, hwaiting, fun _ _ _ _ _ => if_pos hidle⟩

end Lneto.NtsReplies
