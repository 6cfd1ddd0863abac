import Lneto.GuardedRuns
import Lneto.NtpFrame

/-!
The time server: requests wait in a stack and are answered one at a time, the
newest first. Beside the server runs a ledger of the requests it accepted and of
the replies it sent, with the times of both.
-/
namespace Lneto.NtpServer

open NtpFrame GuardedRuns Regions CircularBuffers
open Views (Fault carried carried_ok carried_inside)
open NtpFrame.Frame hiding length_put

variable {buf carrierData : Bytes} {frameOffset now offsetToFrame : ℤ} {origin : Timestamp}
  {frm : Frame}

structure ServerConfig where
  /-- `Now` is not nil. -/
  hasNow : Bool := true
  stratum : UInt8 := 0
  precision : UInt8 := 0
  refID : Vector UInt8 4 := #v[0, 0, 0, 0]
  maxPending : ℤ := 0

def ServerConfig.room (cfg : ServerConfig) : ℕ :=
  if cfg.maxPending ≤ 0 then 4 else cfg.maxPending.toNat

/-- `pending` holds the origin time of each request, the newest last. -/
structure Server where
  connID : UInt64
  stratum : UInt8
  prec : UInt8
  refID : Vector UInt8 4
  pending : List Timestamp
  capacity : ℕ
  fits : pending.length ≤ capacity

open List

variable {h : Server}

namespace Server

def reset (h : Server) (cfg : ServerConfig) : Except Err Server :=
  if cfg.hasNow = false then .error .invalidConfig
  else
    .ok { connID := h.connID + 1
          stratum := cfg.stratum
          prec := cfg.precision
          refID := cfg.refID
          pending := []
          capacity := max h.capacity cfg.room
          fits := Nat.zero_le _ }

def answer (h : Server) (frm : Frame) (origin xmt : Timestamp) : Frame :=
  let frm := frm.clearHeader
  let frm := frm.setFlags modeServer version4 leapNoWarning
  let frm := frm.setStratum h.stratum
  let frm := frm.setPrecision h.prec
  let frm := frm.setPoll 6
  let frm := frm.setReferenceID h.refID
  let frm := frm.setOriginTime origin
  let frm := frm.setReceiveTime xmt
  frm.setTransmitTime xmt

def pop (h : Server) : Server :=
  { h with
    pending := h.pending.dropLast
    fits := by
      rw [List.length_dropLast]
      exact (Nat.sub_le _ _).trans h.fits }

/-- The reply and the carrier behind it, if there is one. The clock shows `now`. -/
def encapsulate (h : Server) (now : ℤ) (carrierData : Bytes) (offsetToFrame : ℤ) :
    Except Fault (Server × Except Err (Option Frame)) :=
  match h.pending.getLast? with
  | none => .ok (h, .ok none)
  | some origin => do
    let buf ← carried carrierData offsetToFrame
    match newFrame buf with
    | .error e => return (h, .error e)
    | .ok frm =>
      match stamp now with
      | .error e => return (h.pop, .error e)
      | .ok xmt => return (h.pop, .ok (some (h.answer frm origin xmt)))

def push (h : Server) (origin : Timestamp) (room : h.pending.length ≠ h.capacity) : Server :=
  { h with
    pending := h.pending ++ [origin]
    fits := by
      have hfits := h.fits
      rw [List.length_append, List.length_singleton]
      omega }

def demux (h : Server) (carrierData : Bytes) (frameOffset : ℤ) :
    Except Fault (Server × Option Err) := do
  let buf ← carried carrierData frameOffset
  match newFrame buf with
  | .error e => return (h, some e)
  | .ok frm =>
    if frm.mode ≠ modeClient then return (h, some .packetDrop)
    else if frm.version ≠ version4 then return (h, some .packetDrop)
    else if room : h.pending.length ≠ h.capacity then
      return (h.push frm.transmitTime room, none)
    else return (h, some .exhausted)

theorem answer_times (h : Server) (frm : Frame) (origin xmt : Timestamp) :
    (h.answer frm origin xmt).originTime = origin ∧
      (h.answer frm origin xmt).receiveTime = xmt ∧
      (h.answer frm origin xmt).transmitTime = xmt := by
  simp only [answer, setTransmitTime, setReceiveTime, setOriginTime,
    originTime, receiveTime, transmitTime]
  refine ⟨?_, ?_, ?_⟩
  · rw [timeAt_put_apart _ (by decide) (by simp), timeAt_put_apart _ (by decide) (by simp),
      timeAt_put_same _ _ (by decide)]
  · rw [timeAt_put_apart _ (by decide) (by simp), timeAt_put_same _ _ (by decide)]
  · rw [timeAt_put_same _ _ (by decide)]

theorem length_answer (h : Server) (frm : Frame) (origin xmt : Timestamp) :
    (h.answer frm origin xmt).buf.length = frm.buf.length := by
  simp only [answer, clearHeader, setFlags, setStratum, setPrecision,
    setPoll, setReferenceID, setOriginTime, setReceiveTime,
    setTransmitTime, Frame.length_put]

theorem encapsulate_sends {xmt : Timestamp} (hlast : h.pending.getLast? = some origin)
    (hbuf : carried carrierData offsetToFrame = .ok buf) (hframe : newFrame buf = .ok frm)
    (hstamp : stamp now = .ok xmt) : h.encapsulate now carrierData offsetToFrame =
      .ok (h.pop, .ok (some (h.answer frm origin xmt))) := by
  simp only [encapsulate, hlast, hbuf, ok_then, hframe, hstamp]
  rfl

def transmitTimeAt (carrierData : Bytes) (frameOffset : ℤ) : Timestamp :=
  .ofBytes (read (carrierData.drop frameOffset.toNat) ⟨40, 8⟩)

theorem demux_cases {h' : Server} {r : Option Err}
    (hrun : h.demux carrierData frameOffset = .ok (h', r)) : (h' = h ∧ r ≠ none) ∨
      (∃ room, h' = h.push (transmitTimeAt carrierData frameOffset) room ∧ r = none) := by
  obtain ⟨buf, hbuf, hrun⟩ := ok_bind hrun
  obtain ⟨-, -, rfl⟩ := carried_ok hbuf
  cases hframe : newFrame (carrierData.drop frameOffset.toNat) with
  | error e =>
    rw [hframe] at hrun
    cases hrun
    exact .inl ⟨rfl, by simp⟩
  | ok frm =>
  rw [hframe] at hrun
  simp only at hrun
  split_ifs at hrun with hmode hversion hroom
  · cases hrun
    exact .inl ⟨rfl, by simp⟩
  · cases hrun
    exact .inl ⟨rfl, by simp⟩
  · cases hrun
    refine .inr ⟨hroom, ?_, rfl⟩
    rw [transmitTime, timeAt, newFrame_ok hframe, transmitTimeAt]
  · cases hrun
    exact .inl ⟨rfl, by simp⟩

theorem demux_total (h : Server) (hbuf : carried carrierData frameOffset = .ok buf) :
    ∃ r, h.demux carrierData frameOffset = .ok r := by
  simp only [demux, hbuf, ok_then]
  cases newFrame buf with
  | error e => exact ⟨_, rfl⟩
  | ok frm =>
  simp only
  split_ifs
  all_goals exact ⟨_, rfl⟩

theorem demux_takes (hbuf : carried carrierData frameOffset = .ok buf)
    (hframe : newFrame buf = .ok frm) (hmode : frm.mode = modeClient)
    (hversion : frm.version = version4) (room : h.pending.length ≠ h.capacity) :
    h.demux carrierData frameOffset = .ok (h.push frm.transmitTime room, none) := by
  simp only [demux, hbuf, ok_then, hframe]
  rw [if_neg (not_not.2 hmode), if_neg (not_not.2 hversion), dif_pos room]
  rfl

theorem encapsulate_cases {h' : Server} {r : Except Err (Option Frame)}
    (hrun : h.encapsulate now carrierData offsetToFrame = .ok (h', r)) :
    (h.pending = [] ∧ h' = h ∧ r = .ok none) ∨
      (carrierData.length < offsetToFrame + sizeHeader ∧ h' = h ∧ ∃ e, r = .error e) ∨
      (offsetToFrame + sizeHeader ≤ carrierData.length ∧ h' = h.pop ∧
        ∃ origin, h.pending.getLast? = some origin ∧ ((∃ e, stamp now = .error e ∧ r = .error e) ∨
            ∃ xmt frm, stamp now = .ok xmt ∧ r = .ok (some (h.answer frm origin xmt)))) := by
  unfold encapsulate at hrun
  cases hlast : h.pending.getLast? with
  | none =>
    rw [hlast] at hrun
    cases hrun
    exact .inl ⟨getLast?_eq_none_iff.1 hlast, rfl, rfl⟩
  | some origin =>
  rw [hlast] at hrun
  obtain ⟨buf, hbuf, hrun⟩ := ok_bind hrun
  obtain ⟨hlow, hhigh, rfl⟩ := carried_ok hbuf
  cases hframe : newFrame (carrierData.drop offsetToFrame.toNat) with
  | error e =>
    have hshort := newFrame_error hframe
    rw [hframe] at hrun
    cases hrun
    refine .inr (.inl ⟨?_, rfl, _, rfl⟩)
    rw [length_drop] at hshort
    omega
  | ok frm =>
  have hwhole := frm.whole
  rw [newFrame_ok hframe, length_drop] at hwhole
  refine .inr (.inr ⟨by omega, ?_⟩)
  rw [hframe] at hrun
  cases hstamp : stamp now with
  | error e =>
    rw [hstamp] at hrun
    cases hrun
    exact ⟨rfl, origin, rfl, .inl ⟨e, rfl, rfl⟩⟩
  | ok xmt =>
  rw [hstamp] at hrun
  cases hrun
  exact ⟨rfl, origin, rfl, .inr ⟨xmt, frm, rfl, rfl⟩⟩

end Server

open Server

/-- A request the server accepted, the stamp its client sent it with and the time it came. -/
structure Request where
  id : ℕ
  origin : Timestamp
  arrived : ℤ
deriving DecidableEq, Repr

structure Reply where
  request : Request
  frame : Frame
  sent : ℤ

/-- The stamps of the reply are those of its request and of its own departure. -/
def Reply.Describes (r : Reply) : Prop :=
  r.frame.originTime = r.request.origin ∧ stamp r.request.arrived = .ok r.frame.receiveTime ∧
    stamp r.sent = .ok r.frame.transmitTime

structure Watched where
  sv : Server
  accepted : List Request := []
  waiting : List Request := []
  answered : List Reply := []

variable {w : Watched}

inductive ServerOp where
  | demux (now : ℤ) (carrierData : Bytes) (frameOffset : ℤ)
  | encapsulate (now : ℤ) (carrierData : Bytes) (offsetToFrame : ℤ)

namespace Watched

def accept (w : Watched) (sv : Server) (req : Request) : Watched :=
  { w with sv, accepted := w.accepted ++ [req], waiting := w.waiting ++ [req] }

def reply (w : Watched) (sv : Server) (frame : Frame) (now : ℤ) : Watched :=
  match w.waiting.getLast? with
  | none => { w with sv }
  | some request =>
    { w with
      sv
      waiting := w.waiting.dropLast
      answered := w.answered ++ [{ request, frame, sent := now }] }

end Watched

def watch (w : Watched) : ServerOp → Except Fault Watched
  | .demux now carrierData frameOffset => do
    let (sv, r) ← w.sv.demux carrierData frameOffset
    match r with
    | some _ => return { w with sv }
    | none =>
      return w.accept sv
        { id := w.accepted.length
          origin := Server.transmitTimeAt carrierData frameOffset
          arrived := now }
  | .encapsulate now carrierData offsetToFrame => do
    let (sv, r) ← w.sv.encapsulate now carrierData offsetToFrame
    match r with
    | .ok (some frame) => return w.reply sv frame now
    | _ => return { w with sv }

/-- A request is taken off the stack only while the clock still has the stamp it had when the
request came. -/
def Prompt (w : Watched) : ServerOp → Prop
  | .demux _ _ _ => True
  | .encapsulate now carrierData offsetToFrame =>
    ∀ req ∈ w.waiting.getLast?, offsetToFrame + sizeHeader ≤ carrierData.length →
      stamp now = stamp req.arrived ∧ (stamp now).isOk = true

instance (w : Watched) (op : ServerOp) : Decidable (Prompt w op) :=
  match op with
  | .demux _ _ _ => isTrue trivial
  | .encapsulate _ _ _ => w.waiting.getLast?.decidableForallMem

instance (r : Reply) : Decidable r.Describes := inferInstanceAs (Decidable (_ ∧ _ ∧ _))

/-- The stack of the server holds the requests that wait. -/
structure Ledger (w : Watched) : Prop where
  pending_eq : w.sv.pending = w.waiting.map Request.origin
  all : (w.answered.map Reply.request ++ w.waiting).Perm w.accepted
  ids : w.accepted.map Request.id = List.range w.accepted.length
  describes : ∀ r ∈ w.answered, r.Describes

theorem Ledger.nodup (h : Ledger w) : w.accepted.Nodup := by
  apply Nodup.of_map Request.id
  rw [h.ids]
  exact nodup_range

theorem Ledger.start {sv : Server} {cfg : ServerConfig} (hreset : h.reset cfg = .ok sv) :
    Ledger { sv } := by
  unfold reset at hreset
  split_ifs at hreset
  cases hreset
  exact ⟨rfl, .refl _, rfl, fun r hr => absurd hr not_mem_nil⟩

theorem Ledger.accept (h : Ledger w) (arrived : ℤ) (room : w.sv.pending.length ≠ w.sv.capacity) :
    Ledger (w.accept (w.sv.push origin room) ⟨w.accepted.length, origin, arrived⟩) where
  pending_eq := by
    simp only [Watched.accept, push, h.pending_eq, map_append, map_cons,
      map_nil]
  all := by
    simp only [Watched.accept]
    rw [← append_assoc]
    exact h.all.append_right _
  ids := by
    simp only [Watched.accept, map_append, map_cons, map_nil, h.ids,
      length_append, length_singleton, range_succ]
  describes := h.describes

theorem Ledger.newest (h : Ledger w) (hlast : w.sv.pending.getLast? = some origin) :
    ∃ req rest, w.waiting = rest ++ [req] ∧ req.origin = origin ∧
      w.sv.pop.pending = rest.map Request.origin := by
  rw [h.pending_eq] at hlast
  rcases eq_nil_or_concat w.waiting with hnil | ⟨rest, req, hwaiting⟩
  · rw [hnil] at hlast
    cases hlast
  rw [concat_eq_append] at hwaiting
  refine ⟨req, rest, hwaiting, ?_, ?_⟩
  · simpa [hwaiting] using hlast
  · simp only [pop, h.pending_eq, hwaiting, map_append, map_cons, map_nil, dropLast_concat]

theorem Ledger.reply (h : Ledger w) {req : Request} {rest : List Request} {xmt : Timestamp}
    (hwaiting : w.waiting = rest ++ [req]) (hpop : w.sv.pop.pending = rest.map Request.origin)
    (hnow : stamp now = .ok xmt) (harrived : stamp req.arrived = .ok xmt) :
    Ledger (w.reply w.sv.pop (w.sv.answer frm req.origin xmt) now) := by
  have hlast : w.waiting.getLast? = some req := by rw [hwaiting, getLast?_concat]
  have hrest : w.waiting.dropLast = rest := by rw [hwaiting, dropLast_concat]
  obtain ⟨horigin, hreceive, htransmit⟩ := w.sv.answer_times frm req.origin xmt
  unfold Watched.reply
  rw [hlast]
  refine ⟨?_, ?_, h.ids, ?_⟩
  · simp only [hrest, hpop]
  · simp only [hrest, map_append, map_cons, map_nil]
    refine Perm.trans ?_ h.all
    rw [hwaiting, append_assoc]
    exact Perm.append_left _ perm_append_comm
  intro r hr
  rcases mem_append.1 hr with hr | hr
  · exact h.describes r hr
  rw [mem_singleton.1 hr]
  refine ⟨horigin, ?_, ?_⟩
  · rw [hreceive, harrived]
  · rw [htransmit, hnow]

theorem Ledger.step {w' : Watched} {op : ServerOp} (h : Ledger w) (hprompt : Prompt w op)
    (hstep : watch w op = .ok w') : Ledger w' := by
  cases op with
  | demux now carrierData frameOffset =>
    obtain ⟨⟨sv, r⟩, hrun, hstep⟩ := ok_bind hstep
    obtain ⟨rfl, hr⟩ | ⟨room, rfl, rfl⟩ := demux_cases hrun
    · obtain ⟨e, rfl⟩ := Option.ne_none_iff_exists'.1 hr
      cases hstep
      exact h
    · cases hstep
      exact h.accept now room
  | encapsulate now carrierData offsetToFrame =>
  obtain ⟨⟨sv, r⟩, hrun, hstep⟩ := ok_bind hstep
  obtain ⟨-, rfl, rfl⟩ | ⟨-, rfl, e, rfl⟩ | ⟨hsize, rfl, origin, hlast, hr⟩ :=
    encapsulate_cases hrun
  · cases hstep
    exact h
  · cases hstep
    exact h
  obtain ⟨req, rest, hwaiting, rfl, hpop⟩ := h.newest hlast
  obtain ⟨hsame, hok⟩ := hprompt req (by rw [hwaiting, getLast?_concat]; rfl) hsize
  rcases hr with ⟨e, hnow, rfl⟩ | ⟨xmt, frm, hnow, rfl⟩
  · rw [hnow] at hok
    cases hok
  · cases hstep
    exact h.reply hwaiting hpop hnow (by rw [← hsame, hnow])

def Roomy : ServerOp → Prop
  | .demux _ _ _ => False
  | .encapsulate _ carrierData offsetToFrame =>
    0 ≤ offsetToFrame ∧ offsetToFrame + sizeHeader ≤ carrierData.length

theorem Server.encapsulate_roomy (h : Server) (now : ℤ)
    (hroom : Roomy (.encapsulate now carrierData offsetToFrame)) :
    ∃ r, h.encapsulate now carrierData offsetToFrame = .ok r := by
  have hcarried : carried carrierData offsetToFrame = .ok (carrierData.drop offsetToFrame.toNat) :=
    if_pos ⟨hroom.1, by have := hroom.2; omega⟩
  unfold encapsulate
  cases h.pending.getLast? with
  | none => exact ⟨_, rfl⟩
  | some origin =>
  simp only [hcarried, ok_then]
  cases newFrame (carrierData.drop offsetToFrame.toNat) with
  | error e => exact ⟨_, rfl⟩
  | ok frm =>
  cases hstamp : stamp now with
  | error | ok => exact ⟨_, rfl⟩

/-- A call with room answers one request, if any waits. -/
theorem Ledger.serve {op : ServerOp} (h : Ledger w) (hprompt : Prompt w op) (hroomy : Roomy op) :
    ∃ w', watch w op = .ok w' ∧ w'.accepted = w.accepted ∧ w'.waiting = w.waiting.dropLast := by
  cases op with
  | demux => exact hroomy.elim
  | encapsulate now carrierData offsetToFrame =>
  obtain ⟨⟨sv, r⟩, hrun⟩ := w.sv.encapsulate_roomy now hroomy
  simp only [watch, hrun, ok_then]
  obtain ⟨hnil, rfl, rfl⟩ | ⟨hsize, -⟩ | ⟨hsize, rfl, origin, hlast, hr⟩ := encapsulate_cases hrun
  · have hwaiting : w.waiting = [] := map_eq_nil_iff.1 (h.pending_eq.symm.trans hnil)
    exact ⟨_, rfl, rfl, by simp only [hwaiting, dropLast_nil]⟩
  · exact absurd hsize (not_lt.2 hroomy.2)
  obtain ⟨req, rest, hwaiting, -, -⟩ := h.newest hlast
  have hwlast : w.waiting.getLast? = some req := by rw [hwaiting, getLast?_concat]
  obtain ⟨-, hok⟩ := hprompt req (by rw [hwlast]; rfl) hsize
  rcases hr with ⟨e, hnow, rfl⟩ | ⟨xmt, frm, hnow, rfl⟩
  · rw [hnow] at hok
    cases hok
  refine ⟨_, rfl, ?_, ?_⟩
  all_goals simp only [Watched.reply, hwlast]

theorem Ledger.drain : ∀ (later : List ServerOp) (w : Watched), Ledger w →
    (∀ op ∈ later, Roomy op) →
    later.length = w.waiting.length → Guarded watch Prompt w later →
    ∃ w', exec watch w later = .ok w' ∧ Ledger w' ∧ w'.accepted = w.accepted ∧ w'.waiting = [] := by
  intro later
  induction later with
  | nil =>
    intro w h _ hlen _
    exact ⟨w, rfl, h, rfl, length_eq_zero_iff.1 hlen.symm⟩
  | cons op later ih =>
  intro w h hroomy hlen hguard
  obtain ⟨w₁, hstep, haccepted, hwaiting⟩ := h.serve hguard.1 (hroomy op mem_cons_self)
  have hlen₁ : later.length = w₁.waiting.length := by
    rw [hwaiting, length_dropLast, ← hlen, length_cons, Nat.add_sub_cancel]
  obtain ⟨w', hrun, h', haccepted', hwaiting'⟩ :=
    ih w₁ (h.step hguard.1 hstep) (fun o ho => hroomy o (mem_cons_of_mem _ ho)) hlen₁
      (hguard.2 w₁ hstep)
  exact ⟨w', by simp only [exec, hstep, hrun], h', haccepted'.trans haccepted, hwaiting'⟩

/-- While requests are answered at the stamp at which they came, every reply describes its request,
none is answered twice or lost, and calls with room answer all. -/
theorem replies_describe_requests {h sv : Server} {cfg : ServerConfig}
    (hreset : h.reset cfg = .ok sv) {ops : List ServerOp} {w : Watched}
    (hprompt : Guarded watch Prompt { sv } ops) (hrun : exec watch { sv } ops = .ok w) :
    (∀ r ∈ w.answered, r.Describes) ∧
      (w.answered.map Reply.request ++ w.waiting).Perm w.accepted ∧ w.accepted.Nodup ∧
      (∀ now carrierData offsetToFrame sv' e,
        Prompt w (.encapsulate now carrierData offsetToFrame) →
        w.sv.encapsulate now carrierData offsetToFrame = .ok (sv', .error e) → sv' = w.sv) ∧
      ∀ later : List ServerOp, (∀ op ∈ later, Roomy op) → later.length = w.waiting.length →
        Guarded watch Prompt w later →
        ∃ w', exec watch w later = .ok w' ∧ (w'.answered.map Reply.request).Perm w.accepted ∧
          ∀ r ∈ w'.answered, r.Describes := by
  have hledger : Ledger w :=
    exec_invariant (fun s op s' hs hg hstep => hs.step hg hstep) ops _ w (.start hreset)
      hprompt hrun
  refine ⟨hledger.describes, hledger.all, hledger.nodup, ?_, ?_⟩
  · intro now carrierData offsetToFrame sv' e hnow herr
    obtain ⟨-, rfl, -⟩ | ⟨-, rfl, -⟩ | ⟨hsize, -, origin, hlast, hr⟩ :=
      Server.encapsulate_cases herr
    · rfl
    · rfl
    obtain ⟨req, rest, hwaiting, -, -⟩ := hledger.newest hlast
    obtain ⟨-, hok⟩ := hnow req (by rw [hwaiting, List.getLast?_concat]; rfl) hsize
    rcases hr with ⟨e', hstamp, -⟩ | ⟨xmt, frm, -, hr⟩
    · rw [hstamp] at hok
      cases hok
    · cases hr
  intro later hroomy hlen hguard
  obtain ⟨w', hrun', h', haccepted, hnil⟩ := hledger.drain later w hroomy hlen hguard
  have hall := h'.all
  rw [hnil, List.append_nil, haccepted] at hall
  exact ⟨w', hrun', hall, h'.describes⟩

def blank : Server := ⟨0, 0, 0, #v[0, 0, 0, 0], [], 0, Nat.le_refl 0⟩

def smallServer : Server := ⟨1, 1, 0xEC, #v[71, 80, 83, 0], [], 2, Nat.zero_le 2⟩

def smallConfig : ServerConfig :=
  { stratum := 1, precision := 0xEC, refID := #v[71, 80, 83, 0], maxPending := 2 }

theorem reset_small : blank.reset smallConfig = .ok smallServer := rfl

def requestFrame (transmit : Timestamp) : Bytes := 35 :: List.replicate 39 0 ++ transmit.bytes

theorem replies_describe_two : ∃ w, exec watch { sv := smallServer }
        [.demux 3000000000 (requestFrame ⟨2, 7⟩) 0, .demux 3000000000 (requestFrame ⟨2, 9⟩) 0,
          .encapsulate 3000000000 (List.replicate 48 0) 0,
          .encapsulate 3000000000 (List.replicate 48 0) 0] = .ok w ∧
      w.answered.map (fun r => r.request.origin) = [⟨2, 9⟩, ⟨2, 7⟩] ∧
      ∀ r ∈ w.answered, r.Describes := by
  obtain ⟨w, hrun, hlen⟩ : ∃ w, exec watch { sv := smallServer }
      [.demux 3000000000 (requestFrame ⟨2, 7⟩) 0, .demux 3000000000 (requestFrame ⟨2, 9⟩) 0,
        .encapsulate 3000000000 (List.replicate 48 0) 0,
        .encapsulate 3000000000 (List.replicate 48 0) 0] = .ok w ∧
      w.answered.map (fun r => r.request.origin) = [⟨2, 9⟩, ⟨2, 7⟩] :=
    exists_exec (by decide +kernel)
  exact ⟨w, hrun, hlen, (replies_describe_requests reset_small (by decide +kernel) hrun).1⟩

/-- A request that waits half a second is told that it came half a second later. -/
theorem waiting_stamped_late : ∃ w, exec watch { sv := smallServer }
        [.demux 3000000000 (requestFrame ⟨2, 7⟩) 0,
          .encapsulate 3500000000 (List.replicate 48 0) 0] = .ok w ∧
      w.answered.map (fun r => (stamp r.request.arrived, r.frame.receiveTime)) =
        [(.ok ⟨3, 0⟩, ⟨3, 2147483647⟩)] ∧
      ∃ r ∈ w.answered, ¬ r.Describes :=
  exists_exec (by decide +kernel)

end Lneto.NtpServer
